import Cofuos.Boot.Sectors
import Cofuos.Lib.Fault
import Cofuos.Lib.Logged

/-!
# ACPI tables

At startup the kernel goes through the tables that the firmware has left in memory. A table is
mapped by the page it begins in, and is accepted if it lies within this page and its bytes sum up to
zero. Three tables are of interest: the FADT, the HPET table and the MADT, which lists processors
and interrupt controllers as entries of a type and a length each. The definitions follow
`kernel/dev/acpi.cpp`. A computation is logged with the offsets of the bytes of the table that it
reads.

The size of a table counts its header of 36 bytes, and the three constructors treat it differently.
That of the FADT copies as many bytes from behind the header as the whole table has, that of the
HPET table always copies the whole structure, and that of the MADT looks at an entry before it knows
whether the entry ends within the table.
-/

namespace UOS

open Boot

namespace Acpi

theorem toNat_pos {b : UInt8} (h : b ≠ 0) : 0 < b.toNat := by
  apply Nat.pos_of_ne_zero
  intro h0
  apply h (UInt8.toNat_inj.mp h0)

/-- Computations logged with the offsets that they read. -/
abbrev Reads : Type → Type := Logged ℕ Fault

/-- `HEADER_SIZE` -/
def HEADER_SIZE : ℕ := 36

variable (view : Bytes)

def readByte (i : ℕ) : Reads UInt8 := ⟨[i], .ok (view i)⟩

def readDword (i : ℕ) : Reads ℕ := ⟨List.range' i 4, .ok (view.dword i)⟩

def readQword (i : ℕ) : Reads ℕ := ⟨List.range' i 8, .ok (view.qword i)⟩

/-- `memcpy` of `n` bytes from an offset on to the beginning of a structure. -/
def memcpy (this : Bytes) (i n : ℕ) : Reads Bytes :=
  ⟨List.range' i n, .ok (this.fill 0 n fun j => view (i + j))⟩

/-- The loop of `validate`. -/
def sumBytes : ℕ → ℕ → UInt8 → Reads UInt8
  | 0, _, sum => return sum
  | size + 1, i, sum => do
      let b ← readByte view i
      sumBytes size (i + 1) (sum + b)

/-- `ACPI::validate` -/
def validate (limit : ℕ) : Reads Bool :=
  if limit < 8 then return false
  else do
    let size ← readDword view 4
    if size < HEADER_SIZE ∨ size > limit then return false
    else do
      let sum ← sumBytes view size 0 0
      return sum = 0

/-! ### The FADT and the HPET table -/

/-- `sizeof(FADT)` -/
def FADT_SIZE : ℕ := 208

/-- `sizeof(HPET)` -/
def HPET_SIZE : ℕ := 0x14

/-- The constructor of `FADT`, from the memory it is given. -/
def fadt (this : Bytes) : Reads Bytes := do
  let size ← readDword view 4
  let this ← memcpy view this HEADER_SIZE (min size FADT_SIZE)
  if size < FADT_SIZE then
    return this.fill size (FADT_SIZE - size) fun _ => 0
  else return this

/-- The constructor of `HPET`, from the memory it is given. The assertion is about
`address.AddressSpace`. -/
def hpet (debug : Bool) (this : Bytes) : Reads Bytes := do
  let size ← readDword view 4
  let this ← memcpy view this HEADER_SIZE (min size HPET_SIZE)
  Logged.require (debug = true → this 4 = 0) .assertFailed
  return this

/-! ### The MADT -/

/-- `MADT::processor` -/
structure Processor where
  uid : UInt8
  apicId : UInt8
  deriving DecidableEq

/-- `MADT::nmi` -/
structure Nmi where
  uid : UInt8
  pin : UInt8
  mode : UInt8
  deriving DecidableEq

/-- `MADT::redirect`. The IRQ 2 stands for NMI. -/
structure Redirect where
  gsi : ℕ
  irq : UInt8
  mode : UInt8
  deriving DecidableEq

/-- `MADT` -/
structure Madt where
  localApicPbase : ℕ := 0xFEE00000
  ioApicPbase : ℕ := 0xFEC00000
  gsiBase : ℕ := 0
  picPresent : Bool := true
  processors : List Processor := []
  nmiPins : List Nmi := []
  redirects : List Redirect := []

/-- What the loop of the constructor works on. -/
structure MadtScan extends Madt where
  ioApicFound : Bool := false

/-- The branches of the loop, for the entry at `cur`. -/
def localApic (s : MadtScan) (cur : ℕ) : Reads MadtScan := do
  let length ← readByte view (cur + 1)
  if length = 8 then do
    let flags ← readByte view (cur + 4)
    if flags &&& 1 ≠ 0 then do
      let uid ← readByte view (cur + 2)
      let apicId ← readByte view (cur + 3)
      return { s with processors := s.processors ++ [⟨uid, apicId⟩] }
    else return s
  else return s

def ioApic (s : MadtScan) (cur : ℕ) : Reads MadtScan := do
  let length ← readByte view (cur + 1)
  if length = 12 then do
    let curGsi ← readDword view (cur + 8)
    let _ ← readByte view (cur + 2)
    let pbase ← readDword view (cur + 4)
    if s.ioApicFound = false ∨ curGsi < s.gsiBase then
      return { s with ioApicPbase := pbase, gsiBase := curGsi, ioApicFound := true }
    else return { s with ioApicFound := true }
  else return s

def sourceOverride (s : MadtScan) (cur : ℕ) : Reads MadtScan := do
  let length ← readByte view (cur + 1)
  if length = 10 then do
    let bus ← readByte view (cur + 2)
    if bus = 0 then do
      let gsi ← readDword view (cur + 4)
      let irq ← readByte view (cur + 3)
      let mode ← readByte view (cur + 8)
      return { s with redirects := s.redirects ++ [⟨gsi, irq, mode⟩] }
    else return s
  else return s

def nmiSource (s : MadtScan) (cur : ℕ) : Reads MadtScan := do
  let length ← readByte view (cur + 1)
  if length = 8 then do
    let gsi ← readDword view (cur + 4)
    let mode ← readByte view (cur + 2)
    return { s with redirects := s.redirects ++ [⟨gsi, 2, mode⟩] }
  else return s

def localApicNmi (s : MadtScan) (cur : ℕ) : Reads MadtScan := do
  let length ← readByte view (cur + 1)
  if length = 6 then do
    let uid ← readByte view (cur + 2)
    let mode ← readByte view (cur + 3)
    let pin ← readByte view (cur + 5)
    return { s with nmiPins := s.nmiPins ++ [⟨uid, pin, mode⟩] }
  else return s

def addressOverride (s : MadtScan) (cur : ℕ) : Reads MadtScan := do
  let length ← readByte view (cur + 1)
  if length = 12 then do
    let pbase ← readQword view (cur + 4)
    return { s with localApicPbase := pbase }
  else return s

/-- The `switch` of the loop. -/
def entry (s : MadtScan) (cur : ℕ) : Reads MadtScan := do
  let type ← readByte view cur
  if type = 0 then localApic view s cur
  else if type = 1 then ioApic view s cur
  else if type = 2 then sourceOverride view s cur
  else if type = 3 then nmiSource view s cur
  else if type = 4 then localApicNmi view s cur
  else if type = 5 then addressOverride view s cur
  else return s

/-- The loop of the constructor of `MADT`, which goes on after an entry by the length of it. -/
def madtLoop (limit : ℕ) (s : MadtScan) (cur : ℕ) : Reads MadtScan :=
  if cur < limit then do
    let s ← entry view s cur
    let length ← readByte view (cur + 1)
    if h : length = 0 then Logged.stop (.bugcheck "invalid ACPI table @ %p")
    else
      have := toNat_pos h
      madtLoop limit s (cur + length.toNat)
  else return s
termination_by limit - cur

/-- What the constructor reads before its loop. -/
def madtHeader : Reads MadtScan := do
  let pbase ← readDword view HEADER_SIZE
  let flags ← readByte view (HEADER_SIZE + 4)
  return { localApicPbase := pbase, picPresent := flags &&& 1 ≠ 0 }

/-- The constructor of `MADT` -/
def madt : Reads Madt := do
  let limit ← readDword view 4
  let s ← madtHeader view
  let s ← madtLoop view limit s (HEADER_SIZE + 8)
  return s.toMadt

/-! ### Parsing a table -/

/-- The tables that have been found. -/
structure Tables where
  madt : Option Madt := none
  fadt : Option Bytes := none
  hpet : Option Bytes := none

/-- The names of the tables: `APIC`, `FACP` and `HPET`. -/
def APIC : ℕ := 0x43495041

def FACP : ℕ := 0x50434146

def HPET : ℕ := 0x54455048

/-- The second half of `ACPI::parse_table`: which table it is. -/
def dispatch (debug : Bool) (this : Bytes) (acpi : Tables) (name : ℕ) : Reads Tables :=
  if name = APIC then do
    let madt ← madt view
    return { acpi with madt := some madt }
  else if name = FACP then
    if acpi.fadt.isSome = true then Logged.stop (.bugcheck "duplicated FADT @ %p")
    else do
      let fadt ← fadt view this
      return { acpi with fadt := some fadt }
  else if name = HPET then do
    let hpet ← hpet view debug this
    return { acpi with hpet := some hpet }
  else return acpi

/-- `ACPI::parse_table`, with the memory that `new` returns. -/
def parseTable (debug : Bool) (this : Bytes) (limit : ℕ) (acpi : Tables) : Reads Tables := do
  let valid ← validate view limit
  if valid = false then return acpi
  else do
    let _ ← memcpy view (fun _ => 0) 0 4
    let _ ← readDword view 4
    let name ← readDword view 0
    dispatch view debug this acpi name

/-- What is seen at a table that begins at `pbase`: the physical memory up to the end of the page,
and whatever is mapped behind it. -/
def tableView (mem beyond : Bytes) (pbase : ℕ) : Bytes := fun i =>
  if pbase % 0x1000 + i < 0x1000 then mem (pbase + i) else beyond i

/-- The number of bytes from the beginning of a table to the end of its page. -/
def pageLimit (pbase : ℕ) : ℕ := 0x1000 - pbase % 0x1000

/-! ### What the constructor of the MADT has to record -/

def processorAt (cur : ℕ) : Option Processor :=
  if view cur = 0 ∧ view (cur + 1) = 8 ∧ view (cur + 4) &&& 1 ≠ 0 then
    some ⟨view (cur + 2), view (cur + 3)⟩
  else none

/-- The GSI and the address of an IO APIC. -/
def ioApicAt (cur : ℕ) : Option (ℕ × ℕ) :=
  if view cur = 1 ∧ view (cur + 1) = 12 then some (view.dword (cur + 8), view.dword (cur + 4))
  else none

def redirectAt (cur : ℕ) : Option Redirect :=
  if view cur = 2 ∧ view (cur + 1) = 10 ∧ view (cur + 2) = 0 then
    some ⟨view.dword (cur + 4), view (cur + 3), view (cur + 8)⟩
  else if view cur = 3 ∧ view (cur + 1) = 8 then some ⟨view.dword (cur + 4), 2, view (cur + 2)⟩
  else none

def nmiAt (cur : ℕ) : Option Nmi :=
  if view cur = 4 ∧ view (cur + 1) = 6 then some ⟨view (cur + 2), view (cur + 5), view (cur + 3)⟩
  else none

def localApicAt (cur : ℕ) : Option ℕ :=
  if view cur = 5 ∧ view (cur + 1) = 12 then some (view.qword (cur + 4)) else none

/-- The IO APIC with the lowest GSI counts. The first component says that there is one. -/
def lower (found : Bool × ℕ × ℕ) (apic : ℕ × ℕ) : Bool × ℕ × ℕ :=
  if found.1 = false ∨ apic.1 < found.2.1 then (true, apic) else (true, found.2)

/-- The entries that lie completely inside of the table, one after the other. -/
def inside (size cur : ℕ) : List ℕ :=
  if h : cur + 1 < size ∧ view (cur + 1) ≠ 0 ∧ cur + (view (cur + 1)).toNat ≤ size then
    have := toNat_pos h.2.1
    cur :: inside size (cur + (view (cur + 1)).toNat)
  else []
termination_by size - cur

/-- What is known after the entries of a list, in their order. -/
structure Extends (s : MadtScan) (entries : List ℕ) (s' : MadtScan) : Prop where
  processors : s'.processors = s.processors ++ entries.filterMap (processorAt view)
  redirects : s'.redirects = s.redirects ++ entries.filterMap (redirectAt view)
  nmiPins : s'.nmiPins = s.nmiPins ++ entries.filterMap (nmiAt view)
  localApic : s'.localApicPbase = (entries.filterMap (localApicAt view)).getLastD s.localApicPbase
  ioApic : (s'.ioApicFound, s'.gsiBase, s'.ioApicPbase) =
    (entries.filterMap (ioApicAt view)).foldl lower (s.ioApicFound, s.gsiBase, s.ioApicPbase)
  picPresent : s'.picPresent = s.picPresent

/-- What the header says. -/
def start : MadtScan :=
  { localApicPbase := view.dword HEADER_SIZE
    picPresent := view (HEADER_SIZE + 4) &&& 1 ≠ 0 }

/-- The entry at `cur` would be looked into if it ended within the table. -/
def Taken (size cur : ℕ) : Prop :=
  view cur = 0 ∧ view (cur + 1) = 8 ∧ (cur + 4 < size → view (cur + 4) &&& 1 ≠ 0) ∨
  view cur = 1 ∧ view (cur + 1) = 12 ∨
  view cur = 2 ∧ view (cur + 1) = 10 ∧ (cur + 2 < size → view (cur + 2) = 0) ∨
  view cur = 3 ∧ view (cur + 1) = 8 ∨
  view cur = 4 ∧ view (cur + 1) = 6 ∨
  view cur = 5 ∧ view (cur + 1) = 12

/-- From `cur` to the end of the table there is one entry after the other, with a type and a length
that is not zero, and an entry that the end of the table cuts off is none that is looked into. -/
def Tiled (size cur : ℕ) : Prop :=
  if h : cur + 1 < size ∧ view (cur + 1) ≠ 0 then
    have := toNat_pos h.2
    if cur + (view (cur + 1)).toNat ≤ size then Tiled size (cur + (view (cur + 1)).toNat)
    else ¬ Taken view size cur
  else size ≤ cur
termination_by size - cur

/-! ### Reading -/

variable {view : Bytes}

/-- A computation that returns without a condition. -/
theorem bind_ok {ε σ α β : Type} {events : List ε} {a : α} {f : α → Logged ε σ β} :
  ((⟨events, .ok a⟩ : Logged ε σ α) >>= f) = ⟨events ++ (f a).events, (f a).result⟩
  := rfl

theorem sumBytes_eq (size i : ℕ) (sum : UInt8) :
  sumBytes view size i sum
    = ⟨List.range' i size, .ok ((List.range' i size).foldl (fun s j => s + view j) sum)⟩
  := by
  induction size generalizing i sum with
  | zero => rfl
  | succ size ih =>
      rw [sumBytes, readByte, bind_ok, ih]
      rfl

/-- What `validate` returns. -/
def accepts (view : Bytes) (limit : ℕ) : Bool :=
  8 ≤ limit ∧ HEADER_SIZE ≤ view.dword 4 ∧ view.dword 4 ≤ limit ∧
    (List.range' 0 (view.dword 4)).foldl (fun s j => s + view j) 0 = 0

theorem validate_result (view : Bytes) (limit : ℕ) :
  (validate view limit).result = .ok (accepts view limit)
  := by
  rw [validate, accepts]
  split_ifs with h8
  · simp [Nat.not_le.mpr h8]
  · rw [readDword, bind_ok]
    split_ifs with hsize
    · have hout : ¬ (HEADER_SIZE ≤ view.dword 4 ∧ view.dword 4 ≤ limit) := by omega
      simp only [Logged.result_pure, Except.ok.injEq]
      rw [eq_comm, decide_eq_false_iff_not]
      intro h
      exact hout ⟨h.2.1, h.2.2.1⟩
    · rw [not_or, not_lt, not_lt] at hsize
      rw [sumBytes_eq, bind_ok]
      simp [Nat.not_lt.mp h8, hsize]

/-- `validate` stays in the page, and in the table if that is accepted. -/
theorem validate_events (limit : ℕ) {i : ℕ} (h : i ∈ (validate view limit).events) :
  i < limit ∧ (accepts view limit = true → i < view.dword 4)
  := by
  rw [validate] at h
  split_ifs at h with h8
  · cases h
  · rw [readDword, bind_ok] at h
    split_ifs at h with hsize
    · rw [Logged.events_pure, List.append_nil, List.mem_range'_1] at h
      refine ⟨by omega, fun hacc => ?_⟩
      rw [accepts, decide_eq_true_eq] at hacc
      omega
    · rw [not_or, not_lt, not_lt] at hsize
      rw [sumBytes_eq, bind_ok, Logged.events_pure, List.append_nil, List.mem_append,
        List.mem_range'_1, List.mem_range'_1] at h
      have hheader : HEADER_SIZE = 36 := rfl
      lia

/-! ### Copies -/

theorem fadt_events (this : Bytes) {i : ℕ} :
  i ∈ (fadt view this).events ↔
    i ∈ List.range' 4 4 ∨ i ∈ List.range' HEADER_SIZE (min (view.dword 4) FADT_SIZE)
  := by
  rw [fadt, readDword, bind_ok, memcpy, bind_ok]
  split_ifs
  · simp
  · simp

theorem hpet_events (debug : Bool) (this : Bytes) {i : ℕ} :
  i ∈ (hpet view debug this).events ↔
    i ∈ List.range' 4 4 ∨ i ∈ List.range' HEADER_SIZE (min (view.dword 4) HPET_SIZE)
  := by
  rw [hpet, readDword, bind_ok, memcpy, bind_ok]
  simp

/-- A copy stays in a table exactly if the table has a header and as many bytes as are copied. -/
theorem copy_inside_iff {size n : ℕ} (hsize : HEADER_SIZE ≤ size) (hn : 0 < n) :
  (∀ i, i ∈ List.range' 4 4 ∨ i ∈ List.range' HEADER_SIZE (min size n) → i < size) ↔
    HEADER_SIZE + n ≤ size
  := by
  have hheader : HEADER_SIZE = 36 := rfl
  simp only [List.mem_range'_1]
  constructor
  · intro h
    have hlast := h (HEADER_SIZE + min size n - 1) (.inr (by lia))
    lia
  · intro h i hi
    lia

/-! ### An entry of the MADT -/

/-- What is known after an entry. -/
def note (view : Bytes) (s : MadtScan) (cur : ℕ) : MadtScan :=
  let apic := lower (s.ioApicFound, s.gsiBase, s.ioApicPbase)
  { localApicPbase := (localApicAt view cur).getD s.localApicPbase
    ioApicFound := ((ioApicAt view cur).elim s.ioApicFound fun a => (apic a).1)
    gsiBase := ((ioApicAt view cur).elim s.gsiBase fun a => (apic a).2.1)
    ioApicPbase := ((ioApicAt view cur).elim s.ioApicPbase fun a => (apic a).2.2)
    picPresent := s.picPresent
    processors := s.processors ++ (processorAt view cur).toList
    nmiPins := s.nmiPins ++ (nmiAt view cur).toList
    redirects := s.redirects ++ (redirectAt view cur).toList }

/-- The offsets that are read of an entry. -/
def entryReads (view : Bytes) (cur : ℕ) : List ℕ :=
  cur :: if view cur = 0 then
      (cur + 1) :: if view (cur + 1) = 8 then
        (cur + 4) :: if view (cur + 4) &&& 1 ≠ 0 then [cur + 2, cur + 3] else []
      else []
    else if view cur = 1 then
      (cur + 1) :: if view (cur + 1) = 12 then
        List.range' (cur + 8) 4 ++ (cur + 2) :: List.range' (cur + 4) 4
      else []
    else if view cur = 2 then
      (cur + 1) :: if view (cur + 1) = 10 then
        (cur + 2) :: if view (cur + 2) = 0 then List.range' (cur + 4) 4 ++ [cur + 3, cur + 8] else []
      else []
    else if view cur = 3 then
      (cur + 1) :: if view (cur + 1) = 8 then List.range' (cur + 4) 4 ++ [cur + 2] else []
    else if view cur = 4 then
      (cur + 1) :: if view (cur + 1) = 6 then [cur + 2, cur + 3, cur + 5] else []
    else if view cur = 5 then
      (cur + 1) :: if view (cur + 1) = 12 then List.range' (cur + 4) 8 else []
    else []

variable {s : MadtScan} {cur : ℕ}

/-- Nothing is known after an entry that is not recorded. -/
theorem note_eq_self (hprocessor : processorAt view cur = none) (hio : ioApicAt view cur = none)
    (hredirect : redirectAt view cur = none) (hnmi : nmiAt view cur = none)
    (hlocal : localApicAt view cur = none) :
  note view s cur = s
  := by
  simp [note, hprocessor, hio, hredirect, hnmi, hlocal]

/-- Each branch of the `switch` reads what is to be read of an entry of its type, and records it. -/
theorem localApic_eq (h : view cur = 0) :
  localApic view s cur = ⟨(entryReads view cur).tail, .ok (note view s cur)⟩
  := by
  have hio : ioApicAt view cur = none := by simp [ioApicAt, h]
  have hredirect : redirectAt view cur = none := by simp [redirectAt, h]
  have hnmi : nmiAt view cur = none := by simp [nmiAt, h]
  have hlocal : localApicAt view cur = none := by simp [localApicAt, h]
  rw [localApic, readByte, bind_ok]
  split_ifs with hlength
  · by_cases hflags : view (cur + 4) &&& 1 = 0
    · rw [note_eq_self _ hio hredirect hnmi hlocal]
      · simp [entryReads, readByte, bind_ok, h, hlength, hflags]
      · simp [processorAt, hflags]
    · simp [entryReads, readByte, bind_ok, note, processorAt, hio, hredirect, hnmi, hlocal, h,
        hlength, hflags]
  · rw [note_eq_self _ hio hredirect hnmi hlocal]
    · simp [entryReads, h, hlength]
    · simp [processorAt, hlength]

theorem ioApic_eq (h : view cur = 1) :
  ioApic view s cur = ⟨(entryReads view cur).tail, .ok (note view s cur)⟩
  := by
  have hprocessor : processorAt view cur = none := by simp [processorAt, h]
  have hredirect : redirectAt view cur = none := by simp [redirectAt, h]
  have hnmi : nmiAt view cur = none := by simp [nmiAt, h]
  have hlocal : localApicAt view cur = none := by simp [localApicAt, h]
  rw [ioApic, readByte, bind_ok]
  split_ifs with hlength
  · by_cases hlower : s.ioApicFound = false ∨ view.dword (cur + 8) < s.gsiBase
    · simp [entryReads, readByte, readDword, bind_ok, note, ioApicAt, lower, hprocessor, hredirect,
        hnmi, hlocal, h, hlength, hlower]
    · simp [entryReads, readByte, readDword, bind_ok, note, ioApicAt, lower, hprocessor, hredirect,
        hnmi, hlocal, h, hlength, hlower]
  · rw [note_eq_self hprocessor _ hredirect hnmi hlocal]
    · simp [entryReads, h, hlength]
    · simp [ioApicAt, hlength]

theorem sourceOverride_eq (h : view cur = 2) :
  sourceOverride view s cur = ⟨(entryReads view cur).tail, .ok (note view s cur)⟩
  := by
  have hprocessor : processorAt view cur = none := by simp [processorAt, h]
  have hio : ioApicAt view cur = none := by simp [ioApicAt, h]
  have hnmi : nmiAt view cur = none := by simp [nmiAt, h]
  have hlocal : localApicAt view cur = none := by simp [localApicAt, h]
  rw [sourceOverride, readByte, bind_ok]
  split_ifs with hlength
  · by_cases hbus : view (cur + 2) = 0
    · simp [entryReads, readByte, readDword, bind_ok, note, redirectAt, hprocessor, hio, hnmi,
        hlocal, h, hlength, hbus]
    · rw [note_eq_self hprocessor hio _ hnmi hlocal]
      · simp [entryReads, readByte, bind_ok, h, hlength, hbus]
      · simp [redirectAt, h, hbus]
  · rw [note_eq_self hprocessor hio _ hnmi hlocal]
    · simp [entryReads, h, hlength]
    · simp [redirectAt, h, hlength]

theorem nmiSource_eq (h : view cur = 3) :
  nmiSource view s cur = ⟨(entryReads view cur).tail, .ok (note view s cur)⟩
  := by
  have hprocessor : processorAt view cur = none := by simp [processorAt, h]
  have hio : ioApicAt view cur = none := by simp [ioApicAt, h]
  have hnmi : nmiAt view cur = none := by simp [nmiAt, h]
  have hlocal : localApicAt view cur = none := by simp [localApicAt, h]
  rw [nmiSource, readByte, bind_ok]
  split_ifs with hlength
  · simp [entryReads, readByte, readDword, bind_ok, note, redirectAt, hprocessor, hio, hnmi,
      hlocal, h, hlength]
  · rw [note_eq_self hprocessor hio _ hnmi hlocal]
    · simp [entryReads, h, hlength]
    · simp [redirectAt, h, hlength]

theorem localApicNmi_eq (h : view cur = 4) :
  localApicNmi view s cur = ⟨(entryReads view cur).tail, .ok (note view s cur)⟩
  := by
  have hprocessor : processorAt view cur = none := by simp [processorAt, h]
  have hio : ioApicAt view cur = none := by simp [ioApicAt, h]
  have hredirect : redirectAt view cur = none := by simp [redirectAt, h]
  have hlocal : localApicAt view cur = none := by simp [localApicAt, h]
  rw [localApicNmi, readByte, bind_ok]
  split_ifs with hlength
  · simp [entryReads, readByte, bind_ok, note, nmiAt, hprocessor, hio, hredirect, hlocal, h,
      hlength]
  · rw [note_eq_self hprocessor hio hredirect _ hlocal]
    · simp [entryReads, h, hlength]
    · simp [nmiAt, hlength]

theorem addressOverride_eq (h : view cur = 5) :
  addressOverride view s cur = ⟨(entryReads view cur).tail, .ok (note view s cur)⟩
  := by
  have hprocessor : processorAt view cur = none := by simp [processorAt, h]
  have hio : ioApicAt view cur = none := by simp [ioApicAt, h]
  have hredirect : redirectAt view cur = none := by simp [redirectAt, h]
  have hnmi : nmiAt view cur = none := by simp [nmiAt, h]
  rw [addressOverride, readByte, bind_ok]
  split_ifs with hlength
  · simp [entryReads, readQword, bind_ok, note, localApicAt, hprocessor, hio, hredirect, hnmi, h,
      hlength]
  · rw [note_eq_self hprocessor hio hredirect hnmi]
    · simp [entryReads, h, hlength]
    · simp [localApicAt, hlength]

/-- What an entry comes to. -/
theorem entry_eq (s : MadtScan) (cur : ℕ) :
  entry view s cur = ⟨entryReads view cur, .ok (note view s cur)⟩
  := by
  have hcons : entryReads view cur = [cur] ++ (entryReads view cur).tail := rfl
  rw [entry, readByte, bind_ok]
  split_ifs with h0 h1 h2 h3 h4 h5
  · rw [localApic_eq h0, ← hcons]
  · rw [ioApic_eq h1, ← hcons]
  · rw [sourceOverride_eq h2, ← hcons]
  · rw [nmiSource_eq h3, ← hcons]
  · rw [localApicNmi_eq h4, ← hcons]
  · rw [addressOverride_eq h5, ← hcons]
  · have hself : note view s cur = s := by
      apply note_eq_self
      · simp [processorAt, h0]
      · simp [ioApicAt, h1]
      · simp [redirectAt, h2, h3]
      · simp [nmiAt, h4]
      · simp [localApicAt, h5]
    rw [hself]
    simp [entryReads, h0, h1, h2, h3, h4, h5]

/-- An entry is read within its length, once its type and its length are there. -/
theorem lt_of_mem_entryReads {i : ℕ} (h : i ∈ entryReads view cur) :
  i < cur + 2 ∨ i < cur + (view (cur + 1)).toNat
  := by
  rw [entryReads, List.mem_cons] at h
  rcases h with rfl | h
  · omega
  split_ifs at h with h0 hlen hflags h1 hlen h2 hlen hbus h3 hlen h4 hlen h5 hlen
  all_goals
    simp only [List.mem_cons, List.mem_append, List.mem_range'_1, List.not_mem_nil, or_false] at h
  · have hnat : (view (cur + 1)).toNat = 8 := congrArg UInt8.toNat hlen
    lia
  · have hnat : (view (cur + 1)).toNat = 8 := congrArg UInt8.toNat hlen
    omega
  · omega
  · have hnat : (view (cur + 1)).toNat = 12 := congrArg UInt8.toNat hlen
    lia
  · omega
  · have hnat : (view (cur + 1)).toNat = 10 := congrArg UInt8.toNat hlen
    lia
  · have hnat : (view (cur + 1)).toNat = 10 := congrArg UInt8.toNat hlen
    omega
  · omega
  · have hnat : (view (cur + 1)).toNat = 8 := congrArg UInt8.toNat hlen
    lia
  · omega
  · have hnat : (view (cur + 1)).toNat = 6 := congrArg UInt8.toNat hlen
    lia
  · omega
  · have hnat : (view (cur + 1)).toNat = 12 := congrArg UInt8.toNat hlen
    lia
  · omega

variable {size : ℕ}

/-- An entry that the end of the table cuts off is read beyond it or recorded if it is one that is
looked into. -/
theorem Taken.bad (h : Taken view size cur) (hcut : size < cur + (view (cur + 1)).toNat) :
  (∃ i ∈ entryReads view cur, size ≤ i) ∨ processorAt view cur ≠ none ∨ redirectAt view cur ≠ none
  := by
  rcases h with ⟨h, hlen, hflags⟩ | ⟨h, hlen⟩ | ⟨h, hlen, hbus⟩ | ⟨h, hlen⟩ | ⟨h, hlen⟩ | ⟨h, hlen⟩
  · by_cases hin : cur + 4 < size
    · refine .inr (.inl ?_)
      simp [processorAt, h, hlen, hflags hin]
    · exact .inl ⟨cur + 4, by simp [entryReads, h, hlen], not_lt.mp hin⟩
  · have hnat : (view (cur + 1)).toNat = 12 := congrArg UInt8.toNat hlen
    exact .inl ⟨cur + 11, by simp [entryReads, h, hlen], by omega⟩
  · by_cases hin : cur + 2 < size
    · refine .inr (.inr ?_)
      simp [redirectAt, h, hlen, hbus hin]
    · exact .inl ⟨cur + 2, by simp [entryReads, h, hlen], not_lt.mp hin⟩
  · have hnat : (view (cur + 1)).toNat = 8 := congrArg UInt8.toNat hlen
    exact .inl ⟨cur + 7, by simp [entryReads, h, hlen], by omega⟩
  · have hnat : (view (cur + 1)).toNat = 6 := congrArg UInt8.toNat hlen
    exact .inl ⟨cur + 5, by simp [entryReads, h, hlen], by omega⟩
  · have hnat : (view (cur + 1)).toNat = 12 := congrArg UInt8.toNat hlen
    exact .inl ⟨cur + 11, by simp [entryReads, h, hlen], by omega⟩

/-- An entry that is not looked into is read up to its length or to the byte that says so, and it is
not recorded. -/
theorem good_of_not_taken (h : ¬ Taken view size cur) (hin : cur + 1 < size) :
  (∀ i ∈ entryReads view cur, i < size) ∧ note view s cur = s
  := by
  simp only [Taken, not_or, not_and, not_forall, ne_eq, not_not] at h
  obtain ⟨h0, h1, h2, h3, h4, h5⟩ := h
  constructor
  · intro i hi
    rw [entryReads, List.mem_cons] at hi
    rcases hi with rfl | hi
    · omega
    split_ifs at hi with h0' hlen hflags h1' hlen h2' hlen hbus h3' hlen h4' hlen h5' hlen
    all_goals simp only [List.mem_cons, List.not_mem_nil, or_false] at hi
    · exact absurd (h0 h0' hlen).2 hflags
    · obtain ⟨hin', -⟩ := h0 h0' hlen
      lia
    · omega
    · exact absurd hlen (h1 h1')
    · omega
    · exact absurd hbus (h2 h2' hlen).2
    · obtain ⟨hin', -⟩ := h2 h2' hlen
      lia
    · omega
    · exact absurd hlen (h3 h3')
    · omega
    · exact absurd hlen (h4 h4')
    · omega
    · exact absurd hlen (h5 h5')
    · omega
  · apply note_eq_self
    · rw [processorAt, if_neg]
      rintro ⟨h0', hlen, hflags⟩
      exact hflags (h0 h0' hlen).2
    · rw [ioApicAt, if_neg (not_and.mpr h1)]
    · rw [redirectAt, if_neg, if_neg (not_and.mpr h3)]
      rintro ⟨h2', hlen, hbus⟩
      exact (h2 h2' hlen).2 hbus
    · rw [nmiAt, if_neg (not_and.mpr h4)]
    · rw [localApicAt, if_neg (not_and.mpr h5)]

/-! ### The loop -/

variable {s' : MadtScan} {entries : List ℕ}

theorem extends_nil : Extends view s [] s' ↔ s' = s := by
  constructor
  · rintro ⟨hprocessors, hredirects, hnmi, hlocal, hio, hpic⟩
    simp only [List.filterMap_nil, List.append_nil, List.getLastD_nil, List.foldl_nil,
      Prod.mk.injEq] at *
    obtain ⟨⟨⟩, _⟩ := s
    obtain ⟨⟨⟩, _⟩ := s'
    simp_all
  · rintro rfl
    constructor <;> simp

/-- What is at the first entry comes before what is at the others. -/
theorem append_filterMap_cons {α β : Type} (f : α → Option β) (l : List β) (x : α) (xs : List α) :
  l ++ (x :: xs).filterMap f = l ++ (f x).toList ++ xs.filterMap f
  := by
  cases hx : f x with
  | none => simp [hx]
  | some b => simp [hx]

/-- The entries are recorded one after the other. -/
theorem extends_cons :
  Extends view s (cur :: entries) s' ↔ Extends view (note view s cur) entries s'
  := by
  have hlocal : ((cur :: entries).filterMap (localApicAt view)).getLastD s.localApicPbase
      = (entries.filterMap (localApicAt view)).getLastD (note view s cur).localApicPbase := by
    cases hx : localApicAt view cur with
    | none => simp [note, hx]
    | some pbase =>
        rw [List.filterMap_cons_some hx, List.getLastD_cons]
        simp only [note, hx, Option.getD_some]
  have hio : ((cur :: entries).filterMap (ioApicAt view)).foldl lower
        (s.ioApicFound, s.gsiBase, s.ioApicPbase)
      = (entries.filterMap (ioApicAt view)).foldl lower ((note view s cur).ioApicFound,
        (note view s cur).gsiBase, (note view s cur).ioApicPbase) := by
    cases hx : ioApicAt view cur with
    | none => simp [note, hx]
    | some apic => simp [note, hx]
  constructor
  · rintro ⟨hprocessors, hredirects, hnmi, hlocal', hio', hpic⟩
    rw [append_filterMap_cons] at hprocessors hredirects hnmi
    exact ⟨hprocessors, hredirects, hnmi, hlocal'.trans hlocal, hio'.trans hio, hpic⟩
  · rintro ⟨hprocessors, hredirects, hnmi, hlocal', hio', hpic⟩
    constructor
    · rw [append_filterMap_cons]
      apply hprocessors
    · rw [append_filterMap_cons]
      apply hredirects
    · rw [append_filterMap_cons]
      apply hnmi
    · apply hlocal'.trans hlocal.symm
    · apply hio'.trans hio.symm
    · apply hpic

/-- A computation stays inside of a table. -/
def StaysIn {α : Type} (size : ℕ) (x : Reads α) : Prop := ∀ i ∈ x.events, i < size

/-- What the loop has to do from `cur` on. -/
def Records (view : Bytes) (size : ℕ) (s : MadtScan) (cur : ℕ) : Prop :=
  StaysIn size (madtLoop view size s cur) ∧
    ∃ m, (madtLoop view size s cur).result.map MadtScan.toMadt = .ok m ∧
      ∃ s' : MadtScan, s'.toMadt = m ∧ Extends view s (inside view size cur) s'

/-- A round of the loop. -/
theorem madtLoop_of_lt (h : cur < size) :
  madtLoop view size s cur =
    if view (cur + 1) = 0 then
      ⟨entryReads view cur ++ [cur + 1], .error (.bugcheck "invalid ACPI table @ %p")⟩
    else
      let rest := madtLoop view size (note view s cur) (cur + (view (cur + 1)).toNat)
      ⟨entryReads view cur ++ ([cur + 1] ++ rest.events), rest.result⟩
  := by
  rw [madtLoop, if_pos h, entry_eq, bind_ok, readByte, bind_ok]
  split_ifs with hlen
  · rfl
  · rfl

theorem madtLoop_of_le (h : size ≤ cur) :
  madtLoop view size s cur = ⟨[], .ok s⟩
  := by
  rw [madtLoop, if_neg (not_lt.mpr h)]
  rfl

/-- The loop records the entries inside of the table, and reads nothing else, exactly when the table
is tiled by its entries. -/
theorem records_iff (size : ℕ) (s : MadtScan) (cur : ℕ) :
  Records view size s cur ↔ Tiled view size cur
  := by
  fun_induction Tiled view size cur generalizing s with
  | case1 cur h hpos hin ih =>
      have hinside : inside view size cur
          = cur :: inside view size (cur + (view (cur + 1)).toNat) := by
        rw [inside, dif_pos ⟨h.1, h.2, hin⟩]
      rw [← ih (note view s cur), Records, Records, hinside, madtLoop_of_lt (by omega), if_neg h.2]
      simp only [StaysIn, extends_cons]
      constructor
      · rintro ⟨hreads, hresult⟩
        refine ⟨fun i hi => hreads i ?_, hresult⟩
        simp [hi]
      · rintro ⟨hreads, hresult⟩
        refine ⟨fun i hi => ?_, hresult⟩
        rcases List.mem_append.mp hi with hi | hi
        · have := lt_of_mem_entryReads hi
          lia
        · rcases List.mem_append.mp hi with hi | hi
          · rw [List.mem_singleton] at hi
            omega
          · apply hreads i hi
  | case2 cur h hpos hcut =>
      have hinside : inside view size cur = [] := by
        rw [inside, dif_neg]
        exact fun hall => hcut hall.2.2
      rw [Records, hinside, madtLoop_of_lt (by omega), if_neg h.2, madtLoop_of_le (by omega)]
      simp only [StaysIn, extends_nil]
      constructor
      · rintro ⟨hreads, m, hresult, t, rfl, rfl⟩ htaken
        have hsame : (note view t cur).toMadt = t.toMadt := by
          simpa [Except.map] using hresult
        rcases htaken.bad (by omega) with ⟨i, hi, hout⟩ | hprocessor | hredirect
        · exact absurd (hreads i (List.mem_append_left _ hi)) (not_lt.mpr hout)
        · have hlist := congrArg (fun m => m.processors) hsame
          simp [note, hprocessor] at hlist
        · have hlist := congrArg (fun m => m.redirects) hsame
          simp [note, hredirect] at hlist
      · intro htaken
        obtain ⟨hreads, hsame⟩ := good_of_not_taken (s := s) htaken h.1
        refine ⟨fun i hi => ?_, s.toMadt, by rw [hsame]; rfl, s, rfl, rfl⟩
        rw [List.append_nil] at hi
        rcases List.mem_append.mp hi with hi | hi
        · apply hreads i hi
        · rw [List.mem_singleton] at hi
          omega
  | case3 cur h =>
      by_cases hlt : cur < size
      · apply iff_of_false _ (not_le.mpr hlt)
        rintro ⟨hreads, t, hresult, -⟩
        rw [StaysIn] at hreads
        rw [madtLoop_of_lt hlt] at hreads hresult
        by_cases hlen : view (cur + 1) = 0
        · rw [if_pos hlen] at hresult
          cases hresult
        · rw [if_neg hlen] at hreads
          have := hreads (cur + 1) (by simp)
          exact h ⟨this, hlen⟩
      · apply iff_of_true _ (not_lt.mp hlt)
        have hinside : inside view size cur = [] := by
          rw [inside, dif_neg]
          intro hall
          omega
        rw [Records, hinside, madtLoop_of_le (not_lt.mp hlt)]
        exact ⟨nofun, s.toMadt, rfl, s, rfl, extends_nil.mpr rfl⟩

/-! ### Whole tables -/

variable {size limit : ℕ} {debug : Bool} {this : Bytes} {acpi : Tables}

/-- What is known before the first entry. -/
theorem madtHeader_eq :
  madtHeader view
    = ⟨List.range' HEADER_SIZE 4 ++ [HEADER_SIZE + 4], .ok (start view)⟩
  := rfl

theorem madt_eq :
  madt view = ⟨List.range' 4 4 ++ (List.range' HEADER_SIZE 4 ++ [HEADER_SIZE + 4]
      ++ (madtLoop view (view.dword 4) (start view) (HEADER_SIZE + 8)).events),
    (madtLoop view (view.dword 4) (start view) (HEADER_SIZE + 8)).result.map MadtScan.toMadt⟩
  := by
  rw [madt, readDword, bind_ok, madtHeader_eq, bind_ok]
  generalize madtLoop view (view.dword 4) (start view) (HEADER_SIZE + 8) = x
  obtain ⟨events, result⟩ := x
  cases result with
  | ok s => simp [bind_ok, Except.map]
  | error f => rfl

/-- What the constructor of the MADT has to return: what the entries inside of the table say. -/
def Recorded (view : Bytes) (m : Madt) : Prop :=
  ∃ s : MadtScan, s.toMadt = m ∧
    Extends view (start view) (inside view (view.dword 4) (HEADER_SIZE + 8)) s

theorem madt_iff :
  (StaysIn (view.dword 4) (madt view) ∧ ∃ m, (madt view).result = .ok m ∧ Recorded view m) ↔
    HEADER_SIZE + 4 < view.dword 4 ∧ Tiled view (view.dword 4) (HEADER_SIZE + 8)
  := by
  have hheader : HEADER_SIZE = 36 := rfl
  rw [← records_iff (view.dword 4) (start view), Records, madt_eq]
  simp only [StaysIn, List.mem_append, List.mem_range'_1, List.mem_singleton]
  constructor
  · rintro ⟨hreads, hresult⟩
    exact ⟨hreads _ (.inr (.inl (.inr rfl))), fun i hi => hreads i (.inr (.inr hi)), hresult⟩
  · rintro ⟨hlt, hreads, hresult⟩
    refine ⟨?_, hresult⟩
    rintro i (hi | (hi | rfl) | hi)
    · lia
    · lia
    · apply hlt
    · apply hreads i hi

/-- A structure whose bytes beyond the end of the table are zero. -/
def ZeroBeyond (size n : ℕ) (f : Bytes) : Prop := ∀ k < n, size ≤ HEADER_SIZE + k → f k = 0

/-- What is wanted of a table: an accepted table is read within its size, what is beyond it is zero in
the FADT and the HPET table, and the entries of the MADT inside of it are recorded; of a table that
is not accepted nothing is read beyond its page. -/
structure TableSafe (debug : Bool) (view this : Bytes) (limit : ℕ) (acpi : Tables) : Prop where
  reads : accepts view limit = true → StaysIn (view.dword 4) (parseTable view debug this limit acpi)
  rejected : accepts view limit = false → StaysIn limit (parseTable view debug this limit acpi)
  madt : accepts view limit = true → view.dword 0 = APIC →
    ∃ m, (parseTable view debug this limit acpi).result = .ok { acpi with madt := some m } ∧
      Recorded view m
  fadt : accepts view limit = true → view.dword 0 = FACP →
    ∀ t, (parseTable view debug this limit acpi).result = .ok t →
      ∃ f, t.fadt = some f ∧ ZeroBeyond (view.dword 4) FADT_SIZE f
  hpet : accepts view limit = true → view.dword 0 = HPET →
    ∀ t, (parseTable view debug this limit acpi).result = .ok t →
      ∃ f, t.hpet = some f ∧ ZeroBeyond (view.dword 4) HPET_SIZE f

/-- The constructors need a table that is large enough, and the MADT one that is made of entries. -/
structure Sized (view : Bytes) (acpi : Tables) : Prop where
  madt : view.dword 0 = APIC → HEADER_SIZE + 4 < view.dword 4 ∧
    Tiled view (view.dword 4) (HEADER_SIZE + 8)
  fadt : view.dword 0 = FACP → acpi.fadt.isSome = false → HEADER_SIZE + FADT_SIZE ≤ view.dword 4
  hpet : view.dword 0 = HPET → HEADER_SIZE + HPET_SIZE ≤ view.dword 4

theorem parseTable_of_rejected (h : accepts view limit = false) :
  parseTable view debug this limit acpi = ⟨(validate view limit).events, .ok acpi⟩
  := by
  have hresult := validate_result view limit
  rw [h] at hresult
  rw [parseTable, Logged.bind_of_result hresult]
  simp

theorem parseTable_of_accepted (h : accepts view limit = true) :
  parseTable view debug this limit acpi =
    ⟨(validate view limit).events ++ (List.range' 0 4 ++ (List.range' 4 4 ++ (List.range' 0 4 ++
      (dispatch view debug this acpi (view.dword 0)).events))),
      (dispatch view debug this acpi (view.dword 0)).result⟩
  := by
  have hresult := validate_result view limit
  rw [h] at hresult
  rw [parseTable, Logged.bind_of_result hresult, if_neg (by decide), memcpy, bind_ok, readDword,
    bind_ok, readDword, bind_ok]

/-- An accepted table has a header. -/
theorem header_le (h : accepts view limit = true) :
  HEADER_SIZE ≤ view.dword 4
  := by
  rw [accepts, decide_eq_true_eq] at h
  apply h.2.1

/-- The header of an accepted table is read within the table. -/
theorem staysIn_parseTable (h : accepts view limit = true) :
  StaysIn (view.dword 4) (parseTable view debug this limit acpi) ↔
    StaysIn (view.dword 4) (dispatch view debug this acpi (view.dword 0))
  := by
  have hle := header_le h
  have hheader : HEADER_SIZE = 36 := rfl
  rw [parseTable_of_accepted h]
  simp only [StaysIn, List.mem_append, List.mem_range'_1]
  constructor
  · intro hall i hi
    apply hall i (.inr (.inr (.inr (.inr hi))))
  · rintro hall i (hi | hi | hi | hi | hi)
    · apply (validate_events limit hi).2 h
    · omega
    · omega
    · omega
    · apply hall i hi

/-- What is done with a table that has been constructed reads nothing. -/
theorem staysIn_bind_pure {α β : Type} {x : Reads α} {g : α → β} :
  StaysIn size (x >>= fun a => pure (g a)) ↔ StaysIn size x
  := by
  simp only [StaysIn, Logged.mem_bind, Logged.events_pure, List.not_mem_nil, and_false, exists_false,
    or_false]

theorem result_bind_pure {α β : Type} {x : Reads α} {g : α → β} {b : β} :
  (x >>= fun a => pure (g a)).result = .ok b ↔ ∃ a, x.result = .ok a ∧ g a = b
  := by
  simp only [Logged.result_bind, Logged.result_pure, Except.ok.injEq]

theorem dispatch_apic (h : view.dword 0 = APIC) :
  dispatch view debug this acpi (view.dword 0)
    = (madt view >>= fun m => pure { acpi with madt := some m })
  := by
  rw [h]
  rfl

theorem dispatch_facp (h : view.dword 0 = FACP) (hsome : acpi.fadt.isSome = false) :
  dispatch view debug this acpi (view.dword 0)
    = (fadt view this >>= fun f => pure { acpi with fadt := some f })
  := by
  rw [h, dispatch, if_neg (by decide), if_pos rfl, if_neg (Bool.eq_false_iff.mp hsome)]

theorem dispatch_facp_twice (h : view.dword 0 = FACP) (hsome : acpi.fadt.isSome = true) :
  dispatch view debug this acpi (view.dword 0)
    = Logged.stop (.bugcheck "duplicated FADT @ %p")
  := by
  rw [h, dispatch, if_neg (by decide), if_pos rfl, if_pos hsome]

theorem dispatch_hpet (h : view.dword 0 = HPET) :
  dispatch view debug this acpi (view.dword 0)
    = (hpet view debug this >>= fun f => pure { acpi with hpet := some f })
  := by
  rw [h, dispatch, if_neg (by decide), if_neg (by decide), if_pos rfl]

/-- The reads of the constructors. -/
theorem staysIn_fadt (h : HEADER_SIZE ≤ view.dword 4) :
  StaysIn (view.dword 4) (fadt view this) ↔ HEADER_SIZE + FADT_SIZE ≤ view.dword 4
  := by
  simp only [StaysIn, fadt_events]
  apply copy_inside_iff h (by decide)

theorem staysIn_hpet (h : HEADER_SIZE ≤ view.dword 4) :
  StaysIn (view.dword 4) (hpet view debug this) ↔ HEADER_SIZE + HPET_SIZE ≤ view.dword 4
  := by
  simp only [StaysIn, hpet_events]
  apply copy_inside_iff h (by decide)

/-- Nothing of a structure is beyond a table that holds all of it. -/
theorem zeroBeyond_of_le {n : ℕ} (h : HEADER_SIZE + n ≤ size) (f : Bytes) :
  ZeroBeyond size n f
  := by
  intro k hk hle
  omega

/-- A table that is not accepted is left alone. -/
theorem staysIn_of_rejected (h : accepts view limit = false) :
  StaysIn limit (parseTable view debug this limit acpi)
  := by
  rw [parseTable_of_rejected h]
  intro i hi
  apply (validate_events limit hi).1

/-- If a table is read as it should be, it is large enough for its constructor. -/
theorem TableSafe.sized (h : TableSafe debug view this limit acpi)
    (hacc : accepts view limit = true) :
  Sized view acpi
  := by
  have hle := header_le hacc
  have hreads := (staysIn_parseTable hacc).mp (h.reads hacc)
  constructor
  · intro hname
    obtain ⟨m, hresult, hrecorded⟩ := h.madt hacc hname
    rw [dispatch_apic hname, staysIn_bind_pure] at hreads
    rw [parseTable_of_accepted hacc, dispatch_apic hname] at hresult
    obtain ⟨m', hresult', heq⟩ := result_bind_pure.mp hresult
    have hm : m' = m := by
      simpa using heq
    rw [← madt_iff]
    refine ⟨hreads, m', hresult', ?_⟩
    rw [hm]
    apply hrecorded
  · intro hname hsome
    rw [dispatch_facp hname hsome, staysIn_bind_pure] at hreads
    apply (staysIn_fadt hle).mp hreads
  · intro hname
    rw [dispatch_hpet hname, staysIn_bind_pure] at hreads
    apply (staysIn_hpet hle).mp hreads

/-- A table that is large enough for its constructor is read within its size. -/
theorem Sized.staysIn (h : Sized view acpi) (hle : HEADER_SIZE ≤ view.dword 4) :
  StaysIn (view.dword 4) (dispatch view debug this acpi (view.dword 0))
  := by
  by_cases hapic : view.dword 0 = APIC
  · rw [dispatch_apic hapic, staysIn_bind_pure]
    apply (madt_iff.mpr (h.madt hapic)).1
  by_cases hfacp : view.dword 0 = FACP
  · cases hsome : acpi.fadt.isSome with
    | true =>
        rw [dispatch_facp_twice hfacp hsome]
        nofun
    | false =>
        rw [dispatch_facp hfacp hsome, staysIn_bind_pure]
        apply (staysIn_fadt hle).mpr (h.fadt hfacp hsome)
  by_cases hhpet : view.dword 0 = HPET
  · rw [dispatch_hpet hhpet, staysIn_bind_pure]
    apply (staysIn_hpet hle).mpr (h.hpet hhpet)
  rw [dispatch, if_neg hapic, if_neg hfacp, if_neg hhpet]
  nofun

/-- A table is read as it should be exactly when it is not accepted, or large enough for its
constructor and, if it is the MADT, made of entries. -/
theorem tableSafe_iff (debug : Bool) (mem beyond this : Bytes) (pbase : ℕ) (acpi : Tables) :
  TableSafe debug (tableView mem beyond pbase) this (pageLimit pbase) acpi ↔
    (accepts (tableView mem beyond pbase) (pageLimit pbase) = true →
      Sized (tableView mem beyond pbase) acpi)
  := by
  generalize tableView mem beyond pbase = view
  generalize pageLimit pbase = limit
  constructor
  · intro h hacc
    apply h.sized hacc
  · intro h
    constructor
    · intro hacc
      rw [staysIn_parseTable hacc]
      apply (h hacc).staysIn (header_le hacc)
    · intro hrej
      apply staysIn_of_rejected hrej
    · intro hacc hname
      obtain ⟨-, m, hresult, hrecorded⟩ := madt_iff.mpr ((h hacc).madt hname)
      refine ⟨m, ?_, hrecorded⟩
      rw [parseTable_of_accepted hacc, dispatch_apic hname]
      apply result_bind_pure.mpr ⟨m, hresult, rfl⟩
    · intro hacc hname t ht
      rw [parseTable_of_accepted hacc] at ht
      cases hsome : acpi.fadt.isSome with
      | true =>
          rw [dispatch_facp_twice hname hsome] at ht
          cases ht
      | false =>
          rw [dispatch_facp hname hsome] at ht
          obtain ⟨f, -, rfl⟩ := result_bind_pure.mp ht
          exact ⟨f, rfl, zeroBeyond_of_le ((h hacc).fadt hname hsome) f⟩
    · intro hacc hname t ht
      rw [parseTable_of_accepted hacc, dispatch_hpet hname] at ht
      obtain ⟨f, -, rfl⟩ := result_bind_pure.mp ht
      exact ⟨f, rfl, zeroBeyond_of_le ((h hacc).hpet hname) f⟩

/-! ### A table of the first version -/

/-- A FADT of 116 bytes, as the first version of ACPI has it. -/
def oldFadt : Bytes := fun i =>
  if i = 0 then 0x46 else if i = 1 then 0x41 else if i = 2 then 0x43 else if i = 3 then 0x50
  else if i = 4 then 116 else if i = 9 then 0x72 else 0

/-- The 36 bytes behind a FADT of 116 bytes are taken for fields of it. -/
theorem oldFadt_not_tableSafe :
  ¬ ∀ (debug : Bool) (mem beyond this : Bytes) (pbase : ℕ) (acpi : Tables),
    TableSafe debug (tableView mem beyond pbase) this (pageLimit pbase) acpi
  := by
  intro h
  have hacc : accepts (tableView oldFadt (fun _ => 0) 0) (pageLimit 0) = true := by decide +kernel
  have hsized := (h false oldFadt (fun _ => 0) (fun _ => 0) 0 {}).sized hacc
  exact absurd (hsized.fadt (by decide) rfl) (by decide)

end Acpi

end UOS
