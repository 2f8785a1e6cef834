import Mathlib.Tactic

/-!
# The records of a folder

A folder consists of records of `0x20` bytes. A file has a record of type `0x85`, in which the number
of the records that follow is stored, one of type `0xC0`, and one of type `0xC1` for each part of its
name. A checksum of all of them is in the first one.

`folder_instance::reader::step` of `kernel/filesystem/instance.cpp` collects the records of a file in
a list, which is cleared when a record does not belong to it. The checksum is looked at when the
number of records in the list has reached the number in the first record, and the first record itself
is one of those in the list.
-/

namespace UOS

/-- A record of a folder, by its bytes. -/
abbrev FolderRecord : Type := Fin 0x20 → UInt8

instance FolderRecord.size_neZero : NeZero (0x20 : ℕ) := ⟨by decide⟩

namespace FolderRecord

/-! ### The reader -/

/-- The attribute of a folder. -/
def FOLDER : UInt8 := 0x10

def ALLOW_FILE : UInt8 := 8

def ALLOW_FOLDER : UInt8 := 0x10

def CHECK_HASH : UInt8 := 0x40

/-- The `word` at an offset of a record. -/
def word (r : FolderRecord) (i : Fin 0x20) : ℕ := (r i).toNat + 0x100 * (r (i + 1)).toNat

/-- The number of records that follow the first one, `entrance_size`. -/
def count (r : FolderRecord) : ℕ := (r 1).toNat

/-- Moves the bits of a sum to the right by one, with the last at the front. -/
def turn (sum : ℕ) : ℕ := (if sum % 2 = 1 then 0x8000 else 0) + sum / 2

/-- `reader::checksum` -/
def checksum (ptr : ℕ → UInt8) (limit : ℕ) : ℕ :=
  (List.range limit).foldl (fun sum i =>
    if i = 2 ∨ i = 3 then sum else (turn sum + (ptr i).toNat) % 2 ^ 16) 0

/-- The bytes of a list of records. -/
def bytes (l : List FolderRecord) (i : ℕ) : UInt8 := (l.getD (i / 0x20) fun _ => 0) (Fin.ofNat 0x20 i)

/-- The first record of a list has the checksum of the list. -/
def SumRight (l : List FolderRecord) : Prop :=
  checksum (bytes l) (0x20 * l.length) = (l.headD fun _ => 0).word 2

instance : DecidablePred SumRight := fun _ => inferInstanceAs (Decidable (_ = _))

/-- The kind of a file, by its first record. -/
def fileType (r : FolderRecord) : UInt8 := if r 4 &&& FOLDER ≠ 0 then ALLOW_FOLDER else ALLOW_FILE

/-- What `reader::step` does with a record that is not of type `0`. Returns the list, and whether it
holds a file. -/
def parse (mode : UInt8) (hash : ℕ) (r : FolderRecord) (list : List FolderRecord) : List FolderRecord × Bool :=
  if mode ≠ 0 ∧ 0x80 < r 0 then
    if r 0 = 0x85 then
      if r.count < 2 ∨ r.fileType &&& mode = 0 then ([], false)
      else ([r], false)
    else if r 0 = 0xC0 then
      if list.length ≠ 1 ∨ (mode &&& CHECK_HASH ≠ 0 ∧ hash ≠ r.word 4) then ([], false)
      else (list ++ [r], false)
    else if r 0 = 0xC1 then
      if list.length < 2 then ([], false)
      else
        let list := list ++ [r]
        if list.length < (list.headD fun _ => 0).count then (list, false)
        else if SumRight list then (list, true)
        else ([], false)
    else ([], false)
  else ([], false)

variable {mode : UInt8} {hash : ℕ} {rec : ℕ → FolderRecord} {r : FolderRecord} {l : List FolderRecord}
  {i j m n : ℕ}

/-- A record that begins a list. -/
def Starts (mode : UInt8) (r : FolderRecord) : Prop :=
  r 0 = 0x85 ∧ 2 ≤ r.count ∧ mode ≠ 0 ∧ r.fileType &&& mode ≠ 0

/-- A record that may be the second one. -/
def Seconds (mode : UInt8) (hash : ℕ) (r : FolderRecord) : Prop :=
  r 0 = 0xC0 ∧ (mode &&& CHECK_HASH ≠ 0 → hash = r.word 4)

theorem parse_starts (h : Starts mode r) : parse mode hash r l = ([r], false) := by
  obtain ⟨htype, hcount, hmode, hkind⟩ := h
  rw [parse, if_pos ⟨hmode, by rw [htype]; decide⟩, if_pos htype, if_neg]
  rintro (hlt | hzero)
  · omega
  · apply hkind hzero

theorem parse_seconds (hmode : mode ≠ 0) (h : Seconds mode hash r) :
  parse mode hash r l = if l.length = 1 then (l ++ [r], false) else ([], false)
  := by
  obtain ⟨htype, hhash⟩ := h
  rw [parse, if_pos ⟨hmode, by rw [htype]; decide⟩, if_neg (by rw [htype]; decide), if_pos htype]
  by_cases hone : l.length = 1
  · rw [if_pos hone, if_neg]
    rintro (hlength | ⟨hcheck, hne⟩)
    · apply hlength hone
    · apply hne (hhash hcheck)
  · rw [if_neg hone, if_pos (.inl hone)]

theorem parse_name (hmode : mode ≠ 0) (h : r 0 = 0xC1) :
  parse mode hash r l =
    if l.length < 2 then ([], false)
    else if (l ++ [r]).length < ((l ++ [r]).headD fun _ => 0).count then (l ++ [r], false)
    else if SumRight (l ++ [r]) then (l ++ [r], true)
    else ([], false)
  := by
  rw [parse, if_pos ⟨hmode, by rw [h]; decide⟩, if_neg (by rw [h]; decide),
    if_neg (by rw [h]; decide), if_pos h]

/-- All other records clear the list. -/
theorem parse_other (hstarts : ¬ Starts mode r) (hseconds : ¬ Seconds mode hash r)
    (hname : r 0 ≠ 0xC1) :
  parse mode hash r l = ([], false)
  := by
  rw [parse]
  split_ifs with hin hfile hbad hstream hbad'
  · rfl
  · rw [not_or, not_lt] at hbad
    exact absurd ⟨hfile, hbad.1, hin.1, hbad.2⟩ hstarts
  · rfl
  · rw [not_or, not_and_or, not_not, not_not] at hbad'
    exact absurd ⟨hstream, fun hcheck => not_not.mp (hbad'.2.resolve_left hcheck)⟩ hseconds
  · rfl
  · rfl

/-- Nothing is collected when no kind is allowed. -/
theorem parse_none : parse 0 hash r l = ([], false) := by
  rw [parse, if_neg]
  rintro ⟨hne, -⟩
  apply hne rfl

/-! ### A sequence of records -/

/-- So many records from one on. -/
def slice (rec : ℕ → FolderRecord) (i n : ℕ) : List FolderRecord := (List.range n).map fun t => rec (i + t)

@[simp]
theorem slice_length : (slice rec i n).length = n := by
  rw [slice, List.length_map, List.length_range]

theorem slice_succ : slice rec i (n + 1) = slice rec i n ++ [rec (i + n)] := by
  rw [slice, List.range_succ, List.map_append, slice, List.map_singleton]

theorem slice_headD (hn : 0 < n) (d : FolderRecord) : (slice rec i n).headD d = rec i := by
  obtain ⟨k, rfl⟩ : ∃ k, n = k + 1 := ⟨n - 1, by lia⟩
  rw [slice, List.range_succ_eq_map, List.map_cons, List.headD_cons, Nat.add_zero]

theorem slice_getD {t : ℕ} (ht : t < n) (d : FolderRecord) : (slice rec i n).getD t d = rec (i + t) := by
  rw [slice, List.getD_eq_getElem?_getD, List.getElem?_map, List.getElem?_range ht]
  rfl

theorem slice_one : slice rec i 1 = [rec i] := rfl

/-- The list before a record is read. -/
def listBefore (mode : UInt8) (hash : ℕ) (rec : ℕ → FolderRecord) : ℕ → List FolderRecord
  | 0 => []
  | i + 1 => (parse mode hash (rec i) (listBefore mode hash rec i)).1

/-- A file is found at a record. -/
def found (mode : UInt8) (hash : ℕ) (rec : ℕ → FolderRecord) (i : ℕ) : Bool :=
  (parse mode hash (rec i) (listBefore mode hash rec i)).2

/-- The list holds so many records from one on after the last of them has been read. -/
structure Run (mode : UInt8) (hash : ℕ) (rec : ℕ → FolderRecord) (i n : ℕ) : Prop where
  pos : 0 < n
  starts : Starts mode (rec i)
  seconds : 1 < n → Seconds mode hash (rec (i + 1))
  names : ∀ t, 2 ≤ t → t < n → rec (i + t) 0 = 0xC1
  sums : ∀ m, 3 ≤ m → (rec i).count ≤ m → m ≤ n → SumRight (slice rec i m)

namespace Run

theorem one (h : Starts mode (rec i)) : Run mode hash rec i 1 :=
  ⟨Nat.one_pos, h, fun hlt => by omega, fun t ht hlt => by omega, fun m hm _ hle => by omega⟩

/-- The part of a run. -/
theorem part (h : Run mode hash rec i n) (hm : 0 < m) (hle : m ≤ n) : Run mode hash rec i m :=
  ⟨hm, h.starts, fun hlt => h.seconds (by lia), fun t ht hlt => h.names t ht (by lia),
    fun k hk hcount hlt => h.sums k hk hcount (by omega)⟩

/-- A run becomes longer by a second record. -/
theorem two (h : Run mode hash rec i 1) (hseconds : Seconds mode hash (rec (i + 1))) :
  Run mode hash rec i 2
  := ⟨Nat.two_pos, h.starts, fun _ => hseconds, fun t ht hlt => by omega,
    fun m hm _ hle => by omega⟩

/-- A run becomes longer by a part of a name. -/
theorem succ (h : Run mode hash rec i n) (hn : 2 ≤ n) (hname : rec (i + n) 0 = 0xC1)
    (hsum : (rec i).count ≤ n + 1 → SumRight (slice rec i (n + 1))) :
  Run mode hash rec i (n + 1)
  := by
  refine ⟨Nat.succ_pos n, h.starts, fun _ => h.seconds (by omega), ?_, ?_⟩
  · intro t ht hlt
    rcases Nat.lt_succ_iff_lt_or_eq.mp hlt with hlt | rfl
    · apply h.names t ht hlt
    · exact hname
  · intro m hm hcount hle
    rcases hle.lt_or_eq with hlt | rfl
    · apply h.sums m hm hcount (by omega)
    · apply hsum hcount

/-- The records of a run are not its first one again. -/
theorem type_ne (h : Run mode hash rec i n) {t : ℕ} (ht : 0 < t) (hlt : t < n) :
  rec (i + t) 0 ≠ 0x85
  := by
  rcases (Nat.succ_le_of_lt ht).lt_or_eq with hmore | rfl
  · rw [h.names t hmore hlt]
    decide
  · rw [(h.seconds hlt).1]
    decide

/-- Runs that end at the same record begin at the same one. -/
theorem unique (h : Run mode hash rec i n) (h' : Run mode hash rec j m) (heq : i + n = j + m) :
  i = j ∧ n = m
  := by
  have hn := h.pos
  have hm := h'.pos
  rcases Nat.lt_trichotomy i j with hlt | rfl | hlt
  · have hne := h.type_ne (t := j - i) (by lia) (by lia)
    rw [Nat.add_sub_cancel' hlt.le, h'.starts.1] at hne
    exact absurd rfl hne
  · exact ⟨rfl, by omega⟩
  · have hne := h'.type_ne (t := i - j) (by lia) (by lia)
    rw [Nat.add_sub_cancel' hlt.le, h.starts.1] at hne
    exact absurd rfl hne

theorem mode_ne (h : Run mode hash rec i n) : mode ≠ 0 := h.starts.2.2.1

end Run

/-- No run ends before a record. -/
def NoRun (mode : UInt8) (hash : ℕ) (rec : ℕ → FolderRecord) (e : ℕ) : Prop :=
  ∀ i n, i + n = e → ¬ Run mode hash rec i n

/-- The list after a record is that of the run that ends there, if there is one, and a file is found
when the number of records has reached that in the first one. -/
theorem parse_eq (hbefore : (∃ i n, i + n = j ∧ Run mode hash rec i n ∧ l = slice rec i n) ∨
      (NoRun mode hash rec j ∧ l = [])) :
  (∃ i n, i + n = j + 1 ∧ Run mode hash rec i n ∧
    parse mode hash (rec j) l = (slice rec i n, decide (3 ≤ n ∧ (rec i).count ≤ n))) ∨
  (NoRun mode hash rec (j + 1) ∧ parse mode hash (rec j) l = ([], false))
  := by
  by_cases hmode : mode = 0
  · rw [hmode]
    exact .inr ⟨fun i n _ h => absurd rfl h.mode_ne, parse_none⟩
  by_cases hstarts : Starts mode (rec j)
  · exact .inl ⟨j, 1, rfl, Run.one hstarts, parse_starts hstarts⟩
  -- a run that ends after the record is longer than one that ends before it
  have hlong : ∀ i n, i + n = j + 1 → Run mode hash rec i n →
      ∃ m, n = m + 1 ∧ i + m = j ∧ Run mode hash rec i m := by
    intro i n heq h
    have hpos := h.pos
    have hne : n ≠ 1 := by
      rintro rfl
      obtain rfl : i = j := by omega
      apply hstarts h.starts
    exact ⟨n - 1, by lia, by lia, h.part (by lia) (by lia)⟩
  rcases hbefore with ⟨i, n, rfl, h, rfl⟩ | ⟨hno, rfl⟩
  · have hsame : ∀ i' n', i' + n' = i + n + 1 → Run mode hash rec i' n' →
        Run mode hash rec i (n + 1) := by
      intro i' n' heq h'
      obtain ⟨m, rfl, heq', hm⟩ := hlong i' n' heq h'
      obtain ⟨rfl, rfl⟩ := hm.unique h heq'
      exact h'
    have hpos := h.pos
    by_cases hseconds : Seconds mode hash (rec (i + n))
    · rw [parse_seconds hmode hseconds, slice_length]
      by_cases hone : n = 1
      · subst hone
        rw [if_pos rfl]
        exact .inl ⟨i, 2, rfl, h.two hseconds, by rw [slice_succ]; rfl⟩
      · rw [if_neg hone]
        refine .inr ⟨?_, rfl⟩
        intro i' n' heq h'
        have hname := (hsame i' n' heq h').names n (by lia) (Nat.lt_succ_self n)
        rw [hseconds.1] at hname
        exact absurd hname (by decide)
    by_cases hname : rec (i + n) 0 = 0xC1
    · rw [parse_name hmode hname, slice_length, ← slice_succ, slice_length,
        slice_headD (Nat.succ_pos n)]
      by_cases hone : n < 2
      · rw [if_pos hone]
        refine .inr ⟨?_, rfl⟩
        intro i' n' heq h'
        obtain rfl : n = 1 := by omega
        apply hseconds ((hsame i' _ heq h').seconds (by decide))
      rw [if_neg hone]
      by_cases hmore : n + 1 < (rec i).count
      · rw [if_pos hmore]
        refine .inl ⟨i, n + 1, rfl, h.succ (by lia) hname (fun hle => by lia), ?_⟩
        rw [decide_eq_false]
        omega
      rw [if_neg hmore]
      by_cases hsum : SumRight (slice rec i (n + 1))
      · rw [if_pos hsum]
        refine .inl ⟨i, n + 1, rfl, h.succ (by omega) hname fun _ => hsum, ?_⟩
        rw [decide_eq_true]
        omega
      · rw [if_neg hsum]
        refine .inr ⟨?_, rfl⟩
        intro i' n' heq h'
        apply hsum ((hsame i' n' heq h').sums (n + 1) (by lia) (by lia) le_rfl)
    · rw [parse_other hstarts hseconds hname]
      refine .inr ⟨?_, rfl⟩
      intro i' n' heq h'
      have hrun := hsame i' n' heq h'
      by_cases hone : n = 1
      · subst hone
        apply hseconds (hrun.seconds (by decide))
      · apply hname (hrun.names n (by lia) (Nat.lt_succ_self n))
  · have hnone : NoRun mode hash rec (j + 1) := by
      intro i n heq h
      obtain ⟨m, -, heq', hm⟩ := hlong i n heq h
      apply hno i m heq' hm
    refine .inr ⟨hnone, ?_⟩
    by_cases hseconds : Seconds mode hash (rec j)
    · rw [parse_seconds hmode hseconds, if_neg (by decide)]
    by_cases hname : rec j 0 = 0xC1
    · rw [parse_name hmode hname, if_pos (by decide)]
    · apply parse_other hstarts hseconds hname

/-- The list before a record is the run that ends there. -/
theorem listBefore_eq (mode : UInt8) (hash : ℕ) (rec : ℕ → FolderRecord) (j : ℕ) :
  (∃ i n, i + n = j ∧ Run mode hash rec i n ∧ listBefore mode hash rec j = slice rec i n) ∨
  (NoRun mode hash rec j ∧ listBefore mode hash rec j = [])
  := by
  induction j with
  | zero =>
      right
      refine ⟨?_, rfl⟩
      intro i n heq h
      have := h.pos
      omega
  | succ j ih =>
      rw [listBefore]
      rcases parse_eq ih with ⟨i, n, heq, h, hparse⟩ | ⟨hno, hparse⟩
      · exact .inl ⟨i, n, heq, h, by rw [hparse]⟩
      · exact .inr ⟨hno, by rw [hparse]⟩

/-- A file is found exactly where a run ends that has reached the number of records in the first
one, and the list then holds the records of the run. -/
theorem found_iff :
  found mode hash rec j = true ↔
    ∃ i n, i + n = j + 1 ∧ Run mode hash rec i n ∧ 3 ≤ n ∧ (rec i).count ≤ n
  := by
  rw [found]
  rcases parse_eq (listBefore_eq mode hash rec j) with
    ⟨i, n, heq, h, hparse⟩ | ⟨hno, hparse⟩
  · rw [hparse]
    simp only [decide_eq_true_eq]
    constructor
    · intro hreached
      exact ⟨i, n, heq, h, hreached⟩
    · rintro ⟨i', n', heq', h', hreached⟩
      obtain ⟨rfl, rfl⟩ := h.unique h' (heq.trans heq'.symm)
      exact hreached
  · rw [hparse]
    constructor
    · intro heq
      cases heq
    · rintro ⟨i, n, heq, h, -⟩
      exact absurd h (hno i n heq)

/-- The list after the last record of a run. -/
theorem listBefore_of_run (h : Run mode hash rec i n) :
  listBefore mode hash rec (i + n) = slice rec i n
  := by
  rcases listBefore_eq mode hash rec (i + n) with
    ⟨i', n', heq, h', hlist⟩ | ⟨hno, -⟩
  · obtain ⟨rfl, rfl⟩ := h'.unique h heq
    exact hlist
  · exact absurd h (hno i n rfl)

end FolderRecord

end UOS
