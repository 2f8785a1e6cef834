import Cofuos.Boot.Sectors

/-!
# The boot region

`make_boot` of `tools/make_boot/make_boot.cpp` writes the boot code and the loader into the boot
region of an exFAT volume on a disk image. The boot code of `boot/boot.asm` reads the loader from
there, and the kernel checks the region when it mounts the volume, in `exfat::thread_init` of
`kernel/filesystem/exfat.cpp`.

The loader is cut into slices of `0x1FC` bytes, one for each sector, and every sector ends in four
bytes that the boot code looks for. It reads the sectors so that each overwrites these bytes of the
one before. The boot code takes the position of the volume from its header, whereas `make_boot` takes
it from the partition table.
-/

namespace UOS

namespace Boot

/-- The bytes of a slice of the loader. -/
def SLICE : ℕ := 0x1FC

/-- The four bytes at the end of a sector of the loader, `0xAA550000`. -/
def mark : List UInt8 := [0, 0, 0x55, 0xAA]

/-! ### Locating the volume -/

/-- `check_exfat` -/
def checkExfat (s : Bytes) : Bool :=
  s.word 0x1FE == 0xAA55 &&
    (List.range 8).map (fun i => s (3 + i)) == [0x45, 0x58, 0x46, 0x41, 0x54, 0x20, 0x20, 0x20] &&
    (List.range 0x35).all (fun i => s (11 + i) == 0) && s.word 0x68 == 0x100 && s 0x6C == 9

/-- The offsets of the entries of the partition table. -/
def mbrEntries : List ℕ := [0x1BE, 0x1CE, 0x1DE, 0x1EE]

/-- The search of the partition table for the active partition, if it can be an exFAT volume. The
search ends at an entry that is neither active nor inactive. -/
def mbrBase (s : Bytes) : List ℕ → ℕ
  | [] => 0
  | ptr :: rest =>
      if s ptr = 0x80 ∧ s (ptr + 4) = 7 then s.dword (ptr + 8)
      else if s ptr = 0x80 ∨ s ptr = 0 then mbrBase s rest
      else 0

namespace Disk

/-- The loop of `make_boot` that locates the volume. Returns its first sector, and where that
lies. -/
def locate (d : Disk) : Option (ℕ × Bytes) := do
  let s ← d.read 0
  if checkExfat s then
    some (0, s)
  else if s 0x1FE = 0x55 ∧ s 0x1FF = 0xAA ∧ mbrBase s mbrEntries ≠ 0 then do
    let base := mbrBase s mbrEntries
    let s ← d.read base
    if checkExfat s then some (base, s) else none
  else none

end Disk

/-! ### Writing the boot region -/

/-- The loop that reads sectors of the boot region after the first one into the buffer. -/
def readRegion (d : Disk) (base : ℕ) : ℕ → Bytes → Option Bytes
  | 0, buffer => some buffer
  | i + 1, buffer => do
      let buffer ← readRegion d base i buffer
      let sector ← d.read (base + (i + 1))
      some (buffer.load (SECTOR_SIZE * (i + 1)) sector)

/-- The loop that stores the loader into the sectors from `i` on, of which `n` are left. -/
def storeSlices : ℕ → ℕ → List UInt8 → Bytes → Option Bytes
  | 0, _, _, _ => none
  | n + 1, i, rest, buffer =>
      let slice := rest.take SLICE
      let buffer := (buffer.store (SECTOR_SIZE * i) slice).store (SECTOR_SIZE * i + SLICE) mark
      if slice.length ≠ SLICE then
        some (buffer.store (SECTOR_SIZE * i + slice.length)
          (List.replicate (SLICE - slice.length) 0))
      else storeSlices n (i + 1) (rest.drop SLICE) buffer

/-- The bytes of the first sector that the checksum leaves out. -/
def skipped (i : ℕ) : Bool := i = 0x6A ∨ i = 0x6B ∨ i = 0x70

/-- One byte is added to the checksum. -/
def addByte (sum : UInt32) (b : UInt8) : UInt32 :=
  ((if sum &&& 1 ≠ 0 then (0x80000000 : UInt32) else 0) ||| (sum >>> 1)) + b.toUInt32

/-- The checksum as `make_boot` calculates it. -/
def checksum (buffer : Bytes) : UInt32 :=
  (List.range (SECTOR_SIZE * 0x0B)).foldl
    (fun sum i => if skipped i then sum else addByte sum (buffer i)) 0

/-- The last sector of the region is filled with the checksum. -/
def storeChecksum (buffer : Bytes) (sum : UInt32) : Bytes :=
  (List.range 0x80).foldl
    (fun buffer i => buffer.store (SECTOR_SIZE * 0x0B + 4 * i) (dwordBytes sum)) buffer

/-- The loop that writes the sectors of the region. -/
def writeRegion (base : ℕ) (buffer : Bytes) : ℕ → Disk → Option Disk
  | 0, d => some d
  | i + 1, d => do
      let d ← writeRegion base buffer i d
      d.write (base + i) fun a => buffer (SECTOR_SIZE * i + a)

/-- `main` of `make_boot`, with the disk and with the contents of the files that it is given. There
is no result if it fails. -/
def makeBoot (d : Disk) (boot : List UInt8) (loader : Option (List UInt8)) : Option Disk := do
  let (base, sector) ← d.locate
  let buffer ← readRegion d base 0x0B sector
  let code := boot.take 0x188
  if code.length = 0 ∨ code.length > 0x186 then none
  else do
    let buffer := buffer.store 0x78 code
    let buffer ← match loader with
      | none => some buffer
      | some loader => storeSlices 8 1 loader buffer
    writeRegion base (storeChecksum buffer (checksum buffer)) 0x0C d

/-! ### Booting -/

/-- `LOADER_BASE` -/
def LOADER_BASE : ℕ := 0x2000

/-- The loop `load_slice` of the boot code, of which `n` rounds are left. A sector after `lba` is
read to `addr`. The boot code gives up if the sector cannot be read or does not have the mark. -/
def loadSlices (d : Disk) : ℕ → ℕ → ℕ → Bytes → Option Bytes
  | 0, _, _, mem => some mem
  | n + 1, lba, addr, mem => do
      let lba := (lba + 1) % 2 ^ 64
      let sector ← d.read lba
      let mem := mem.load addr sector
      if mem.word (addr + 0x1FC) = 0 ∧ mem.word (addr + 0x1FE) = 0xAA55 then
        loadSlices d n lba (addr + SLICE) mem
      else none

/-- The boot code from `lba_pass` on, when the sector that contains it has been loaded. It takes
the position of the volume from the header of the sector. -/
def boot (d : Disk) (sector mem : Bytes) : Option Bytes :=
  loadSlices d 8 (sector.qword 0x40) LOADER_BASE mem

/-! ### Mounting -/

/-- One sector in the checksum loop of `thread_init`. -/
def sectorSum (sec : ℕ) (buffer : Bytes) (sum : UInt32) : UInt32 :=
  (List.range SECTOR_SIZE).foldl
    (fun sum i => if sec = 0 ∧ skipped i then sum else addByte sum (buffer i)) sum

/-- The checksum loop of `thread_init`, up to a sector. Returns the checksum of the sectors before
and the sector. -/
def mountSum (d : Disk) (base : ℕ) : ℕ → Option (UInt32 × Bytes)
  | 0 => do
      let buffer ← d.read base
      some (0, buffer)
  | sec + 1 => do
      let (sum, buffer) ← mountSum d base sec
      let next ← d.read (base + (sec + 1))
      some (sectorSum sec buffer sum, next)

/-- Whether `thread_init` accepts the boot region. There is no result if a sector cannot be read. -/
def mountCheck (d : Disk) (base : ℕ) : Option Bool := do
  let (sum, buffer) ← mountSum d base 11
  some (sum.toNat = buffer.dword 0)

variable {d d' : Disk} {base n lba addr : ℕ} {s buffer buffer' mem mem' : Bytes}
  {code loader : List UInt8}

/-! ### The buffer -/

theorem mbrBase_lt (s : Bytes) (l : List ℕ) : mbrBase s l < 2 ^ 32 := by
  induction l with
  | nil => exact Nat.two_pow_pos 32
  | cons ptr rest ih =>
      rw [mbrBase]
      split_ifs
      · apply Bytes.dword_lt
      · exact ih
      · exact Nat.two_pow_pos 32

/-- The sector that has been located. -/
theorem Disk.locate_spec (h : d.locate = some (base, s)) : d.read base = some s ∧ base < 2 ^ 32 := by
  rw [Disk.locate] at h
  obtain ⟨s₀, hs₀, h⟩ := Option.bind_eq_some_iff.mp h
  split_ifs at h with hzero hmbr
  · cases h
    exact ⟨hs₀, Nat.two_pow_pos 32⟩
  · obtain ⟨s₁, hs₁, h⟩ := Option.bind_eq_some_iff.mp h
    split_ifs at h
    cases h
    exact ⟨hs₁, mbrBase_lt _ _⟩

/-- The region is read as it is on the disk. -/
theorem readRegion_spec (hs : d.read base = some s) (hlt : base + n < d.limit) :
  ∃ buffer, readRegion d base n s = some buffer ∧
    ∀ a < SECTOR_SIZE * (n + 1), buffer a = d.byte (base * SECTOR_SIZE + a)
  := by
  induction n with
  | zero =>
      obtain ⟨-, rfl⟩ := Disk.read_eq_some hs
      exact ⟨_, rfl, fun a _ => rfl⟩
  | succ n ih =>
      obtain ⟨buffer, heq, hbuffer⟩ := ih (by omega)
      refine ⟨buffer.load (SECTOR_SIZE * (n + 1))
        fun i => d.byte ((base + (n + 1)) * SECTOR_SIZE + i), ?_, ?_⟩
      · simp only [readRegion, heq, Option.bind_eq_bind, Option.bind_some, Disk.read_of_lt hlt]
      intro a ha
      rw [Bytes.load]
      rw [SECTOR_SIZE] at *
      split_ifs with hin
      · exact congrArg d.byte (by omega)
      · apply hbuffer
        omega

/-- The region is only read if the disk has all of it. -/
theorem readRegion_lt (h : readRegion d base (n + 1) s = some buffer) : base + (n + 1) < d.limit := by
  obtain ⟨buffer', -, h⟩ := Option.bind_eq_some_iff.mp h
  obtain ⟨sector, hsector, -⟩ := Option.bind_eq_some_iff.mp h
  exact (Disk.read_eq_some hsector).1

/-- The region is written as it is in the buffer. -/
theorem writeRegion_spec (buffer : Bytes) (hle : base + n ≤ d.limit) :
  ∃ d', writeRegion base buffer n d = some d' ∧ d'.limit = d.limit ∧
    ∀ a, d'.byte a = if base * SECTOR_SIZE ≤ a ∧ a < (base + n) * SECTOR_SIZE then
      buffer (a - base * SECTOR_SIZE) else d.byte a
  := by
  induction n with
  | zero =>
      refine ⟨d, rfl, rfl, ?_⟩
      intro a
      rw [Nat.add_zero, if_neg (by omega)]
  | succ n ih =>
      obtain ⟨d₁, heq, hlimit, hbyte⟩ := ih (by omega)
      refine ⟨{ d₁ with
        byte := d₁.byte.load ((base + n) * SECTOR_SIZE) fun a => buffer (SECTOR_SIZE * n + a) },
        ?_, hlimit, ?_⟩
      · simp only [writeRegion, heq, Option.bind_eq_bind, Option.bind_some, Disk.write]
        rw [if_pos (by omega)]
      intro a
      simp only [Bytes.load, hbyte]
      rw [SECTOR_SIZE]
      by_cases hlast : (base + n) * 0x200 ≤ a ∧ a < (base + n) * 0x200 + 0x200
      · obtain ⟨hge, hlt⟩ := hlast
        have hindex : 0x200 * n + (a - (base + n) * 0x200) = a - base * 0x200 := by omega
        rw [if_pos ⟨hge, hlt⟩, hindex]
        exact (if_pos ⟨by linarith, by linarith⟩).symm
      · rw [if_neg hlast]
        apply if_congr _ rfl rfl
        constructor
        · rintro ⟨hge, hlt⟩
          exact ⟨hge, by linarith⟩
        · rintro ⟨hge, hlt⟩
          refine ⟨hge, ?_⟩
          by_contra hout
          exact hlast ⟨by linarith, by linarith⟩

/-! ### The slices of the loader -/

/-- The bytes at the end of a sector. -/
def Ends (s : Bytes) (off : ℕ) : Prop := ∀ j (hj : j < 4), s (off + SLICE + j) = mark[j]

theorem Ends.congr {off : ℕ} (h : Ends s off)
    (heq : ∀ a, off + SLICE ≤ a → a < off + SECTOR_SIZE → mem a = s a) :
  Ends mem off
  := by
  intro j hj
  rw [heq _ (by omega) (by rw [SLICE, SECTOR_SIZE]; omega)]
  exact h j hj

/-- The loader is stored slice by slice, and every sector that gets a slice gets the mark. -/
theorem storeSlices_spec {i : ℕ} (h : storeSlices n i loader buffer = some buffer') :
  (∀ k (hk : k < loader.length),
      buffer' (SECTOR_SIZE * (i + k / SLICE) + k % SLICE) = loader[k]) ∧
    (∀ sec, i ≤ sec → sec < i + n → Ends buffer (SECTOR_SIZE * sec) →
      Ends buffer' (SECTOR_SIZE * sec)) ∧
    ∀ a, (a < SECTOR_SIZE * i ∨ SECTOR_SIZE * (i + n) ≤ a) → buffer' a = buffer a
  := by
  induction n generalizing i loader buffer with
  | zero => cases h
  | succ n ih =>
      obtain ⟨first, hfirst⟩ : ∃ first, (buffer.store (SECTOR_SIZE * i) (loader.take SLICE)).store
          (SECTOR_SIZE * i + SLICE) mark = first := ⟨_, rfl⟩
      have hlength : (loader.take SLICE).length = min SLICE loader.length := List.length_take
      have hmark : mark.length = 4 := rfl
      -- the sector after the slice and the mark have been stored
      have hslice : ∀ k (hk : k < loader.length), k < SLICE →
          first (SECTOR_SIZE * i + k) = loader[k] := by
        intro k hk hlt
        rw [← hfirst, Bytes.store_of_lt (by omega),
          Bytes.store_of_mem (by rw [hlength]; omega), List.getElem_take]
      have hends : Ends first (SECTOR_SIZE * i) := by
        intro j hj
        rw [← hfirst, Bytes.store_of_mem (by rw [hmark]; exact hj)]
        rfl
      have hothers : ∀ a, (a < SECTOR_SIZE * i ∨ SECTOR_SIZE * (i + 1) ≤ a) →
          first a = buffer a := by
        intro a ha
        rw [← hfirst]
        rw [SECTOR_SIZE, SLICE] at *
        rcases ha with ha | ha
        · rw [Bytes.store_of_lt (by omega), Bytes.store_of_lt ha]
        · rw [Bytes.store_of_le (by omega), Bytes.store_of_le (by omega)]
      have hkeep : ∀ sec, sec ≠ i → Ends buffer (SECTOR_SIZE * sec) →
          Ends first (SECTOR_SIZE * sec) := by
        intro sec hne hold
        apply hold.congr
        intro a hge hlt
        apply hothers
        rw [SECTOR_SIZE] at *
        omega
      rw [storeSlices] at h
      simp only [hfirst] at h
      by_cases hfull : (loader.take SLICE).length = SLICE
      · rw [if_neg (not_not.mpr hfull)] at h
        obtain ⟨hloader, hmarks, hrest⟩ := ih h
        refine ⟨?_, ?_, ?_⟩
        · intro k hk
          by_cases hlt : k < SLICE
          · rw [Nat.div_eq_of_lt hlt, Nat.mod_eq_of_lt hlt, Nat.add_zero,
              hrest _ (.inl (by rw [SECTOR_SIZE, SLICE] at *; omega)), hslice k hk hlt]
          · have hk' : k - SLICE < (loader.drop SLICE).length := by
              rw [List.length_drop]
              omega
            have hnext := hloader (k - SLICE) hk'
            rw [List.getElem_drop] at hnext
            have hdiv : i + 1 + (k - SLICE) / SLICE = i + k / SLICE := by
              rw [Nat.div_eq_sub_div (by decide) (Nat.le_of_not_lt hlt)]
              omega
            rw [hdiv, ← Nat.mod_eq_sub_mod (Nat.le_of_not_lt hlt)] at hnext
            rw [hnext]
            simp only [Nat.add_sub_cancel' (Nat.le_of_not_lt hlt)]
        · intro sec hge hlt hold
          by_cases heq : sec = i
          · rw [heq]
            apply hends.congr
            intro a hge' hlt'
            apply hrest
            rw [SECTOR_SIZE] at *
            omega
          · exact hmarks sec (by omega) (by omega) (hkeep sec heq hold)
        · intro a ha
          rw [SECTOR_SIZE] at *
          rw [hrest a (by omega), hothers a (by omega)]
      · rw [if_pos hfull] at h
        cases h
        have hlen : (loader.take SLICE).length = loader.length := by omega
        have hzero : (List.replicate (SLICE - loader.length) (0 : UInt8)).length =
            SLICE - loader.length := List.length_replicate
        rw [hlen]
        refine ⟨?_, ?_, ?_⟩
        · intro k hk
          rw [Nat.div_eq_of_lt (by omega), Nat.mod_eq_of_lt (by omega), Nat.add_zero,
            Bytes.store_of_lt (by omega), hslice k hk (by omega)]
        · intro sec hge hlt hold
          have hfirst' : Ends first (SECTOR_SIZE * sec) := by
            by_cases heq : sec = i
            · rw [heq]
              exact hends
            · exact hkeep sec heq hold
          apply hfirst'.congr
          intro a hge' hlt'
          rw [SECTOR_SIZE] at *
          apply Bytes.store_of_le
          rw [SLICE] at *
          omega
        · intro a ha
          rw [SECTOR_SIZE, SLICE] at *
          rcases ha with ha | ha
          · rw [Bytes.store_of_lt (by omega), hothers a (.inl ha)]
          · rw [Bytes.store_of_le (by omega), hothers a (.inr (by omega))]

/-! ### The checksum -/

/-- The checksum of the first sectors of a buffer. -/
def regionSum (buffer : Bytes) (n : ℕ) : UInt32 :=
  (List.range (SECTOR_SIZE * n)).foldl
    (fun sum i => if skipped i then sum else addByte sum (buffer i)) 0

theorem skipped_iff {i : ℕ} : skipped i = true ↔ i = 0x6A ∨ i = 0x6B ∨ i = 0x70 := decide_eq_true_iff

/-- The bytes that are left out lie in the first sector. -/
theorem skipped_add {i : ℕ} (hi : i < SECTOR_SIZE) :
  skipped (SECTOR_SIZE * n + i) = true ↔ n = 0 ∧ skipped i = true
  := by
  rw [skipped_iff, skipped_iff]
  rw [SECTOR_SIZE] at hi ⊢
  omega

/-- The loop over all bytes goes on with a sector as the loop over sectors does. -/
theorem regionSum_succ (buffer : Bytes) (n : ℕ) :
  regionSum buffer (n + 1) =
    sectorSum n (fun i => buffer (SECTOR_SIZE * n + i)) (regionSum buffer n)
  := by
  rw [regionSum, Nat.mul_succ, List.range_add, List.foldl_append, List.foldl_map, sectorSum,
    ← regionSum]
  apply List.foldl_ext
  intro sum i hi
  exact if_congr (skipped_add (List.mem_range.mp hi)) rfl rfl

/-- The bytes that are left out do not matter. -/
theorem regionSum_congr
    (h : ∀ a < SECTOR_SIZE * n, skipped a = false → buffer' a = buffer a) :
  regionSum buffer' n = regionSum buffer n
  := by
  apply List.foldl_ext
  intro sum a ha
  rw [List.mem_range] at ha
  cases hskip : skipped a with
  | true => rw [if_pos rfl, if_pos rfl]
  | false => rw [h a ha hskip]

/-- The checksum loop of `thread_init` calculates what `make_boot` does. -/
theorem mountSum_eq (hlt : base + n < d.limit) :
  mountSum d base n = some (regionSum (fun a => d.byte (base * SECTOR_SIZE + a)) n,
    fun i => d.byte ((base + n) * SECTOR_SIZE + i))
  := by
  induction n with
  | zero =>
      rw [mountSum, Disk.read_of_lt (by omega)]
      rfl
  | succ n ih =>
      simp only [mountSum, ih (by omega), Option.bind_eq_bind, Option.bind_some,
        Disk.read_of_lt hlt, regionSum_succ, Option.some.injEq, Prod.mk.injEq, and_true]
      have hsector : (fun i => d.byte ((base + n) * SECTOR_SIZE + i)) =
          fun i => d.byte (base * SECTOR_SIZE + (SECTOR_SIZE * n + i)) := by
        funext i
        exact congrArg d.byte (by ring)
      rw [hsector]

/-- The last sector of the region holds the checksum, over and over. -/
theorem storeChecksum_spec (sum : UInt32) (a : ℕ) :
  storeChecksum buffer sum a =
    if SECTOR_SIZE * 0x0B ≤ a ∧ a < SECTOR_SIZE * 0x0C then
      ((dwordBytes sum)[a % 4]?).getD 0
    else buffer a
  := by
  have hloop : ∀ n, ∀ a, (List.range n).foldl
      (fun buffer i => Bytes.store buffer (SECTOR_SIZE * 0x0B + 4 * i) (dwordBytes sum)) buffer a =
        if SECTOR_SIZE * 0x0B ≤ a ∧ a < SECTOR_SIZE * 0x0B + 4 * n then
          ((dwordBytes sum)[a % 4]?).getD 0
        else buffer a := by
    intro n
    induction n with
    | zero =>
        intro a
        rw [if_neg (by omega)]
        rfl
    | succ n ih =>
        intro a
        rw [List.range_succ, List.foldl_append, List.foldl_cons, List.foldl_nil, Bytes.store, ih]
        have hlength : (dwordBytes sum).length = 4 := rfl
        rw [SECTOR_SIZE]
        rcases Nat.lt_or_ge a (0x200 * 0x0B + 4 * n) with hbefore | hfrom
        · rw [if_neg (by omega)]
          exact if_congr (by omega) rfl rfl
        · rw [if_pos hfrom, if_neg (c := _ ∧ _) (by omega)]
          by_cases hlast : a < 0x200 * 0x0B + 4 * n + 4
          · have hindex : a - (0x200 * 0x0B + 4 * n) = a % 4 := by omega
            have hmod : a % 4 < (dwordBytes sum).length := by
              rw [hlength]
              omega
            rw [if_pos (by omega), hindex, List.getElem?_eq_getElem hmod, Option.getD_some,
              Option.getD_some]
          · rw [if_neg (by omega), List.getElem?_eq_none (by omega), Option.getD_none]
  rw [storeChecksum, hloop, SECTOR_SIZE]

/-! ### What is written -/

/-- Storing the loader only fails when it is too large. -/
theorem storeSlices_isSome (i : ℕ) (buffer : Bytes) :
  (storeSlices n i loader buffer).isSome ↔ loader.length < n * SLICE
  := by
  induction n generalizing i loader buffer with
  | zero =>
      rw [storeSlices, Nat.zero_mul]
      exact ⟨fun h => absurd h Bool.false_ne_true, fun h => absurd h (Nat.not_lt_zero _)⟩
  | succ n ih =>
      have hlength : (loader.take SLICE).length = min SLICE loader.length := List.length_take
      have hpos : 0 < SLICE := by decide
      rw [storeSlices, Nat.succ_mul]
      split_ifs with hfull
      · rw [Option.isSome_some]
        exact ⟨fun _ => by omega, fun _ => rfl⟩
      · rw [ih, List.length_drop]
        omega

/-- What `make_boot` leaves on the disk, with the volume at `base`. -/
structure Written (d d' : Disk) (base : ℕ) (loader : List UInt8) : Prop where
  limit : d'.limit = d.limit
  room : base + 0x0C ≤ d.limit
  loader : ∀ k (hk : k < loader.length),
    d'.byte ((base + 1 + k / SLICE) * SECTOR_SIZE + k % SLICE) = loader[k]
  ends : ∀ i < 8, Ends d.byte ((base + 1 + i) * SECTOR_SIZE) →
    Ends d'.byte ((base + 1 + i) * SECTOR_SIZE)
  others : ∀ a, a < base * SECTOR_SIZE + 0x78 ∨
    ((base + 9) * SECTOR_SIZE ≤ a ∧ a < (base + 0x0B) * SECTOR_SIZE) ∨
    (base + 0x0C) * SECTOR_SIZE ≤ a → d'.byte a = d.byte a
  sum : ∀ i < SECTOR_SIZE, d'.byte ((base + 0x0B) * SECTOR_SIZE + i) =
    ((dwordBytes (regionSum (fun a => d'.byte (base * SECTOR_SIZE + a)) 0x0B))[i % 4]?).getD 0

theorem makeBoot_spec (hbase : d.locate = some (base, s))
    (h : makeBoot d code (some loader) = some d') :
  Written d d' base loader
  := by
  simp only [makeBoot, hbase, Option.bind_eq_bind, Option.bind_some] at h
  obtain ⟨buf₀, hread, h⟩ := Option.bind_eq_some_iff.mp h
  split_ifs at h with hcode
  obtain ⟨buf₂, hslices, h⟩ := Option.bind_eq_some_iff.mp h
  have hlen : (code.take 0x188).length ≤ 0x186 := by omega
  have hlt := readRegion_lt (n := 10) hread
  obtain ⟨buffer, heq, hbuf₀⟩ := readRegion_spec (Disk.locate_spec hbase).1 hlt
  rw [hread] at heq
  cases heq
  obtain ⟨hloader, hends, hrest⟩ := storeSlices_spec hslices
  obtain ⟨sum, hsum⟩ : ∃ sum, checksum buf₂ = sum := ⟨_, rfl⟩
  obtain ⟨d₁, hwrite, hlimit, hbyte⟩ := writeRegion_spec (storeChecksum buf₂ sum)
    (show base + 0x0C ≤ d.limit by omega)
  rw [hsum, hwrite] at h
  cases h
  -- the region as it is in the buffer
  have hregion : ∀ a < SECTOR_SIZE * 0x0B, d'.byte (base * SECTOR_SIZE + a) = buf₂ a := by
    intro a ha
    rw [SECTOR_SIZE] at ha
    rw [hbyte, if_pos, Nat.add_sub_cancel_left, storeChecksum_spec, if_neg]
    · rw [SECTOR_SIZE]
      omega
    · rw [SECTOR_SIZE]
      omega
  have hold : ∀ a, a < 0x78 ∨ (SECTOR_SIZE * 9 ≤ a ∧ a < SECTOR_SIZE * 0x0B) →
      buf₂ a = d.byte (base * SECTOR_SIZE + a) := by
    intro a ha
    rw [SECTOR_SIZE] at ha
    rw [hrest a (by rw [SECTOR_SIZE]; omega)]
    rcases ha with ha | ha
    · rw [Bytes.store_of_lt ha, hbuf₀ a (by rw [SECTOR_SIZE]; omega)]
    · rw [Bytes.store_of_le (by omega), hbuf₀ a (by rw [SECTOR_SIZE]; omega)]
  have hlength : loader.length < 8 * SLICE := by
    rw [← storeSlices_isSome 1 (buf₀.store 0x78 (code.take 0x188)), hslices]
    rfl
  have hindex : ∀ i a, (base + i) * SECTOR_SIZE + a = base * SECTOR_SIZE + (SECTOR_SIZE * i + a) :=
    fun i a => by ring
  refine ⟨hlimit, by omega, ?_, ?_, ?_, ?_⟩
  · intro k hk
    have hsec : k / SLICE < 8 := Nat.div_lt_of_lt_mul (by omega)
    have hoff : k % SLICE < 0x1FC := Nat.mod_lt _ (by decide)
    rw [Nat.add_assoc, hindex, hregion, hloader k hk]
    rw [SECTOR_SIZE]
    omega
  · intro i hi hend
    have hold₁ : Ends (buf₀.store 0x78 (code.take 0x188)) (SECTOR_SIZE * (1 + i)) := by
      intro j hj
      have hj' := hend j hj
      rw [Nat.add_assoc, Nat.add_assoc base, hindex, ← Nat.add_assoc (SECTOR_SIZE * _)] at hj'
      rw [Bytes.store_of_le (by rw [SECTOR_SIZE]; omega), hbuf₀, hj']
      rw [SECTOR_SIZE, SLICE]
      omega
    have hnew := hends (1 + i) (by omega) (by omega) hold₁
    intro j hj
    have hj' := hnew j hj
    rw [Nat.add_assoc, Nat.add_assoc base, hindex, ← Nat.add_assoc (SECTOR_SIZE * _), hregion, hj']
    rw [SECTOR_SIZE, SLICE]
    omega
  · intro a ha
    rw [SECTOR_SIZE] at ha
    by_cases hin : base * 0x200 ≤ a ∧ a < (base + 0x0C) * 0x200
    · obtain ⟨i, rfl⟩ := Nat.exists_eq_add_of_le hin.1
      have hi := hregion i (by rw [SECTOR_SIZE]; omega)
      have hi' := hold i (by rw [SECTOR_SIZE]; omega)
      rw [hi'] at hi
      exact hi
    · rw [hbyte, if_neg]
      rwa [SECTOR_SIZE]
  · intro i hi
    have hsame : regionSum (fun a => d'.byte (base * SECTOR_SIZE + a)) 0x0B = sum := by
      rw [← hsum, checksum, ← regionSum]
      apply regionSum_congr
      intro a ha _
      exact hregion a ha
    rw [SECTOR_SIZE] at hi
    have hmod : (SECTOR_SIZE * 0x0B + i) % 4 = i % 4 := by
      rw [SECTOR_SIZE]
      omega
    rw [hsame, hindex, hbyte, if_pos, Nat.add_sub_cancel_left, storeChecksum_spec, if_pos, hmod]
    · rw [SECTOR_SIZE]
      omega
    · rw [SECTOR_SIZE]
      omega

/-- Nothing but the size of the files makes `make_boot` fail when the disk has the region. -/
theorem makeBoot_isSome (code : List UInt8) (hbase : d.locate = some (base, s)) (hroom : base + 0x0C ≤ d.limit)
    (hpos : 1 ≤ code.length) (hcode : code.length ≤ 0x186) (hloader : loader.length < 8 * SLICE) :
  ∃ d', makeBoot d code (some loader) = some d'
  := by
  obtain ⟨buf₀, hread, -⟩ := readRegion_spec (n := 0x0B) (Disk.locate_spec hbase).1 (by omega)
  have htake : code.take 0x188 = code := List.take_of_length_le (by omega)
  obtain ⟨buf₂, hslices⟩ := Option.isSome_iff_exists.mp
    ((storeSlices_isSome 1 (buf₀.store 0x78 code)).mpr hloader)
  obtain ⟨d', hwrite, -⟩ := writeRegion_spec (storeChecksum buf₂ (checksum buf₂)) hroom
  refine ⟨d', ?_⟩
  simp only [makeBoot, hbase, hread, htake, Option.bind_eq_bind, Option.bind_some]
  rw [if_neg (by omega), hslices]
  exact hwrite

/-! ### What the boot code loads -/

/-- The loads do not change what lies before. -/
theorem loadSlices_below (h : loadSlices d n lba addr mem = some mem') {a : ℕ} (ha : a < addr) :
  mem' a = mem a
  := by
  induction n generalizing lba addr mem with
  | zero =>
      cases h
      rfl
  | succ n ih =>
      obtain ⟨sector, hsector, h⟩ := Option.bind_eq_some_iff.mp h
      dsimp only at h
      split_ifs at h
      rw [ih h (by omega), Bytes.load, if_neg (by omega)]

/-- The first byte that is loaded comes from the sector after `lba`, which has the mark. -/
theorem loadSlices_first (h : loadSlices d (n + 1) lba addr mem = some mem') :
  (lba + 1) % 2 ^ 64 < d.limit ∧ mem' addr = d.byte ((lba + 1) % 2 ^ 64 * SECTOR_SIZE) ∧
    d.byte ((lba + 1) % 2 ^ 64 * SECTOR_SIZE + SLICE) = 0
  := by
  obtain ⟨sector, hsector, h⟩ := Option.bind_eq_some_iff.mp h
  obtain ⟨hlt, rfl⟩ := Disk.read_eq_some hsector
  dsimp only at h
  split_ifs at h with hmark
  refine ⟨hlt, ?_, ?_⟩
  · rw [loadSlices_below h (by rw [SLICE]; omega), Bytes.load, if_pos (by rw [SECTOR_SIZE]; omega),
      Nat.sub_self, Nat.add_zero]
  · have hzero := hmark.1
    rw [Bytes.word, Bytes.load, if_pos (by rw [SECTOR_SIZE]; omega), Nat.add_sub_cancel_left]
      at hzero
    rw [← UInt8.toNat_inj]
    exact Nat.eq_zero_of_add_eq_zero_right hzero

/-- When the sectors have the mark, their slices are loaded one after the other. -/
theorem loadSlices_spec (lba addr : ℕ) (mem : Bytes) (hlba : lba + n < 2 ^ 64) (hlimit : lba + n < d.limit)
    (hends : ∀ i < n, Ends d.byte ((lba + 1 + i) * SECTOR_SIZE)) :
  ∃ mem', loadSlices d n lba addr mem = some mem' ∧
    ∀ i < n, ∀ j < SLICE, mem' (addr + SLICE * i + j) = d.byte ((lba + 1 + i) * SECTOR_SIZE + j)
  := by
  induction n generalizing lba addr mem with
  | zero => exact ⟨mem, rfl, fun i hi => absurd hi (Nat.not_lt_zero i)⟩
  | succ n ih =>
      obtain ⟨first, hfirst⟩ : ∃ first, mem.load addr
          (fun i => d.byte ((lba + 1) * SECTOR_SIZE + i)) = first := ⟨_, rfl⟩
      have hload : ∀ j < SECTOR_SIZE, first (addr + j) = d.byte ((lba + 1) * SECTOR_SIZE + j) := by
        intro j hj
        rw [← hfirst, Bytes.load, if_pos (by omega), Nat.add_sub_cancel_left]
      have hmark : first.word (addr + 0x1FC) = 0 ∧ first.word (addr + 0x1FE) = 0xAA55 := by
        have hend := hends 0 (by omega)
        have h₀ := (hload 0x1FC (by decide)).trans (hend 0 (by decide))
        have h₁ := (hload 0x1FD (by decide)).trans (hend 1 (by decide))
        have h₂ := (hload 0x1FE (by decide)).trans (hend 2 (by decide))
        have h₃ := (hload 0x1FF (by decide)).trans (hend 3 (by decide))
        rw [Bytes.word, Bytes.word, Nat.add_assoc, Nat.add_assoc, h₀, h₁, h₂, h₃]
        decide
      obtain ⟨mem', heq, hmem'⟩ := ih (lba + 1) (addr + SLICE) first
        (by omega) (by omega) (by
          intro i hi
          have hend := hends (i + 1) (by omega)
          rwa [show lba + 1 + (i + 1) = lba + 1 + 1 + i by omega] at hend)
      refine ⟨mem', ?_, ?_⟩
      · rw [loadSlices]
        simp only [Nat.mod_eq_of_lt (show lba + 1 < 2 ^ 64 by omega),
          Disk.read_of_lt (show lba + 1 < d.limit by omega), Option.bind_eq_bind, Option.bind_some,
          hfirst]
        rw [if_pos hmark, heq]
      · intro i hi j hj
        cases i with
        | zero =>
            rw [Nat.mul_zero, Nat.add_zero, Nat.add_zero, loadSlices_below heq (by omega)]
            exact hload j (lt_trans hj (by decide))
        | succ i =>
            have hnext := hmem' i (by omega) j hj
            rw [show lba + 1 + (i + 1) = lba + 1 + 1 + i by omega, ← hnext]
            congr 1
            ring

/-! ### The round trip -/

/-- The boot code of the volume accepts the sectors and leaves the loader at `LOADER_BASE`. -/
def Boots (d : Disk) (base : ℕ) (loader : List UInt8) : Prop :=
  ∃ sector, d.read base = some sector ∧ ∀ mem, ∃ mem', boot d sector mem = some mem' ∧
    ∀ k (hk : k < loader.length), mem' (LOADER_BASE + k) = loader[k]

/-- The kernel accepts the boot region, also after the bytes have changed that the checksum leaves
out. -/
def Mounts (d : Disk) (base : ℕ) : Prop :=
  ∀ d' : Disk, d'.limit = d.limit →
    (∀ a, (∀ i, skipped i = true → a ≠ base * SECTOR_SIZE + i) → d'.byte a = d.byte a) →
    mountCheck d' base = some true

/-- The kernel accepts what `make_boot` has written. -/
theorem Written.mounts (h : Written d d' base loader) : Mounts d' base := by
  intro d'' hlimit hbyte
  have hroom := h.room
  have hlt : base + 0x0B < d''.limit := by
    rw [hlimit, h.limit]
    omega
  have hsum : regionSum (fun a => d''.byte (base * SECTOR_SIZE + a)) 0x0B =
      regionSum (fun a => d'.byte (base * SECTOR_SIZE + a)) 0x0B := by
    apply regionSum_congr
    intro a _ hskip
    apply hbyte
    intro i hi heq
    rw [Nat.add_left_cancel heq, hi] at hskip
    cases hskip
  have hlast : ∀ j (hj : j < 4), d''.byte ((base + 0x0B) * SECTOR_SIZE + (0 + j)) =
      (dwordBytes (regionSum (fun a => d'.byte (base * SECTOR_SIZE + a)) 0x0B))[j] := by
    intro j hj
    have hsum' := h.sum (0 + j) (by rw [SECTOR_SIZE]; omega)
    rw [hbyte, hsum', Nat.zero_add, Nat.mod_eq_of_lt hj, List.getElem?_eq_getElem hj,
      Option.getD_some]
    intro i hi
    rw [skipped_iff] at hi
    rw [SECTOR_SIZE]
    omega
  have hdword : Bytes.dword (fun i => d''.byte ((base + 0x0B) * SECTOR_SIZE + i)) 0 =
      (regionSum (fun a => d'.byte (base * SECTOR_SIZE + a)) 0x0B).toNat := dword_dwordBytes hlast
  simp only [mountCheck, mountSum_eq hlt, Option.bind_eq_bind, Option.bind_some, hsum, hdword,
    decide_true]

/-- The header keeps its position of the volume. -/
theorem Written.header (h : Written d d' base loader) :
  Bytes.qword (fun i => d'.byte (base * SECTOR_SIZE + i)) 0x40 =
    Bytes.qword (fun i => d.byte (base * SECTOR_SIZE + i)) 0x40
  := by
  apply Bytes.qword_congr
  intro j hj
  exact h.others (base * SECTOR_SIZE + (0x40 + j)) (.inl (Nat.add_lt_add_left (by omega) _))

/-- The boot code reads what `make_boot` has written when the header has the position of the
volume. -/
theorem Written.boots (h : Written d d' base loader) (hlt : base < 2 ^ 32)
    (hloader : loader.length < 8 * SLICE)
    (hends : ∀ i < 8, Ends d.byte ((base + 1 + i) * SECTOR_SIZE))
    (hheader : Bytes.qword (fun i => d.byte (base * SECTOR_SIZE + i)) 0x40 = base) :
  Boots d' base loader
  := by
  have hroom := h.room
  have hlimit := h.limit
  refine ⟨_, Disk.read_of_lt (by omega), ?_⟩
  intro mem
  obtain ⟨mem', heq, hmem'⟩ := loadSlices_spec base LOADER_BASE mem
    (show base + 8 < 2 ^ 64 by omega) (show base + 8 < d'.limit by omega)
    (fun i hi => h.ends i hi (hends i hi))
  refine ⟨mem', ?_, ?_⟩
  · rw [boot, h.header, hheader, heq]
  · intro k hk
    have hload := hmem' (k / SLICE) (Nat.div_lt_of_lt_mul (by omega)) (k % SLICE)
      (Nat.mod_lt _ (by decide))
    rw [Nat.add_assoc, Nat.div_add_mod] at hload
    rw [hload]
    exact h.loader k hk

/-- A loader whose slices are told apart by their first byte. -/
def numbered (x : ℕ) : List UInt8 :=
  (List.range (7 * SLICE + 1)).map fun k => UInt8.ofNat (k / SLICE + x)

theorem numbered_length (x : ℕ) : (numbered x).length = 7 * SLICE + 1 := by
  rw [numbered, List.length_map, List.length_range]

theorem numbered_get (x : ℕ) {k : ℕ} (hk : k < (numbered x).length) :
  (numbered x)[k] = UInt8.ofNat (k / SLICE + x)
  := by
  simp only [numbered, List.getElem_map, List.getElem_range]

/-- A sector that starts as the first slice does and has the mark, without being the first sector of
the loader, is one that `make_boot` has not written, or it is the sector of the checksum. -/
theorem Written.elsewhere {x : ℕ} (h : Written d d' base (numbered x))
    (hne : lba ≠ base + 1) (hfirst : d'.byte (lba * SECTOR_SIZE) = UInt8.ofNat x)
    (hmark : d'.byte (lba * SECTOR_SIZE + SLICE) = 0) :
  (lba ≠ base + 0x0B ∧ d.byte (lba * SECTOR_SIZE) = UInt8.ofNat x) ∨
    (lba = base + 0x0B ∧ UInt8.ofNat x = 0)
  := by
  by_cases hsum : lba = base + 0x0B
  · right
    refine ⟨hsum, ?_⟩
    have hzero := h.sum 0 (by decide)
    have hlast := h.sum SLICE (by decide)
    rw [← hsum] at hzero hlast
    rw [Nat.add_zero, hfirst] at hzero
    rw [hmark] at hlast
    exact hzero.trans hlast.symm
  left
  refine ⟨hsum, ?_⟩
  by_cases hslice : base + 2 ≤ lba ∧ lba ≤ base + 8
  · -- the sector of another slice
    exfalso
    obtain ⟨i, hi⟩ := Nat.exists_eq_add_of_le (show base + 1 ≤ lba by omega)
    have hpos : 0 < SLICE := by decide
    have hk : i * SLICE < (numbered x).length := by
      rw [numbered_length, SLICE]
      omega
    have hloader := h.loader (i * SLICE) hk
    rw [Nat.mul_div_cancel i hpos, Nat.mul_mod_left, Nat.add_zero, ← hi, hfirst, numbered_get,
      Nat.mul_div_cancel i hpos] at hloader
    have htoNat := congrArg UInt8.toNat hloader
    rw [UInt8.toNat_ofNat', UInt8.toNat_ofNat'] at htoNat
    omega
  · rw [← hfirst]
    refine (h.others (lba * SECTOR_SIZE) ?_).symm
    have hpos : 0 < SECTOR_SIZE := by decide
    rcases (show lba ≤ base ∨ (base + 9 ≤ lba ∧ lba < base + 0x0B) ∨ base + 0x0C ≤ lba by omega)
      with hle | ⟨hge, hlt⟩ | hge
    · exact .inl (Nat.lt_add_right_iff_pos.mpr (by decide) |>.trans_le' (Nat.mul_le_mul_right _ hle))
    · exact .inr (.inl ⟨Nat.mul_le_mul_right _ hge, Nat.mul_lt_mul_of_pos_right hlt hpos⟩)
    · exact .inr (.inr (Nat.mul_le_mul_right _ hge))

/-- If every loader that fits is loaded, the header has the position of the volume. -/
theorem header_of_boots (hbase : d.locate = some (base, s)) (hroom : base + 0x0C ≤ d.limit)
    (hall : ∀ code loader d', 1 ≤ code.length → code.length ≤ 0x186 → loader.length < 8 * SLICE →
      makeBoot d code (some loader) = some d' → Boots d' base loader) :
  s.qword 0x40 = base
  := by
  obtain ⟨hread, hlt⟩ := Disk.locate_spec hbase
  obtain ⟨-, rfl⟩ := Disk.read_eq_some hread
  by_contra hheader
  obtain ⟨lba, hlba⟩ : ∃ lba,
    (Bytes.qword (fun i => d.byte (base * SECTOR_SIZE + i)) 0x40 + 1) % 2 ^ 64 = lba := ⟨_, rfl⟩
  have hlba_ne : lba ≠ base + 1 := by
    have hq := Bytes.qword_lt (s := fun i => d.byte (base * SECTOR_SIZE + i)) (i := 0x40)
    omega
  -- two loaders that differ in their first byte
  have hboth : ∀ x, (lba ≠ base + 0x0B ∧ d.byte (lba * SECTOR_SIZE) = UInt8.ofNat x) ∨
      (lba = base + 0x0B ∧ UInt8.ofNat x = 0) := by
    intro x
    have hlength : (numbered x).length < 8 * SLICE := by
      rw [numbered_length]
      decide
    obtain ⟨d', hd'⟩ := makeBoot_isSome [0] hbase hroom (by decide) (by decide) hlength
    have hwritten := makeBoot_spec hbase hd'
    obtain ⟨sector, hsector, hboot⟩ := hall [0] (numbered x) d' (by decide) (by decide) hlength hd'
    obtain ⟨-, rfl⟩ := Disk.read_eq_some hsector
    obtain ⟨mem', heq, hmem'⟩ := hboot fun _ => 0
    rw [boot, hwritten.header] at heq
    obtain ⟨-, hfirst, hmark⟩ := loadSlices_first heq
    rw [hlba] at hfirst hmark
    have hzero := hmem' 0 (by rw [numbered_length]; omega)
    rw [Nat.add_zero, hfirst, numbered_get, Nat.zero_div, Nat.zero_add] at hzero
    exact hwritten.elsewhere hlba_ne hzero hmark
  rcases hboth 1 with ⟨hne, hone⟩ | ⟨-, hone⟩
  · rcases hboth 0 with ⟨-, hzero⟩ | ⟨heq, -⟩
    · rw [hone] at hzero
      exact absurd hzero (by decide)
    · exact hne heq
  · exact absurd hone (by decide)

/-- For a disk with a volume whose sectors end in the mark, the boot code loads the loader that
`make_boot` has written, whatever it is, and the kernel accepts the boot region, exactly if the header
of the volume has the position at which `make_boot` has found it, or the disk ends before the
region does, in which case `make_boot` fails. -/
theorem boot_region_iff (hbase : d.locate = some (base, s))
    (hends : ∀ i < 8, Ends d.byte ((base + 1 + i) * SECTOR_SIZE)) :
  (∀ code loader d', 1 ≤ code.length → code.length ≤ 0x186 → loader.length < 8 * SLICE →
      makeBoot d code (some loader) = some d' → Boots d' base loader ∧ Mounts d' base) ↔
    s.qword 0x40 = base ∨ d.limit < base + 0x0C
  := by
  constructor
  · intro hall
    rcases Nat.lt_or_ge d.limit (base + 0x0C) with hsmall | hroom
    · exact .inr hsmall
    · left
      apply header_of_boots hbase hroom
      intro code loader d' hpos hcode hloader hmake
      exact (hall code loader d' hpos hcode hloader hmake).1
  · obtain ⟨hread, hlt⟩ := Disk.locate_spec hbase
    obtain ⟨-, rfl⟩ := Disk.read_eq_some hread
    intro hor code loader d' hpos hcode hloader hmake
    have hwritten := makeBoot_spec hbase hmake
    refine ⟨?_, hwritten.mounts⟩
    rcases hor with hheader | hsmall
    · exact hwritten.boots hlt hloader hends hheader
    · exact absurd hwritten.room (by omega)

/-- A disk of 64 sectors with a volume at `0x10`, where `header` is the position that the volume has
in its header. -/
def volume (header : UInt8) : Disk :=
  { limit := 0x40
    byte := fun a =>
      let i := a % SECTOR_SIZE
      if i = 0x1FE then 0x55
      else if i = 0x1FF then 0xAA
      else if a / SECTOR_SIZE = 0 then
        ([(0x1BE, 0x80), (0x1C2, 7), (0x1C6, 0x10)].lookup i).getD 0
      else if a / SECTOR_SIZE = 0x10 then
        ([(3, 0x45), (4, 0x58), (5, 0x46), (6, 0x41), (7, 0x54), (8, 0x20), (9, 0x20), (10, 0x20),
          (0x40, header), (0x69, 1), (0x6C, 9)].lookup i).getD 0
      else 0 }

/-- The volume is located. -/
theorem locate_volume {header : UInt8} (h : header = 0 ∨ header = 0x10) :
  (volume header).locate = some (0x10, fun i => (volume header).byte (0x10 * SECTOR_SIZE + i))
  := by
  obtain ⟨s, hs⟩ : ∃ s : ℕ → Bytes, ∀ lba, s lba = fun i =>
    (volume header).byte (lba * SECTOR_SIZE + i) := ⟨_, fun _ => rfl⟩
  have hread : ∀ lba < 0x40, (volume header).read lba = some (s lba) := by
    intro lba hlt
    rw [hs]
    exact Disk.read_of_lt hlt
  have hfirst : checkExfat (s 0) = false := by
    rw [hs]
    rcases h with rfl | rfl
    · decide +kernel
    · decide +kernel
  have hentry : mbrBase (s 0) mbrEntries = 0x10 := by
    rw [hs]
    rfl
  have hsignature : s 0 0x1FE = 0x55 ∧ s 0 0x1FF = 0xAA := by
    rw [hs]
    exact ⟨rfl, rfl⟩
  have hvolume : checkExfat (s 0x10) = true := by
    rw [hs]
    rcases h with rfl | rfl
    · decide +kernel
    · decide +kernel
  rw [Disk.locate, hread 0 (by decide), ← hs 0x10]
  simp only [Option.bind_eq_bind, Option.bind_some, hfirst, hentry, hsignature,
    hread 0x10 (by decide), hvolume]
  rfl

theorem ends_volume (header : UInt8) {i : ℕ} (hi : i < 8) :
  Ends (volume header).byte ((0x10 + 1 + i) * SECTOR_SIZE)
  := by
  intro j hj
  interval_cases i <;> interval_cases j <;> rfl

/-- A volume whose header has its position. -/
theorem boot_region_iff_volume :
  (∃ s, (volume 0x10).locate = some (0x10, s)) ∧
    ∀ code loader d', 1 ≤ code.length → code.length ≤ 0x186 → loader.length < 8 * SLICE →
      makeBoot (volume 0x10) code (some loader) = some d' → Boots d' 0x10 loader ∧ Mounts d' 0x10
  := by
  refine ⟨⟨_, locate_volume (.inr rfl)⟩, ?_⟩
  exact (boot_region_iff (locate_volume (.inr rfl)) (fun _ hi => ends_volume 0x10 hi)).mpr (.inl rfl)

/-- A volume that has been formatted as if it started at the beginning of the disk, and has been
put into a partition: not every loader is loaded from it. -/
theorem header_misplaced :
  (∃ s, (volume 0).locate = some (0x10, s)) ∧
    (∀ i < 8, Ends (volume 0).byte ((0x10 + 1 + i) * SECTOR_SIZE)) ∧
    ¬ ∀ code loader d', 1 ≤ code.length → code.length ≤ 0x186 → loader.length < 8 * SLICE →
      makeBoot (volume 0) code (some loader) = some d' → Boots d' 0x10 loader ∧ Mounts d' 0x10
  := by
  refine ⟨⟨_, locate_volume (.inl rfl)⟩, fun _ hi => ends_volume 0 hi, ?_⟩
  intro hall
  have hheader := header_of_boots (locate_volume (.inl rfl)) (by decide)
    (fun code loader d' hpos hcode hloader hmake =>
      (hall code loader d' hpos hcode hloader hmake).1)
  exact absurd hheader (by decide)

end Boot

end UOS
