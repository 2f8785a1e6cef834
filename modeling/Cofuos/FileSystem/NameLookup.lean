import Cofuos.FileSystem.Enumeration
import Cofuos.FileSystem.Letters
import Cofuos.FileSystem.OneInstance
import Cofuos.Util.HashSet

/-!
# Finding names by their hashes

A name is looked up in two places by its hash. The table of a folder is a `hash_set` of
`instance_wrapper`, whose hash of an instance is the one that has been read from the disk, and
`reader::step` leaves out files with another hash when `CHECK_HASH` is set. In both places the hash of
the spelling of the caller is taken by `exfat::name_hash`.

Names that are equal have the same hash. So nothing is missed whose hash on the disk has been taken by
this function from a name that is equal.
-/

namespace UOS

open Exfat (Name nameHash nameEqual SameLetter)

/-! ### Hashes that are stored -/

/-- A hash has been taken from a name that is equal to a spelling. -/
def TakenFrom (hash : ℕ) (str : Name) : Prop :=
  ∃ name, nameEqual name str = true ∧ hash = (nameHash name).toNat

theorem takenFrom_iff {hash : ℕ} {str : Name} : TakenFrom hash str ↔ hash = (nameHash str).toNat := by
  constructor
  · rintro ⟨name, heq, rfl⟩
    rw [Exfat.nameHash_of_nameEqual heq]
  · intro heq
    exact ⟨str, Exfat.nameEqual_refl str, heq⟩

/-! ### The table of a folder -/

/-- What `instance_wrapper` looks at of an instance. -/
structure Wrapped where
  name : Name
  nameHash : BitVec 16
  deriving DecidableEq, Repr

/-- `instance_wrapper::hash` and `instance_wrapper::equal` -/
def instanceWrapper : Hashing Wrapped Name where
  hash obj := obj.nameHash.toNat
  hashKey str := (nameHash str).toNat
  equal ins str := nameEqual ins.name str

namespace HashedSet

/-- Every element with a hash that has been taken from an equal name is found by every spelling of its
name, or another element that has the name. -/
def NeverMisses (debug : Bool) (s : HashedSet Wrapped Name) : Prop :=
  ∀ e ∈ s.table.entries.map Prod.snd, ∀ str, TakenFrom e.payload.nameHash.toNat str →
    nameEqual e.payload.name str = true →
    ∃ e' ∈ s.table.entries.map Prod.snd, s.find debug str = .ok (s.position e') ∧
      s.position e' ≠ s.end ∧ nameEqual e'.payload.name str = true ∧
      ((∀ other ∈ s.table.entries.map Prod.snd, nameEqual other.payload.name str = true →
        other = e) → e' = e)

theorem Holds.neverMisses {s : HashedSet Wrapped Name} {b : Bag Wrapped Name} (h : s.Holds b)
    (debug : Bool) (hobj : b.obj = instanceWrapper) :
  s.NeverMisses debug
  := by
  intro e he str htaken hname
  rw [takenFrom_iff] at htaken
  have hfind := h.find_stored debug str
  rw [hobj] at hfind
  cases hfirst : b.elems.find? fun e' =>
      instanceWrapper.hash e'.payload = instanceWrapper.hashKey str &&
        instanceWrapper.equal e'.payload str with
  | none =>
      have hnot := List.find?_eq_none.mp hfirst e (h.perm_elems.mem_iff.mp he)
      rw [Bool.and_eq_true, decide_eq_true_eq] at hnot
      exact absurd ⟨htaken, hname⟩ hnot
  | some e' =>
      rw [hfirst] at hfind
      have hmem := h.perm_elems.mem_iff.mpr (List.mem_of_find?_eq_some hfirst)
      have hequal := List.find?_some hfirst
      rw [Bool.and_eq_true] at hequal
      refine ⟨e', hmem, hfind, ?_, hequal.2, fun honly => honly e' hmem hequal.2⟩
      intro hend
      cases congrArg Iterator.chain hend

/-- Nothing is missed in a table that has been used in any way. -/
theorem neverMisses_of_run {debug : Bool} {ops : List (Op Unit Wrapped)}
    {w : Unit → HashedSet Wrapped Name}
    (halong : Along debug (fun w op => op.Legal w) (fun _ => construct 0x10 instanceWrapper) ops)
    (hrun : run debug (fun _ => construct 0x10 instanceWrapper) ops = .ok w) :
  (w ()).NeverMisses debug
  := by
  have h := holds_of_run_small (fun _ => holds_construct (by decide))
    (fun _ => small_construct _ (by decide)) halong hrun
  apply (h ()).neverMisses debug
  apply Bag.run_obj (P := (· = instanceWrapper))
  intro i
  rfl

end HashedSet

/-! ### The records of a folder -/

namespace FolderRecord

variable {mode : UInt8} {hash hash' : ℕ} {rec : ℕ → FolderRecord} {r : FolderRecord} {i n : ℕ}

theorem and_or_left (x y z : UInt8) : x &&& (y ||| z) = x &&& y ||| x &&& z :=
  UInt8.toBitVec_inj.mp BitVec.and_or_distrib_left

/-- The bit of the filter is not that of a kind of files. -/
theorem fileType_check (mode : UInt8) (r : FolderRecord) :
  r.fileType &&& (mode ||| CHECK_HASH) = r.fileType &&& (mode &&& ~~~CHECK_HASH)
  := by
  have hset : r.fileType &&& CHECK_HASH = 0 ∧ r.fileType &&& ~~~CHECK_HASH = r.fileType := by
    rw [fileType]
    split_ifs
    · decide
    · decide
  rw [and_or_left, hset.1, UInt8.or_zero, UInt8.and_comm mode, ← UInt8.and_assoc, hset.2]

/-- The filter does not look at the first record of a file. -/
theorem starts_check_iff : Starts (mode ||| CHECK_HASH) r ↔ Starts (mode &&& ~~~CHECK_HASH) r := by
  have hne : ∀ mode : UInt8, r.fileType &&& mode ≠ 0 → mode ≠ 0 := by
    rintro _ hkind rfl
    apply hkind UInt8.and_zero
  rw [Starts, Starts, fileType_check]
  constructor
  · rintro ⟨htype, hcount, -, hkind⟩
    exact ⟨htype, hcount, hne _ hkind, hkind⟩
  · rintro ⟨htype, hcount, -, hkind⟩
    refine ⟨htype, hcount, hne _ ?_, hkind⟩
    rw [fileType_check]
    exact hkind

theorem seconds_check_iff : Seconds (mode ||| CHECK_HASH) hash r ↔ r 0 = 0xC0 ∧ hash = r.word 4 := by
  have hset : (mode ||| CHECK_HASH) &&& CHECK_HASH ≠ 0 := by
    intro hzero
    rw [UInt8.and_comm, and_or_left, UInt8.or_eq_zero_iff] at hzero
    exact absurd hzero.2 (by decide)
  rw [Seconds, imp_iff_right hset]

theorem seconds_uncheck_iff : Seconds (mode &&& ~~~CHECK_HASH) hash r ↔ r 0 = 0xC0 := by
  have hclear : mode &&& ~~~CHECK_HASH &&& CHECK_HASH = 0 := by
    rw [UInt8.and_assoc, show ~~~CHECK_HASH &&& CHECK_HASH = 0 by decide, UInt8.and_zero]
  rw [Seconds]
  exact and_iff_left fun hne => absurd hclear hne

/-- The filter leaves the runs whose second record has the hash. -/
theorem run_check_iff (hash' : ℕ) :
  Run (mode ||| CHECK_HASH) hash rec i n ↔
    Run (mode &&& ~~~CHECK_HASH) hash' rec i n ∧ (1 < n → hash = (rec (i + 1)).word 4)
  := by
  constructor
  · rintro ⟨hpos, hstarts, hseconds, hnames, hsums⟩
    refine ⟨⟨hpos, starts_check_iff.mp hstarts, ?_, hnames, hsums⟩, ?_⟩
    · intro hlt
      exact seconds_uncheck_iff.mpr (seconds_check_iff.mp (hseconds hlt)).1
    · intro hlt
      exact (seconds_check_iff.mp (hseconds hlt)).2
  · rintro ⟨⟨hpos, hstarts, hseconds, hnames, hsums⟩, hhash⟩
    refine ⟨hpos, starts_check_iff.mpr hstarts, ?_, hnames, hsums⟩
    intro hlt
    exact seconds_check_iff.mpr ⟨seconds_uncheck_iff.mp (hseconds hlt), hhash hlt⟩

end FolderRecord

namespace FolderReader

open FileData (SizeFits)

open FolderRecord (CHECK_HASH slice Run run_check_iff slice_getD)

variable {debug : Bool} {fs : Exfat} {f : FileData} {content : ℕ → Boot.Bytes} {mode : UInt8}
  {hash hash' validSize i j n m : ℕ} {rec : ℕ → FolderRecord} {dm : Dm} {str : Name}

/-- The hash in the records of a file. -/
def storedHash (file : List FolderRecord × ℕ) : ℕ := (file.1.getD 1 fun _ => 0).word 4

/-- The filter leaves the files that have the hash. -/
theorem returned_check_iff (hash' : ℕ) {x : List FolderRecord × ℕ} :
  returned (mode ||| CHECK_HASH) hash rec j = some x ↔
    returned (mode &&& ~~~CHECK_HASH) hash' rec j = some x ∧ storedHash x = hash
  := by
  have hsecond : ∀ i n, 3 ≤ n → storedHash (slice rec i n, i + n) = (rec (i + 1)).word 4 := by
    intro i n hn
    rw [storedHash, slice_getD (by omega)]
  rw [returned_eq_some_iff, returned_eq_some_iff]
  constructor
  · rintro ⟨i, n, heq, h, hn, hcount, rfl⟩
    obtain ⟨hrun, hhash⟩ := (run_check_iff hash').mp h
    refine ⟨⟨i, n, heq, hrun, hn, hcount, rfl⟩, ?_⟩
    rw [hsecond i n hn, hhash (by omega)]
  · rintro ⟨⟨i, n, heq, h, hn, hcount, rfl⟩, hhash⟩
    rw [hsecond i n hn] at hhash
    exact ⟨i, n, heq, (run_check_iff hash').mpr ⟨h, fun _ => hhash.symm⟩, hn, hcount, rfl⟩

/-- With the filter, the steps of a reader return every file of the folder that has the hash. -/
theorem enumerate_check (h : FileData.Consistent debug fs f) (hfits : SizeFits fs)
    (hcovers : f.Covers fs validSize) (hsize : validSize < 2 ^ 32) (hdm : dm.Succeeds)
    {r : List (List FolderRecord × ℕ)}
    (hrun : enumerate debug fs content validSize (mode &&& ~~~CHECK_HASH) hash' m
      { clusters := f.clusters, dm := dm } = .ok (r, .eof)) :
  ∃ n found, enumerate debug fs content validSize (mode ||| CHECK_HASH) hash n
      { clusters := f.clusters, dm := dm } = .ok (found, .eof) ∧
    ∀ x, x.2 ≤ validSize / RECORD_SIZE → (x ∈ found ↔ x ∈ r ∧ storedHash x = hash)
  := by
  obtain ⟨n, stop, hall, hstop⟩ :=
    enumerate_start (mode &&& ~~~CHECK_HASH) hash' content h hfits hcovers hsize hdm
  obtain ⟨n', stop', hcheck, hstop'⟩ :=
    enumerate_start (mode ||| CHECK_HASH) hash content h hfits hcovers hsize hdm
  have hr := congrArg Prod.fst (enumerate_unique hrun hall)
  dsimp only at hr
  refine ⟨n', _, hcheck, ?_⟩
  intro x hx
  rw [hr, List.mem_filterMap, List.mem_filterMap]
  -- what ends within the folder is looked at with the filter and without it
  have hinside : ∀ {mode hash j}, returned mode hash (recordAt fs f content) j = some x →
      j + 1 = x.2 := by
    intro mode hash j heq
    obtain ⟨i, n, hend, -, -, -, rfl⟩ := returned_eq_some_iff.mp heq
    exact hend.symm
  constructor
  · rintro ⟨j, hj, heq⟩
    obtain ⟨hfound, hhash⟩ := (returned_check_iff hash').mp heq
    refine ⟨⟨j, ?_, hfound⟩, hhash⟩
    rw [List.mem_range] at hj ⊢
    have hle := hstop.min_le
    have hlast := hstop'.le
    have hend := hinside heq
    rw [records] at hle
    lia
  · rintro ⟨⟨j, hj, heq⟩, hhash⟩
    refine ⟨j, ?_, (returned_check_iff hash').mpr ⟨heq, hhash⟩⟩
    rw [List.mem_range] at hj ⊢
    have hle := hstop'.min_le
    have hlast := hstop.le
    have hend := hinside heq
    rw [records] at hle
    lia

end FolderReader

namespace Instances

/-- A record that is allowed, with a hash that has been taken from an equal name, is not passed over,
unless there is another one that has the name. -/
theorem lookUp_of_mem {dir : List Record} {r : Record} {mode : BitVec 8} {str : Name} (hr : r ∈ dir)
    (hallows : allows mode r.isFolder = true) (htaken : TakenFrom r.nameHash.toNat str)
    (hname : nameEqual r.name str = true) :
  ∃ r' ∈ dir, lookUp dir str mode = some r' ∧ nameEqual r'.name str = true
  := by
  rw [takenFrom_iff, BitVec.toNat_inj] at htaken
  cases hfind : lookUp dir str mode with
  | none =>
      rw [lookUp, List.find?_eq_none] at hfind
      apply absurd hname
      apply hfind
      rw [List.mem_filter, hallows, Bool.true_and, decide_eq_true_eq]
      exact ⟨hr, htaken⟩
  | some r' =>
      have hmem := List.mem_filter.mp (List.mem_of_find?_eq_some hfind)
      have hequal := List.find?_some hfind
      exact ⟨r', hmem.1, rfl, hequal⟩

end Instances

/-! ### Hashes and equality -/

/-- Hashes and equality take the same names for one another, and nothing is missed by a hash that has
been taken from an equal name. -/
structure NamesAgree (debug : Bool) : Prop where
  hash : ∀ a b, nameEqual a b = true → nameHash a = nameHash b
  equivalence : Equivalence fun a b => nameEqual a b = true
  char : ∀ x y, Exfat.sameChar x y = true ↔ SameLetter x y
  letters : ∀ a b, nameEqual a b = true ↔ List.Forall₂ SameLetter a b
  /-- Names of which one byte differs. -/
  middle : ∀ a b x y, (nameEqual (a ++ x :: b) (a ++ y :: b) = true ↔ SameLetter x y) ∧
    (nameHash (a ++ x :: b) = nameHash (a ++ y :: b) ↔ SameLetter x y)
  /-- The table of a folder, however it is used. -/
  table : ∀ (ops : List (HashedSet.Op Unit Wrapped)) w,
    HashedSet.Along debug (fun w op => op.Legal w) (fun _ => HashedSet.construct 0x10 instanceWrapper)
      ops →
    HashedSet.run debug (fun _ => HashedSet.construct 0x10 instanceWrapper) ops = .ok w →
    (w ()).NeverMisses debug
  /-- The table of a folder, as it is used. -/
  child : ∀ x, Instances.Reachable debug x → ∀ i f p g str, x.all.inst i = some f →
    f.parent = some p → x.all.inst p = some g → nameEqual f.name str = true →
    x.all.find g str = some i
  /-- The records of a folder, one after the other. -/
  record : ∀ dir mode str, ∀ r ∈ dir, Instances.allows mode r.isFolder = true →
    TakenFrom r.nameHash.toNat str → nameEqual r.name str = true →
    ∃ r' ∈ dir, Instances.lookUp dir str mode = some r' ∧ nameEqual r'.name str = true
  /-- What the filter does with the files that are found without it. -/
  filter : ∀ mode str rec j x hash, TakenFrom (FolderReader.storedHash x) str →
    FolderReader.returned (mode &&& ~~~FolderRecord.CHECK_HASH) hash rec j = some x →
    FolderReader.returned (mode ||| FolderRecord.CHECK_HASH) (nameHash str).toNat rec j = some x
  /-- The files of a folder. -/
  reader : ∀ fs f content validSize dm, FileData.Consistent debug fs f → FileData.SizeFits fs →
    f.Covers fs validSize → validSize < 2 ^ 32 → dm.Succeeds → ∀ mode str hash n files,
    FolderReader.enumerate debug fs content validSize (mode &&& ~~~FolderRecord.CHECK_HASH) hash n
      { clusters := f.clusters, dm := dm } = .ok (files, .eof) →
    ∃ n found, FolderReader.enumerate debug fs content validSize (mode ||| FolderRecord.CHECK_HASH)
        (nameHash str).toNat n { clusters := f.clusters, dm := dm } = .ok (found, .eof) ∧
      ∀ x ∈ files, x.2 ≤ validSize / FolderReader.RECORD_SIZE →
        TakenFrom (FolderReader.storedHash x) str → x ∈ found

/-- Names that are equal have the same hash, so that a look-up by the hash misses none of them. -/
theorem names_agree (debug : Bool) : NamesAgree debug where
  hash _ _ := Exfat.nameHash_of_nameEqual
  equivalence := ⟨Exfat.nameEqual_refl, fun h => by rwa [Exfat.nameEqual_comm], Exfat.nameEqual_trans⟩
  char x y := by
    rw [Exfat.sameChar_eq, Exfat.charEqual_iff, Exfat.sameLetter_iff]
  letters _ _ := Exfat.nameEqual_iff_letters
  middle _ _ _ _ := ⟨Exfat.nameEqual_middle, Exfat.nameHash_middle⟩
  table _ _ := HashedSet.neverMisses_of_run
  child _ h _ _ _ _ _ := h.inv.1.find_child
  record _ _ _ _ := Instances.lookUp_of_mem
  filter mode str rec j x hash htaken hx := by
    apply (FolderReader.returned_check_iff hash).mpr
    exact ⟨hx, takenFrom_iff.mp htaken⟩
  reader fs f content validSize dm h hfits hcovers hsize hdm mode str hash n files hrun := by
    obtain ⟨n', found, hcheck, hmem⟩ :=
      FolderReader.enumerate_check h hfits hcovers hsize hdm hrun
    refine ⟨n', found, hcheck, ?_⟩
    intro x hx hle htaken
    exact (hmem x hle).mpr ⟨hx, takenFrom_iff.mp htaken⟩

end UOS
