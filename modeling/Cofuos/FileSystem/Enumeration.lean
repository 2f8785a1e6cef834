import Cofuos.FileSystem.FolderReader

/-!
# The files of a folder

A folder is enumerated by calling `reader::step` of `kernel/filesystem/instance.cpp` until it reaches
the end. The files of a folder are the records of type `0x85` that are followed by all of the others
and have the right checksum.

The checksum is looked at one record too early, unless a name has one part only: `list.size()` is
compared with the number of records that follow the first one, which is also in the list. A file
whose name has more than `15` characters is not found.
-/

namespace UOS

open FileData (SizeFits)

namespace FolderReader

open FolderRecord (slice listBefore found Run SumRight)

/-! ### The files of a folder -/

/-- Both kinds are allowed. -/
def ALLOW_ALL : UInt8 := FolderRecord.ALLOW_FILE ||| FolderRecord.ALLOW_FOLDER

/-- A record begins a file: all of its records are there, and the checksum is right. -/
def IsSet (rec : ℕ → FolderRecord) (i : ℕ) : Prop :=
  rec i 0 = 0x85 ∧ 2 ≤ (rec i).count ∧ rec (i + 1) 0 = 0xC0 ∧
    (∀ t < (rec i).count + 1, 2 ≤ t → rec (i + t) 0 = 0xC1) ∧
    SumRight (slice rec i ((rec i).count + 1))

instance (rec : ℕ → FolderRecord) : DecidablePred (IsSet rec) := fun _ =>
  inferInstanceAs (Decidable (_ ∧ _ ∧ _ ∧ _ ∧ _))

/-- The first record of type `0`, or the end of the last sector. -/
def lastRecord (rec : ℕ → FolderRecord) (limit : ℕ) : ℕ :=
  ((List.range (sectorEnd limit)).find? fun i => rec i 0 = 0).getD (sectorEnd limit)

/-- The number of records in a folder. It ends at a record of type `0` or at the valid size. -/
def records (rec : ℕ → FolderRecord) (limit : ℕ) : ℕ := min (lastRecord rec limit) limit

/-- The files of a folder, each with its records and the index after it. -/
def files (rec : ℕ → FolderRecord) (limit : ℕ) : List (List FolderRecord × ℕ) :=
  (List.range (records rec limit)).filterMap fun i =>
    if IsSet rec i ∧ i + (rec i).count + 1 ≤ records rec limit then
      some (slice rec i ((rec i).count + 1), i + (rec i).count + 1)
    else none

/-- Calling `step` from the beginning of a folder returns its files, one after the other, and then
reports the end. -/
def Enumerates (debug : Bool) (fs : Exfat) (f : FileData) (content : ℕ → Boot.Bytes)
    (validSize : ℕ) (dm : Dm) : Prop :=
  ∃ n, enumerate debug fs content validSize ALLOW_ALL 0 n { clusters := f.clusters, dm := dm }
    = .ok (files (recordAt fs f content) (validSize / RECORD_SIZE), .eof)

/-! ### When the files are found -/

/-- A file with more than two records after the first one, but without its last record, which has the
checksum of the others. -/
def Early (rec : ℕ → FolderRecord) (i : ℕ) : Prop :=
  rec i 0 = 0x85 ∧ 3 ≤ (rec i).count ∧ rec (i + 1) 0 = 0xC0 ∧
    (∀ t < (rec i).count, 2 ≤ t → rec (i + t) 0 = 0xC1) ∧ SumRight (slice rec i (rec i).count)

/-- A file that has the same checksum with the part of a name that follows it. -/
def Late (rec : ℕ → FolderRecord) (i : ℕ) : Prop :=
  IsSet rec i ∧ (rec i).count = 2 ∧ rec (i + 3) 0 = 0xC1 ∧ SumRight (slice rec i 4)

/-- The records before an index are looked at. Those after the valid size are, up to the end of the
sector, unless a file ends there. -/
def Reached (rec : ℕ → FolderRecord) (limit e : ℕ) : Prop :=
  e ≤ lastRecord rec limit ∧
    (e ≤ limit ∨ ¬ ∃ i, IsSet rec i ∧ (rec i).count = 2 ∧ i + 3 = limit)

/-- The folder is such that its files are found. -/
structure Enumerable (rec : ℕ → FolderRecord) (limit : ℕ) : Prop where
  two : ∀ i, IsSet rec i → i + (rec i).count + 1 ≤ records rec limit → (rec i).count = 2
  early : ∀ i, Early rec i → ¬ Reached rec limit (i + (rec i).count)
  late : ∀ i, Late rec i → ¬ Reached rec limit (i + 4)
  inside : ∀ i, IsSet rec i → (rec i).count = 2 → Reached rec limit (i + 3) → i + 3 ≤ limit

variable {debug : Bool} {fs : Exfat} {f : FileData} {content : ℕ → Boot.Bytes} {mode : UInt8}
  {hash validSize limit i j n m : ℕ} {rec : ℕ → FolderRecord} {l : List FolderRecord} {p : FolderReader}
  {dm : Dm}

theorem lastRecord_le : lastRecord rec limit ≤ sectorEnd limit := by
  rw [lastRecord]
  cases hfind : (List.range (sectorEnd limit)).find? fun i => rec i 0 = 0 with
  | none => exact le_rfl
  | some i => exact (List.mem_range.mp (List.mem_of_find?_eq_some hfind)).le

theorem lastRecord_ends (h : lastRecord rec limit < sectorEnd limit) :
  rec (lastRecord rec limit) 0 = 0
  := by
  rw [lastRecord] at h ⊢
  cases hfind : (List.range (sectorEnd limit)).find? fun i => rec i 0 = 0 with
  | none =>
      rw [hfind] at h
      exact absurd h (lt_irrefl _)
  | some i => simpa using List.find?_some hfind

theorem before_lastRecord (h : i < lastRecord rec limit) : rec i 0 ≠ 0 := by
  intro hzero
  rw [lastRecord] at h
  cases hfind : (List.range (sectorEnd limit)).find? fun i => rec i 0 = 0 with
  | none =>
      rw [hfind] at h
      have := List.find?_eq_none.mp hfind i (List.mem_range.mpr h)
      simp [hzero] at this
  | some j =>
      rw [hfind, Option.getD_some] at h
      rw [List.find?_range_eq_some] at hfind
      have := hfind.2.2 i h
      simp [hzero] at this

/-- The end of the records is where the first one of type `0` is. -/
theorem lastRecord_eq (hi : i < sectorEnd limit) (hzero : rec i 0 = 0)
    (hbefore : ∀ t < i, rec t 0 ≠ 0) :
  lastRecord rec limit = i
  := by
  apply le_antisymm
  · by_contra hlt
    apply before_lastRecord (not_le.mp hlt) hzero
  · by_contra hlt
    rw [not_le] at hlt
    apply hbefore _ hlt (lastRecord_ends (hlt.trans hi))

/-! ### The steps -/

/-- The records from one to another are not of type `0`, and no file is found at them. -/
def Quiet (mode : UInt8) (hash : ℕ) (rec : ℕ → FolderRecord) (i j : ℕ) : Prop :=
  ∀ t, i ≤ t → t < j → rec t 0 ≠ 0 ∧ found mode hash rec t = false

theorem advance_succ (mode : UInt8) (hash : ℕ) (rec : ℕ → FolderRecord) (n i : ℕ) :
  advance mode hash rec (n + 1) i (listBefore mode hash rec i) =
    if rec i 0 = 0 then (some .eof, i, listBefore mode hash rec i)
    else if found mode hash rec i = true then (some .found, i + 1, listBefore mode hash rec (i + 1))
    else advance mode hash rec n (i + 1) (listBefore mode hash rec (i + 1))
  := rfl

/-- The loop over records stops where a file is found, or at a record of type `0`, or not at all. -/
theorem advance_cases (mode : UInt8) (hash : ℕ) (rec : ℕ → FolderRecord) (n i : ℕ) :
  (∃ j, i ≤ j ∧ j < i + n ∧ Quiet mode hash rec i j ∧ rec j 0 ≠ 0 ∧
    found mode hash rec j = true ∧
    advance mode hash rec n i (listBefore mode hash rec i)
      = (some .found, j + 1, listBefore mode hash rec (j + 1))) ∨
  (∃ j, i ≤ j ∧ j < i + n ∧ Quiet mode hash rec i j ∧ rec j 0 = 0 ∧
    advance mode hash rec n i (listBefore mode hash rec i)
      = (some .eof, j, listBefore mode hash rec j)) ∨
  (Quiet mode hash rec i (i + n) ∧
    advance mode hash rec n i (listBefore mode hash rec i)
      = (none, i + n, listBefore mode hash rec (i + n)))
  := by
  induction n generalizing i with
  | zero => exact .inr (.inr ⟨fun t ht hlt => by omega, rfl⟩)
  | succ n ih =>
      rw [advance_succ]
      by_cases hend : rec i 0 = 0
      · rw [if_pos hend]
        exact .inr (.inl ⟨i, le_rfl, by omega, fun t ht hlt => by omega, hend, rfl⟩)
      by_cases hfile : found mode hash rec i = true
      · rw [if_neg hend, if_pos hfile]
        exact .inl ⟨i, le_rfl, by omega, fun t ht hlt => by omega, hend, hfile, rfl⟩
      rw [if_neg hend, if_neg hfile]
      have hquiet : ∀ j, Quiet mode hash rec (i + 1) j → Quiet mode hash rec i j := by
        intro j hlater t ht hlt
        rcases ht.lt_or_eq with hgt | rfl
        · apply hlater t hgt hlt
        · exact ⟨hend, Bool.eq_false_of_not_eq_true hfile⟩
      rcases ih (i + 1) with ⟨j, hle, hlt, hlater, hrest⟩ | ⟨j, hle, hlt, hlater, hrest⟩ | ⟨hlater, hrest⟩
      · exact .inl ⟨j, by omega, by omega, hquiet j hlater, hrest⟩
      · exact .inr (.inl ⟨j, by omega, by omega, hquiet j hlater, hrest⟩)
      · rw [Nat.succ_add_eq_add_succ] at hlater hrest
        exact .inr (.inr ⟨hquiet _ hlater, hrest⟩)

/-- What is returned for a record, if a file is found at it. -/
def returned (mode : UInt8) (hash : ℕ) (rec : ℕ → FolderRecord) (j : ℕ) : Option (List FolderRecord × ℕ) :=
  if found mode hash rec j = true then some (listBefore mode hash rec (j + 1), j + 1) else none

/-- Files are looked for up to a record, from one before the end of the folder on. -/
structure Stops (mode : UInt8) (hash : ℕ) (rec : ℕ → FolderRecord) (limit stop : ℕ) : Prop where
  le : stop ≤ lastRecord rec limit
  min_le : records rec limit ≤ stop
  at_limit : ∀ j, j + 1 = limit → found mode hash rec j = true → stop ≤ limit
  beyond : (∀ j, j + 1 = limit → found mode hash rec j = false) →
    ∀ j, limit ≤ j → j < lastRecord rec limit → found mode hash rec j = true →
      ∃ t, limit ≤ t ∧ t < stop ∧ found mode hash rec t = true

theorem filterMap_quiet (h : Quiet mode hash rec i j) :
  (List.range' i (j - i)).filterMap (returned mode hash rec) = []
  := by
  rw [List.filterMap_eq_nil_iff]
  intro t ht
  rw [List.mem_range'_1] at ht
  rw [returned, (h t (by omega) (by omega)).2, if_neg Bool.false_ne_true]

/-- A sequence of records is looked at as far as the first file, and then from there on. -/
theorem filterMap_found (h : Quiet mode hash rec i j) (hle : i ≤ j) (hj : j < m)
    (hfile : found mode hash rec j = true) :
  (List.range' i (m - i)).filterMap (returned mode hash rec) =
    (listBefore mode hash rec (j + 1), j + 1) ::
      (List.range' (j + 1) (m - (j + 1))).filterMap (returned mode hash rec)
  := by
  have hsplit : List.range' i (m - i)
      = List.range' i (j - i) ++ j :: List.range' (j + 1) (m - (j + 1)) := by
    rw [show m - i = (j - i) + ((m - (j + 1)) + 1) by omega, ← List.range'_append_1,
      Nat.add_sub_cancel' hle, List.range'_succ]
  rw [hsplit, List.filterMap_append, filterMap_quiet h, List.nil_append,
    List.filterMap_cons_some]
  rw [returned, if_pos hfile]

theorem sectorEnd_ge : limit ≤ sectorEnd limit := by
  rw [sectorEnd, RECORD_PER_SECTOR]
  omega

/-- A reader before the end of a folder returns what is found from there on. -/
theorem enumerate_of_lt (mode : UInt8) (hash : ℕ) (content : ℕ → Boot.Bytes)
    (h : Sane debug fs f p) (hfits : SizeFits fs) (hcovers : f.Covers fs validSize)
    (hsize : validSize < 2 ^ 32)
    (hlimit : limit = validSize / RECORD_SIZE) (hrec : rec = recordAt fs f content)
    (hi : p.index < limit) (hle : p.index ≤ lastRecord rec limit)
    (hlist : p.list = listBefore mode hash rec p.index) :
  ∃ n stop, enumerate debug fs content validSize mode hash n p
      = .ok ((List.range' p.index (stop - p.index)).filterMap (returned mode hash rec), .eof) ∧
    p.index ≤ stop ∧ Stops mode hash rec limit stop
  := by
  induction hd : lastRecord rec limit - p.index using Nat.strong_induction_on generalizing p with
  | _ d ih =>
      obtain ⟨p', hstep, hindex, hlist', h'⟩ := step_eq mode hash content h hfits hcovers hsize
      rw [← hlimit, ← hrec, next, if_pos hi, hlist] at hstep hindex hlist'
      have hge : limit ≤ sectorEnd limit := sectorEnd_ge
      have hsum : p.index + (sectorEnd limit - p.index) = sectorEnd limit := by omega
      -- nothing is found up to the end
      have hdone : Quiet mode hash rec p.index (lastRecord rec limit) →
          step debug fs content validSize mode hash p = .ok (.eof, p') → ∃ n stop,
            enumerate debug fs content validSize mode hash n p = .ok
              ((List.range' p.index (stop - p.index)).filterMap (returned mode hash rec), .eof) ∧
            p.index ≤ stop ∧ Stops mode hash rec limit stop := by
        intro hquiet heof
        refine ⟨1, lastRecord rec limit, ?_, hle, le_rfl, min_le_left _ _, ?_, ?_⟩
        · rw [enumerate, heof, filterMap_quiet hquiet]
          rfl
        · intro t ht hfile
          by_contra hlt
          rw [(hquiet t (by omega) (by omega)).2] at hfile
          cases hfile
        · intro _ t ht hlt hfile
          rw [(hquiet t (by omega) hlt).2] at hfile
          cases hfile
      rcases advance_cases mode hash rec (sectorEnd limit - p.index) p.index with
        ⟨j, hij, hlt, hquiet, hne, hfile, hadvance⟩ | ⟨j, hij, hlt, hquiet, hzero, hadvance⟩ |
          ⟨hquiet, hadvance⟩
      · rw [hadvance] at hstep hindex hlist'
        dsimp only at hindex hlist'
        rw [if_pos rfl] at hlist'
        have hlast : j < lastRecord rec limit := by
          by_contra hge'
          rw [not_lt] at hge'
          have hzero : rec (lastRecord rec limit) 0 = 0 := lastRecord_ends (by omega)
          rcases hge'.lt_or_eq with hlt' | heq
          · exact (hquiet _ hle hlt').1 hzero
          · rw [heq] at hzero
            exact hne hzero
        by_cases hmore : j + 1 < limit
        · obtain ⟨n, stop, hrun, hstop, hs⟩ := ih (lastRecord rec limit - p'.index) (by lia) h'
            (by omega) (by omega) (by rw [hlist', hindex]) rfl
          refine ⟨n + 1, stop, ?_, by omega, hs⟩
          rw [enumerate, hstep, Except.ok_bind]
          dsimp only
          rw [Option.getD_some, if_pos rfl, hrun, Except.ok_bind]
          dsimp only
          rw [filterMap_found hquiet hij (by omega) hfile, hlist', hindex]
          rfl
        · -- the next step is at the end
          obtain ⟨p'', hstep', -⟩ := step_eq mode hash content h' hfits hcovers hsize
          rw [← hlimit, ← hrec, next, if_neg (by omega)] at hstep'
          refine ⟨2, j + 1, ?_, by omega, hlast, ?_, ?_, ?_⟩
          · rw [enumerate, hstep, Except.ok_bind]
            dsimp only
            rw [Option.getD_some, if_pos rfl, enumerate, hstep', Except.ok_bind,
              filterMap_found hquiet hij (Nat.lt_succ_self j) hfile, Nat.sub_self, hlist', hindex]
            rfl
          · rw [records]
            omega
          · intro t ht hfile'
            by_contra hlt'
            rw [(hquiet t (by omega) (by omega)).2] at hfile'
            cases hfile'
          · intro hlimit' t ht hlt' hfile'
            have hne' : j + 1 ≠ limit := by
              intro heq
              rw [hlimit' j heq] at hfile
              cases hfile
            exact ⟨j, by omega, by omega, hfile⟩
      · have hlast : lastRecord rec limit = j := by
          apply le_antisymm
          · by_contra hlt'
            apply before_lastRecord (not_le.mp hlt') hzero
          · by_contra hlt'
            rw [not_le] at hlt'
            exact (hquiet _ hle hlt').1 (lastRecord_ends (by omega))
        rw [hadvance] at hstep
        rw [← hlast] at hquiet
        exact hdone hquiet hstep
      · have hlast : lastRecord rec limit = p.index + (sectorEnd limit - p.index) := by
          apply le_antisymm
          · rw [hsum]
            apply lastRecord_le
          · by_contra hlt'
            exact (hquiet _ hle (by omega)).1 (lastRecord_ends (by omega))
        rw [hadvance] at hstep
        rw [← hlast] at hquiet
        exact hdone hquiet hstep

/-- The steps from the beginning of a folder return what is found in its records. -/
theorem enumerate_start (mode : UInt8) (hash : ℕ) (content : ℕ → Boot.Bytes)
    (h : FileData.Consistent debug fs f) (hfits : SizeFits fs) (hcovers : f.Covers fs validSize)
    (hsize : validSize < 2 ^ 32) (hdm : dm.Succeeds) :
  ∃ n stop, enumerate debug fs content validSize mode hash n { clusters := f.clusters, dm := dm }
      = .ok ((List.range stop).filterMap (returned mode hash (recordAt fs f content)), .eof) ∧
    Stops mode hash (recordAt fs f content) (validSize / RECORD_SIZE) stop
  := by
  have hsane : Sane debug fs f { clusters := f.clusters, dm := dm } := ⟨h, fun _ => rfl, hdm⟩
  by_cases hzero : validSize / RECORD_SIZE = 0
  · obtain ⟨p', hstep, -⟩ := step_eq mode hash content hsane hfits hcovers hsize
    rw [hzero, next, if_neg (lt_irrefl 0)] at hstep
    refine ⟨1, 0, ?_, ?_⟩
    · rw [enumerate, hstep]
      rfl
    · rw [hzero]
      refine ⟨Nat.zero_le _, min_le_right _ _, fun j heq => by omega, ?_⟩
      intro _ j _ hlt
      have hle : lastRecord (recordAt fs f content) 0 ≤ sectorEnd 0 := lastRecord_le
      exact absurd (hlt.trans_le hle) (Nat.not_lt_zero j)
  · obtain ⟨n, stop, hrun, -, hstop⟩ := enumerate_of_lt mode hash content hsane hfits hcovers hsize
      rfl rfl (Nat.pos_of_ne_zero hzero) (Nat.zero_le _) rfl
    refine ⟨n, stop, ?_, hstop⟩
    rw [hrun, List.range_eq_range', Nat.sub_zero]

/-- More fuel does not change the result. -/
theorem enumerate_mono {r : List (List FolderRecord × ℕ) × Stat}
    (h : enumerate debug fs content validSize mode hash n p = .ok r) (hle : n ≤ m) :
  enumerate debug fs content validSize mode hash m p = .ok r
  := by
  induction n generalizing p m r with
  | zero => cases h
  | succ n ih =>
      obtain ⟨m, rfl⟩ : ∃ m', m = m' + 1 := ⟨m - 1, by omega⟩
      rw [enumerate, Except.bind_eq_ok_iff] at h ⊢
      obtain ⟨⟨stat, p'⟩, hstep, hrest⟩ := h
      refine ⟨(stat, p'), hstep, ?_⟩
      dsimp only at hrest ⊢
      split_ifs at hrest ⊢ with hfound
      · rw [Except.bind_eq_ok_iff] at hrest ⊢
        obtain ⟨files, hrun, hresult⟩ := hrest
        exact ⟨files, ih hrun (by omega), hresult⟩
      · exact hrest

theorem enumerate_unique {r r' : List (List FolderRecord × ℕ) × Stat}
    (h : enumerate debug fs content validSize mode hash n p = .ok r)
    (h' : enumerate debug fs content validSize mode hash m p = .ok r') :
  r = r'
  := by
  have heq := (enumerate_mono h (le_max_left n m)).symm.trans (enumerate_mono h' (le_max_right n m))
  exact Except.ok.inj heq

/-! ### The files that are returned -/

/-- With both kinds allowed, every record of type `0x85` that says that enough records follow begins a
list. -/
theorem starts_all_iff {r : FolderRecord} : FolderRecord.Starts ALLOW_ALL r ↔ r 0 = 0x85 ∧ 2 ≤ r.count := by
  have hkind : r.fileType &&& ALLOW_ALL ≠ 0 := by
    rw [FolderRecord.fileType]
    split_ifs <;> decide
  exact ⟨fun h => ⟨h.1, h.2.1⟩, fun h => ⟨h.1, h.2, by decide, hkind⟩⟩

theorem seconds_all_iff {r : FolderRecord} : FolderRecord.Seconds ALLOW_ALL 0 r ↔ r 0 = 0xC0 :=
  ⟨fun h => h.1, fun h => ⟨h, fun hcheck => absurd rfl hcheck⟩⟩

/-- A file is a run of all of its records, if it has three. -/
theorem run_of_isSet (h : IsSet rec i) (htwo : (rec i).count = 2) : Run ALLOW_ALL 0 rec i 3 := by
  obtain ⟨htype, hcount, hsecond, hnames, hsum⟩ := h
  rw [htwo] at hnames hsum
  refine ⟨by decide, starts_all_iff.mpr ⟨htype, hcount⟩, fun _ => seconds_all_iff.mpr hsecond,
    fun t ht hlt => hnames t hlt ht, ?_⟩
  intro m hm _ hle
  obtain rfl : m = 3 := by omega
  exact hsum

/-- A run of all records of a file is a file. -/
theorem Run.isSet (h : Run ALLOW_ALL 0 rec i ((rec i).count + 1)) : IsSet rec i := by
  obtain ⟨htype, hcount⟩ := starts_all_iff.mp h.starts
  refine ⟨htype, hcount, seconds_all_iff.mp (h.seconds (by omega)), fun t hlt ht => h.names t ht hlt,
    h.sums _ (by omega) (by omega) le_rfl⟩

/-- A run that has reached the number of records in the first one is of one of three kinds. -/
theorem Run.kinds (h : Run ALLOW_ALL 0 rec i n) (hn : 3 ≤ n) (hcount : (rec i).count ≤ n) :
  ((rec i).count = 2 ∧ n = 3 ∧ IsSet rec i) ∨ (Early rec i) ∨ (Late rec i ∧ 4 ≤ n)
  := by
  obtain ⟨htype, htwo⟩ := starts_all_iff.mp h.starts
  rcases htwo.lt_or_eq with hmore | heq
  · right
    left
    refine ⟨htype, hmore, seconds_all_iff.mp (h.seconds (by omega)), ?_, ?_⟩
    · intro t hlt ht
      apply h.names t ht (by omega)
    · apply h.sums _ hmore le_rfl hcount
  · have hset : IsSet rec i := by
      apply Run.isSet
      rw [← heq]
      apply h.part (by decide) hn
    by_cases hthree : n = 3
    · exact .inl ⟨heq.symm, hthree, hset⟩
    · refine .inr (.inr ⟨⟨hset, heq.symm, h.names 3 (by decide) (by omega), ?_⟩, by omega⟩)
      apply h.sums 4 (by decide) (by omega) (by omega)

/-- What is returned for a record at which a run ends. -/
theorem returned_eq_some_iff {x : List FolderRecord × ℕ} :
  returned mode hash rec j = some x ↔
    ∃ i n, i + n = j + 1 ∧ Run mode hash rec i n ∧ 3 ≤ n ∧ (rec i).count ≤ n ∧
      x = (slice rec i n, i + n)
  := by
  rw [returned, Option.ite_none_right_eq_some, FolderRecord.found_iff]
  constructor
  · rintro ⟨⟨i, n, heq, h, hn, hcount⟩, hx⟩
    refine ⟨i, n, heq, h, hn, hcount, ?_⟩
    rw [← Option.some.inj hx, ← heq, FolderRecord.listBefore_of_run h]
  · rintro ⟨i, n, heq, h, hn, hcount, rfl⟩
    refine ⟨⟨i, n, heq, h, hn, hcount⟩, ?_⟩
    rw [← heq, FolderRecord.listBefore_of_run h]

theorem mem_returned {stop : ℕ} {x : List FolderRecord × ℕ} :
  x ∈ (List.range stop).filterMap (returned mode hash rec) ↔
    ∃ i n, Run mode hash rec i n ∧ 3 ≤ n ∧ (rec i).count ≤ n ∧ i + n ≤ stop ∧
      x = (slice rec i n, i + n)
  := by
  rw [List.mem_filterMap]
  constructor
  · rintro ⟨j, hj, hx⟩
    rw [List.mem_range] at hj
    obtain ⟨i, n, heq, h, hn, hcount, rfl⟩ := returned_eq_some_iff.mp hx
    exact ⟨i, n, h, hn, hcount, by omega, rfl⟩
  · rintro ⟨i, n, h, hn, hcount, hle, rfl⟩
    refine ⟨i + n - 1, List.mem_range.mpr (by omega), ?_⟩
    apply returned_eq_some_iff.mpr
    exact ⟨i, n, by omega, h, hn, hcount, rfl⟩

theorem mem_files {x : List FolderRecord × ℕ} :
  x ∈ files rec limit ↔
    ∃ i, IsSet rec i ∧ i + (rec i).count + 1 ≤ records rec limit ∧
      x = (slice rec i ((rec i).count + 1), i + (rec i).count + 1)
  := by
  rw [files, List.mem_filterMap]
  constructor
  · rintro ⟨i, -, hx⟩
    rw [Option.ite_none_right_eq_some] at hx
    exact ⟨i, hx.1.1, hx.1.2, (Option.some.inj hx.2).symm⟩
  · rintro ⟨i, h, hle, rfl⟩
    exact ⟨i, List.mem_range.mpr (by omega), if_pos ⟨h, hle⟩⟩

/-- The records of a file do not begin another one. -/
theorem IsSet.lt (h : IsSet rec i) (h' : IsSet rec j) (hlt : i < j) : i + (rec i).count < j := by
  by_contra hle
  obtain ⟨-, -, hsecond, hnames, -⟩ := h
  rcases (Nat.succ_le_of_lt hlt).lt_or_eq with hmore | rfl
  · have hname := hnames (j - i) (by omega) (by omega)
    rw [Nat.add_sub_cancel' hlt.le, h'.1] at hname
    exact absurd hname (by decide)
  · rw [h'.1] at hsecond
    exact absurd hsecond (by decide)

/-- Both lists are in the order of the index after a file. -/
theorem pairwise_returned (mode : UInt8) (hash : ℕ) (rec : ℕ → FolderRecord) (stop : ℕ) :
  ((List.range stop).filterMap (returned mode hash rec)).Pairwise fun x y => x.2 < y.2
  := by
  apply List.Pairwise.filterMap (returned mode hash rec) _ List.pairwise_lt_range
  intro i j hlt x hx y hy
  rw [returned, Option.ite_none_right_eq_some] at hx hy
  rw [← Option.some.inj hx.2, ← Option.some.inj hy.2]
  exact Nat.succ_lt_succ hlt

theorem pairwise_files (rec : ℕ → FolderRecord) (limit : ℕ) :
  (files rec limit).Pairwise fun x y => x.2 < y.2
  := by
  apply List.Pairwise.filterMap _ _ List.pairwise_lt_range
  intro i j hlt x hx y hy
  rw [Option.ite_none_right_eq_some] at hx hy
  rw [← Option.some.inj hx.2, ← Option.some.inj hy.2]
  have := IsSet.lt hx.1.1 hy.1.1 hlt
  dsimp only
  omega

/-- The files are returned exactly if the runs that reach the number of records are the files. -/
theorem returned_eq_files_iff {stop : ℕ} :
  (List.range stop).filterMap (returned mode hash rec) = files rec limit ↔
    ∀ i n, (Run mode hash rec i n ∧ 3 ≤ n ∧ (rec i).count ≤ n ∧ i + n ≤ stop) ↔
      (IsSet rec i ∧ n = (rec i).count + 1 ∧ i + n ≤ records rec limit)
  := by
  have hinj : ∀ {i n j m}, (slice rec i n, i + n) = (slice rec j m, j + m) → i = j ∧ n = m := by
    intro i n j m heq
    have hlength := congrArg (fun x => x.1.length) heq
    have hend := congrArg Prod.snd heq
    simp only [FolderRecord.slice_length] at hlength hend
    omega
  constructor
  · intro heq i n
    have hmem : (slice rec i n, i + n) ∈ (List.range stop).filterMap (returned mode hash rec) ↔
        (slice rec i n, i + n) ∈ files rec limit := by rw [heq]
    rw [mem_returned, mem_files] at hmem
    constructor
    · rintro ⟨h, hn, hcount, hle⟩
      obtain ⟨j, hset, hle', hx⟩ := hmem.mp ⟨i, n, h, hn, hcount, hle, rfl⟩
      rw [Nat.add_assoc] at hx
      obtain ⟨rfl, rfl⟩ := hinj hx
      exact ⟨hset, rfl, by omega⟩
    · rintro ⟨hset, rfl, hle⟩
      obtain ⟨j, m, h, hn, hcount, hle', hx⟩ := hmem.mpr ⟨i, hset, hle, rfl⟩
      obtain ⟨rfl, rfl⟩ := hinj hx
      exact ⟨h, hn, hcount, hle'⟩
  · intro hall
    have : Std.Irrefl fun x y : List FolderRecord × ℕ => x.2 < y.2 := ⟨fun _ => lt_irrefl _⟩
    have : Std.Antisymm fun x y : List FolderRecord × ℕ => x.2 < y.2 :=
      ⟨fun _ _ hlt hlt' => absurd (hlt.trans hlt') (lt_irrefl _)⟩
    apply (pairwise_returned mode hash rec stop).eq_of_mem_iff (pairwise_files rec limit)
    intro x
    rw [mem_returned, mem_files]
    constructor
    · rintro ⟨i, n, h, hn, hcount, hle, rfl⟩
      obtain ⟨hset, rfl, hle'⟩ := (hall i n).mp ⟨h, hn, hcount, hle⟩
      exact ⟨i, hset, hle', rfl⟩
    · rintro ⟨i, hset, hle, rfl⟩
      obtain ⟨h, hn, hcount, hle'⟩ := (hall i ((rec i).count + 1)).mpr ⟨hset, rfl, hle⟩
      exact ⟨i, _, h, hn, hcount, hle', rfl⟩

/-- The files of the records are returned exactly if the folder is such that they are found. -/
theorem Stops.returned_iff {stop : ℕ} (h : Stops ALLOW_ALL 0 rec limit stop) :
  (List.range stop).filterMap (returned ALLOW_ALL 0 rec) = files rec limit ↔ Enumerable rec limit
  := by
  have hle := h.le
  have hmin := h.min_le
  have hrecords : records rec limit = min (lastRecord rec limit) limit := rfl
  rw [returned_eq_files_iff]
  constructor
  · intro hall
    have htwo : ∀ i, IsSet rec i → i + (rec i).count + 1 ≤ records rec limit →
        (rec i).count = 2 := by
      intro i hset hend
      obtain ⟨hrun, -, -, hstop⟩ := (hall i ((rec i).count + 1)).mpr ⟨hset, rfl, hend⟩
      by_contra hne
      have hcount := hset.2.1
      -- the run without its last record is returned as well
      have hshort := (hall i (rec i).count).mp
        ⟨hrun.part (by omega) (by omega), by omega, le_rfl, by omega⟩
      omega
    -- what is looked at and reaches the number of records is a file
    have hreached : ∀ i n, Run ALLOW_ALL 0 rec i n → 3 ≤ n → (rec i).count ≤ n →
        Reached rec limit (i + n) → i + n ≤ limit ∧ n = (rec i).count + 1 := by
      intro i n hrun hn hcount hre
      by_cases hstop : i + n ≤ stop
      · obtain ⟨-, hn', hend⟩ := (hall i n).mp ⟨hrun, hn, hcount, hstop⟩
        exact ⟨by omega, hn'⟩
      exfalso
      have hpast : limit < i + n := by
        have := hre.1
        omega
      have hnot : ∀ j, j + 1 = limit → found ALLOW_ALL 0 rec j = false := by
        intro j hj
        by_contra hfound
        rw [Bool.not_eq_false] at hfound
        obtain ⟨i', n', heq, hrun', hn', hcount'⟩ := FolderRecord.found_iff.mp hfound
        have hlast := hre.1
        obtain ⟨hset', rfl, hend'⟩ := (hall i' n').mp ⟨hrun', hn', hcount', by omega⟩
        have := htwo i' hset' (by omega)
        rcases hre.2 with hle' | hno
        · omega
        · exact hno ⟨i', hset', this, by omega⟩
      have hlast := hre.1
      obtain ⟨t, ht, hlt, hfound⟩ := h.beyond hnot (i + n - 1) (by omega) (by omega)
        (FolderRecord.found_iff.mpr ⟨i, n, by omega, hrun, hn, hcount⟩)
      obtain ⟨i', n', heq, hrun', hn', hcount'⟩ := FolderRecord.found_iff.mp hfound
      have := ((hall i' n').mp ⟨hrun', hn', hcount', by omega⟩).2.2
      omega
    refine ⟨htwo, ?_, ?_, ?_⟩
    · rintro i ⟨htype, hthree, hsecond, hnames, hsum⟩ hre
      have hrun : Run ALLOW_ALL 0 rec i (rec i).count := by
        refine ⟨by omega, starts_all_iff.mpr ⟨htype, by omega⟩,
          fun _ => seconds_all_iff.mpr hsecond, fun t ht hlt => hnames t hlt ht, ?_⟩
        intro m _ hcount hle'
        obtain rfl : m = (rec i).count := by omega
        exact hsum
      have := (hreached i _ hrun hthree le_rfl hre).2
      omega
    · rintro i ⟨hset, htwo', hname, hsum⟩ hre
      have hrun := (run_of_isSet hset htwo').succ (by decide) hname fun _ => hsum
      have := (hreached i 4 hrun (by decide) (by omega) hre).2
      omega
    · intro i hset htwo' hre
      exact (hreached i 3 (run_of_isSet hset htwo') le_rfl (by omega) hre).1
  · rintro ⟨htwo, hearly, hlate, hinside⟩ i n
    constructor
    · rintro ⟨hrun, hn, hcount, hstop⟩
      have hre : ∀ e ≤ i + n, Reached rec limit e := by
        intro e he
        refine ⟨by omega, ?_⟩
        by_contra hpast
        rw [not_or, not_not, not_le] at hpast
        obtain ⟨hlt, i', hset', htwo', heq⟩ := hpast
        have := h.at_limit (limit - 1) (by omega) (FolderRecord.found_iff.mpr
          ⟨i', 3, by omega, run_of_isSet hset' htwo', le_rfl, by omega⟩)
        omega
      rcases Run.kinds hrun hn hcount with ⟨htwo', rfl, hset⟩ | hkind | ⟨hkind, hfour⟩
      · have hend := hinside i hset htwo' (hre _ le_rfl)
        exact ⟨hset, by omega, by omega⟩
      · exact absurd (hre _ (by omega)) (hearly i hkind)
      · exact absurd (hre _ (by omega)) (hlate i hkind)
    · rintro ⟨hset, rfl, hend⟩
      have htwo' := htwo i hset (by omega)
      rw [htwo'] at hend ⊢
      exact ⟨run_of_isSet hset htwo', le_rfl, by decide, by omega⟩

/-- For every folder, the steps of a reader return its files, each with its records and the index
after it, exactly if each file has two records after the first one, and no other records happen to
have the right checksum where it is looked at. -/
theorem enumerates_iff (h : FileData.Consistent debug fs f) (hfits : SizeFits fs)
    (hcovers : f.Covers fs validSize) (hsize : validSize < 2 ^ 32) (hdm : dm.Succeeds) :
  Enumerates debug fs f content validSize dm ↔
    Enumerable (recordAt fs f content) (validSize / RECORD_SIZE)
  := by
  obtain ⟨n, stop, hrun, hstop⟩ :=
    enumerate_start ALLOW_ALL 0 content h hfits hcovers hsize hdm
  rw [← hstop.returned_iff]
  constructor
  · rintro ⟨m, hrun'⟩
    exact congrArg Prod.fst (enumerate_unique hrun hrun')
  · intro heq
    rw [heq] at hrun
    exact ⟨n, hrun⟩

/-- A folder each sector of which begins with these records, given by the bytes before the zeros. -/
def folderOf (l : List (List UInt8)) : ℕ → Boot.Bytes := fun _ i =>
  (l.getD (i / 0x20) []).getD (i % 0x20) 0

/-- A file whose name has one part. -/
def shortName : ℕ → Boot.Bytes :=
  folderOf [[0x85, 2, 0x66, 0x0E, 0x20], [0xC0, 1, 0, 1], [0xC1, 0, 0x61]]

/-- A file whose name has two parts. -/
def longName : ℕ → Boot.Bytes :=
  folderOf [[0x85, 3, 0xF8, 0x13, 0x20], [0xC0, 1, 0, 16], [0xC1, 0, 0x61], [0xC1, 0, 0x62]]

/-- The records of a folder of three clusters. -/
def chainedRecords (content : ℕ → Boot.Bytes) : ℕ → FolderRecord :=
  recordAt (Chains.threeClusters true) FileData.chained content

/-- In a folder with a file whose name has one part, the file is found. -/
theorem enumerates_short :
  (Enumerates true (Chains.threeClusters true) FileData.chained shortName 0x3000 Chains.reading ↔
    Enumerable (chainedRecords shortName) (0x3000 / RECORD_SIZE)) ∧
    Enumerable (chainedRecords shortName) (0x3000 / RECORD_SIZE)
  := by
  refine ⟨enumerates_iff FileData.consistent_chained ⟨by decide, by decide⟩ FileData.covers_chained
    (by decide) fun _ => rfl, ?_⟩
  have hlast : lastRecord (chainedRecords shortName) (0x3000 / RECORD_SIZE) = 3 := by
    apply lastRecord_eq <;> decide
  have hset : ∀ i < 3, IsSet (chainedRecords shortName) i → i = 0 := by decide +kernel
  have hcount : ((chainedRecords shortName) 0).count = 2 := rfl
  refine ⟨?_, ?_, ?_, ?_⟩
  · intro i h hle
    rw [records, hlast] at hle
    rw [hset i (by omega) h, hcount]
  · intro i h hre
    have hlt := hre.1
    rw [hlast] at hlt
    have hthree := h.2.1
    obtain rfl : i = 0 := by omega
    omega
  · intro i h hre
    have hlt := hre.1
    omega
  · intro i h _ hre
    have hlt := hre.1
    rw [hlast] at hlt
    rw [RECORD_SIZE]
    omega

/-- A file whose name has two parts is not found. -/
theorem long_name_skipped :
  FileData.Consistent true (Chains.threeClusters true) FileData.chained ∧
    FileData.chained.Covers (Chains.threeClusters true) 0x3000 ∧
    IsSet (chainedRecords longName) 0 ∧
    ¬ Enumerates true (Chains.threeClusters true) FileData.chained longName 0x3000 Chains.reading
  := by
  have hset : IsSet (chainedRecords longName) 0 := by decide +kernel
  refine ⟨FileData.consistent_chained, FileData.covers_chained, hset, ?_⟩
  rintro ⟨m, hrun⟩
  have hdm : Chains.reading.Succeeds := fun _ => rfl
  obtain ⟨n, stop, hrun', hstop⟩ := enumerate_start ALLOW_ALL 0 longName FileData.consistent_chained
    ⟨by decide, by decide⟩ FileData.covers_chained (show 0x3000 < 2 ^ 32 by decide) hdm
  have hreturned := (Prod.mk.inj (enumerate_unique hrun' hrun)).1
  have hfound := hstop.returned_iff.mp hreturned
  have hlast : lastRecord (chainedRecords longName) (0x3000 / RECORD_SIZE) = 4 := by
    apply lastRecord_eq <;> decide
  have htwo := hfound.two 0 hset (by
    change 0 + (chainedRecords longName 0).count + 1 ≤ records (chainedRecords longName) _
    rw [records, hlast]
    rfl)
  revert htwo
  decide

end FolderReader

end UOS
