import Cofuos.FileSystem.ReadFile
import Cofuos.FileSystem.Records

/-!
# Reading a folder

`folder_instance::reader` of `kernel/filesystem/instance.cpp` goes through the records of a folder,
sector by sector. `reader::step` returns when a file has been found, and goes on from there when it is
called again. It stops at a record of type `0`, and at the end of the sector in which the last valid
record of the folder lies.

The contents of the sectors are given as they are found in the cache.
-/

namespace UOS

open Exfat (SECTOR_SIZE)

open FileData (SizeFits)

namespace FolderReader

/-- The result of `step`. -/
inductive Stat where
  | found
  | eof
  | fsFailure
  | mediaFailure
  deriving DecidableEq, Repr

/-- `exfat::record_size` -/
def RECORD_SIZE : ℕ := 0x20

/-- `exfat::record_per_sector` -/
def RECORD_PER_SECTOR : ℕ := 16

/-- A record of a sector. -/
def recordOf (sector : Boot.Bytes) (i : ℕ) : FolderRecord := fun k => sector (RECORD_SIZE * i + k)

/-- The loop over the records of a sector, of which so many are left. -/
def scan (mode : UInt8) (hash : ℕ) (sector : Boot.Bytes) :
    ℕ → ℕ → List FolderRecord → Option Stat × ℕ × List FolderRecord
  | 0, index, list => (none, index, list)
  | n + 1, index, list =>
    let r := recordOf sector (index % RECORD_PER_SECTOR)
    if r 0 = 0 then (some .eof, index, list)
    else
      let (list, file) := r.parse mode hash list
      let index := (index + 1) % 2 ^ 32
      if file = true then (some .found, index, list)
      else scan mode hash sector n index list

end FolderReader

/-- A reader, with the clusters of the instance. -/
structure FolderReader where
  list : List FolderRecord := []
  index : ℕ := 0
  clusters : ClusterChain
  dm : Dm

namespace FolderReader

/-- The loop of `step` over the sectors, with the page whose slot is held. -/
def stepLoop (debug : Bool) (fs : Exfat) (content : ℕ → Boot.Bytes) (limit : ℕ) (mode : UInt8)
    (hash : ℕ) :
    ℕ → FolderReader → Option ℕ → Except Fault (Stat × FolderReader × Option ℕ)
  | 0, _, _ => .error .outOfFuel
  | n + 1, p, block =>
    if p.index < limit then do
      let offset := p.index * RECORD_SIZE % 2 ^ 32
      let (lba, _, clusters, dm) ←
        FileData.getLba debug (fun _ dm => (true, dm)) false offset 1 fs p.clusters p.dm
      let p := { p with clusters := clusters, dm := dm }
      if lba = 0 then
        return (.fsFailure, p, block)
      else
        let size := fs.clusterSize - offset % fs.clusterSize
        let size := min size (Disk.count lba * SECTOR_SIZE - offset % SECTOR_SIZE)
        Fault.assert debug (size ≠ 0)
        match (p.dm.relaxAny block).get lba with
        | (none, dm) =>
          return (.mediaFailure, { p with dm := dm }, none)
        | (some page, dm) =>
          -- it is safe to read up to the end of the sector
          let (stat, index, list) := scan mode hash (content lba)
            (RECORD_PER_SECTOR - p.index % RECORD_PER_SECTOR) p.index p.list
          let p := { p with index := index, list := list, dm := dm }
          match stat with
          | some stat => return (stat, p, some page)
          | none => stepLoop debug fs content limit mode hash n p (some page)
    else
      return (.eof, p, block)

/-- `reader::step` -/
def step (debug : Bool) (fs : Exfat) (content : ℕ → Boot.Bytes) (validSize : ℕ) (mode : UInt8)
    (hash : ℕ) (p : FolderReader) : Except Fault (Stat × FolderReader) := do
  let limit := validSize / RECORD_SIZE % 2 ^ 32
  let (stat, p, block) ← stepLoop debug fs content limit mode hash (limit + 1) p none
  let list := if stat = .found then p.list else []
  return (stat, { p with list := list, dm := p.dm.relaxAny block })

/-- `step` is called again and again. Returns the files that are found, each with its records and the
index after it, and the result of the last call. -/
def enumerate (debug : Bool) (fs : Exfat) (content : ℕ → Boot.Bytes) (validSize : ℕ) (mode : UInt8)
    (hash : ℕ) : ℕ → FolderReader → Except Fault (List (List FolderRecord × ℕ) × Stat)
  | 0, _ => .error .outOfFuel
  | n + 1, p => do
    let (stat, p) ← step debug fs content validSize mode hash p
    if stat = .found then
      let (files, last) ← enumerate debug fs content validSize mode hash n p
      return ((p.list, p.index) :: files, last)
    else
      return ([], stat)

/-! ### Records and sectors -/

/-- A record of a folder. -/
def recordAt (fs : Exfat) (f : FileData) (content : ℕ → Boot.Bytes) (i : ℕ) : FolderRecord := fun k =>
  f.byteAt fs content (RECORD_SIZE * i + k)

/-- The loop over records, in a sequence of records. -/
def advance (mode : UInt8) (hash : ℕ) (rec : ℕ → FolderRecord) :
    ℕ → ℕ → List FolderRecord → Option Stat × ℕ × List FolderRecord
  | 0, index, list => (none, index, list)
  | n + 1, index, list =>
    if rec index 0 = 0 then (some .eof, index, list)
    else if ((rec index).parse mode hash list).2 = true then
      (some .found, index + 1, ((rec index).parse mode hash list).1)
    else advance mode hash rec n (index + 1) ((rec index).parse mode hash list).1

variable {debug : Bool} {fs : Exfat} {f : FileData} {content : ℕ → Boot.Bytes} {mode : UInt8}
  {hash validSize limit i j n m : ℕ} {rec : ℕ → FolderRecord} {l : List FolderRecord} {p : FolderReader}
  {block : Option ℕ}

/-- The bytes of a sector of a file lie in the same sector of the disk. -/
theorem sectorAt_congr (hfits : SizeFits fs) (h : i / SECTOR_SIZE = j / SECTOR_SIZE) :
  f.sectorAt fs i = f.sectorAt fs j
  := by
  have hper : fs.clusterSize = SECTOR_SIZE * (fs.clusterSize / SECTOR_SIZE) :=
    (Nat.mul_div_cancel' (FileData.sector_dvd_cluster hfits)).symm
  have hdiv : i / fs.clusterSize = j / fs.clusterSize := by
    rw [hper, ← Nat.div_div_eq_div_mul, h, Nat.div_div_eq_div_mul]
  have hmod : i % fs.clusterSize / SECTOR_SIZE = j % fs.clusterSize / SECTOR_SIZE := by
    rw [hper, Nat.mod_mul_right_div_self, h, Nat.mod_mul_right_div_self]
  rw [FileData.sectorAt, FileData.sectorAt, hdiv, hmod]

/-- A record of a folder is found in the sector of another one of the same sector. -/
theorem recordOf_sectorAt (hfits : SizeFits fs)
    (h : i / RECORD_PER_SECTOR = j / RECORD_PER_SECTOR) :
  recordOf (content (f.sectorAt fs (j * RECORD_SIZE))) (i % RECORD_PER_SECTOR)
    = recordAt fs f content i
  := by
  funext k
  have hk := k.isLt
  rw [RECORD_PER_SECTOR] at h ⊢
  rw [recordOf, recordAt, FileData.byteAt, RECORD_SIZE,
    sectorAt_congr (j := 0x20 * i + k) hfits (by rw [SECTOR_SIZE]; lia), SECTOR_SIZE]
  congr 1
  lia

/-- The loop over the records of a sector. -/
theorem scan_eq (mode : UInt8) (hash : ℕ) (content : ℕ → Boot.Bytes) (f : FileData)
    (l : List FolderRecord) (hfits : SizeFits fs) (hj : j / RECORD_PER_SECTOR = i / RECORD_PER_SECTOR)
    (hn : i % RECORD_PER_SECTOR + n ≤ RECORD_PER_SECTOR) (hi : i + n < 2 ^ 32) :
  scan mode hash (content (f.sectorAt fs (j * RECORD_SIZE))) n i l
    = advance mode hash (recordAt fs f content) n i l
  := by
  induction n generalizing i l with
  | zero => rfl
  | succ n ih =>
      rw [scan, advance, recordOf_sectorAt hfits hj.symm]
      dsimp only
      rw [Nat.mod_eq_of_lt (show i + 1 < 2 ^ 32 by lia)]
      split_ifs with hend hfile
      · rfl
      · rfl
      · cases n with
        | zero => rfl
        | succ n =>
            rw [RECORD_PER_SECTOR] at hj hn
            apply ih
            · rw [RECORD_PER_SECTOR]
              lia
            · rw [RECORD_PER_SECTOR]
              lia
            · lia

/-! ### A step -/

/-- The end of the sector of the last record. -/
def sectorEnd (limit : ℕ) : ℕ :=
  (limit + (RECORD_PER_SECTOR - 1)) / RECORD_PER_SECTOR * RECORD_PER_SECTOR

/-- What a step comes to, in a sequence of records. -/
def next (mode : UInt8) (hash : ℕ) (rec : ℕ → FolderRecord) (limit index : ℕ) (list : List FolderRecord) :
    Option Stat × ℕ × List FolderRecord :=
  if index < limit then advance mode hash rec (sectorEnd limit - index) index list
  else (none, index, list)

/-- More records are looked at when none of the first ones has stopped the loop. -/
theorem advance_add :
  advance mode hash rec (n + m) i l =
    if (advance mode hash rec n i l).1 = none then
      advance mode hash rec m (advance mode hash rec n i l).2.1 (advance mode hash rec n i l).2.2
    else advance mode hash rec n i l
  := by
  induction n generalizing i l with
  | zero => rw [Nat.zero_add, advance, if_pos rfl]
  | succ n ih =>
      rw [Nat.succ_add, advance, advance]
      by_cases hend : rec i 0 = 0
      · rw [if_pos hend, if_pos hend, if_neg (Option.some_ne_none _)]
      by_cases hfile : ((rec i).parse mode hash l).2 = true
      · rw [if_neg hend, if_neg hend, if_pos hfile, if_pos hfile, if_neg (Option.some_ne_none _)]
      · rw [if_neg hend, if_neg hend, if_neg hfile, if_neg hfile]
        apply ih

/-- All records have been looked at when the loop has not been stopped. -/
theorem advance_index (h : (advance mode hash rec n i l).1 = none) :
  (advance mode hash rec n i l).2.1 = i + n
  := by
  induction n generalizing i l with
  | zero => rfl
  | succ n ih =>
      rw [advance] at h ⊢
      split_ifs at h ⊢ with hend hfile
      rw [ih h]
      omega

/-- The state of a reader of a folder. -/
structure Sane (debug : Bool) (fs : Exfat) (f : FileData) (p : FolderReader) : Prop where
  file : FileData.Consistent debug fs { f with clusters := p.clusters }
  same : ∀ k, ({ f with clusters := p.clusters } : FileData).clusterAt fs k = f.clusterAt fs k
  dm : p.dm.Succeeds

/-- A round of the loop goes through the records of a sector. -/
theorem stepLoop_succ (mode : UInt8) (hash : ℕ) (content : ℕ → Boot.Bytes)
    (h : Sane debug fs f p) (hfits : SizeFits fs)
    (hcovers : f.Covers fs (limit * RECORD_SIZE)) (hlimit : limit ≤ 2 ^ 27) (hi : p.index < limit)
    (n : ℕ) (block : Option ℕ) :
  ∃ p' page, Sane debug fs f p' ∧
    (p'.index, p'.list) = (advance mode hash (recordAt fs f content)
      (RECORD_PER_SECTOR - p.index % RECORD_PER_SECTOR) p.index p.list).2 ∧
    ((∃ stat, (advance mode hash (recordAt fs f content)
        (RECORD_PER_SECTOR - p.index % RECORD_PER_SECTOR) p.index p.list).1 = some stat ∧
      stepLoop debug fs content limit mode hash (n + 1) p block = .ok (stat, p', some page)) ∨
    ((advance mode hash (recordAt fs f content)
        (RECORD_PER_SECTOR - p.index % RECORD_PER_SECTOR) p.index p.list).1 = none ∧
      stepLoop debug fs content limit mode hash (n + 1) p block
        = stepLoop debug fs content limit mode hash n p' (some page)))
  := by
  have hsize : RECORD_SIZE = 0x20 := rfl
  have hper : RECORD_PER_SECTOR = 16 := rfl
  have hmod := Nat.mod_lt p.index (show 0 < RECORD_PER_SECTOR by decide)
  have hk : ({ f with clusters := p.clusters } : FileData).clusterAt fs
      (p.index * RECORD_SIZE / fs.clusterSize) ≠ 0 := by
    rw [h.same]
    apply hcovers
    rw [hsize]
    lia
  obtain ⟨c', dm', hlba, h₀, hfile, hsame, hdm⟩ := h.file.getLba_eq
    (fun _ dm => (true, dm)) 0 h.dm hk
  have hat : ({ f with clusters := p.clusters } : FileData).sectorAt fs (p.index * RECORD_SIZE)
      = f.sectorAt fs (p.index * RECORD_SIZE) := by
    rw [FileData.sectorAt, h.same, FileData.sectorAt]
  rw [hat] at hlba h₀
  obtain ⟨dm'', hget, hdm''⟩ :=
    Dm.get_eq (Dm.relaxAny_succeeds hdm block) (f.sectorAt fs (p.index * RECORD_SIZE))
  obtain ⟨hpage, hcluster⟩ :=
    FileData.room_pos fs (f.sectorAt fs (p.index * RECORD_SIZE)) (p.index * RECORD_SIZE)
  have hoffset : p.index * RECORD_SIZE % 2 ^ 32 = p.index * RECORD_SIZE := by
    apply Nat.mod_eq_of_lt
    rw [hsize]
    lia
  have hround := scan_eq (n := RECORD_PER_SECTOR - p.index % RECORD_PER_SECTOR) mode hash content f
    p.list hfits (Eq.refl (p.index / RECORD_PER_SECTOR)) (by lia) (by lia)
  generalize hadvance : advance mode hash (recordAt fs f content)
      (RECORD_PER_SECTOR - p.index % RECORD_PER_SECTOR) p.index p.list = result at hround ⊢
  obtain ⟨stat, index, list⟩ := result
  refine ⟨{ list := list, index := index, clusters := c', dm := dm'' },
    Disk.pageLba (f.sectorAt fs (p.index * RECORD_SIZE)), ⟨hfile, ?_, hdm''⟩, rfl, ?_⟩
  · intro k
    rw [← h.same k]
    apply hsame
  · cases stat with
    | none =>
        refine .inr ⟨rfl, ?_⟩
        rw [stepLoop, if_pos hi, hoffset]
        dsimp only
        rw [hlba, Except.ok_bind]
        dsimp only
        rw [if_neg h₀, Fault.assert_eq_ok (fun _ => by lia), Except.ok_bind, hget]
        dsimp only
        rw [hround]
    | some stat =>
        refine .inl ⟨stat, rfl, ?_⟩
        rw [stepLoop, if_pos hi, hoffset]
        dsimp only
        rw [hlba, Except.ok_bind]
        dsimp only
        rw [if_neg h₀, Fault.assert_eq_ok (fun _ => by lia), Except.ok_bind, hget]
        dsimp only
        rw [hround]
        rfl

/-- A step goes on after a sector. -/
theorem next_sector (hi : i < limit) :
  next mode hash rec limit i l =
    if (advance mode hash rec (RECORD_PER_SECTOR - i % RECORD_PER_SECTOR) i l).1 = none then
      next mode hash rec limit
        (advance mode hash rec (RECORD_PER_SECTOR - i % RECORD_PER_SECTOR) i l).2.1
        (advance mode hash rec (RECORD_PER_SECTOR - i % RECORD_PER_SECTOR) i l).2.2
    else advance mode hash rec (RECORD_PER_SECTOR - i % RECORD_PER_SECTOR) i l
  := by
  have hsplit : sectorEnd limit - i = RECORD_PER_SECTOR - i % RECORD_PER_SECTOR
      + (sectorEnd limit - (i + (RECORD_PER_SECTOR - i % RECORD_PER_SECTOR))) := by
    rw [sectorEnd, RECORD_PER_SECTOR]
    lia
  rw [next, if_pos hi, hsplit, advance_add]
  by_cases hnone :
      (advance mode hash rec (RECORD_PER_SECTOR - i % RECORD_PER_SECTOR) i l).1 = none
  · have hindex := advance_index hnone
    rw [if_pos hnone, if_pos hnone, next, hindex]
    by_cases hmore : i + (RECORD_PER_SECTOR - i % RECORD_PER_SECTOR) < limit
    · rw [if_pos hmore]
    · have hend : sectorEnd limit - (i + (RECORD_PER_SECTOR - i % RECORD_PER_SECTOR)) = 0 := by
        rw [RECORD_PER_SECTOR] at hmore
        rw [sectorEnd, RECORD_PER_SECTOR]
        lia
      rw [if_neg hmore, hend, advance]
  · rw [if_neg hnone, if_neg hnone]

/-- The loop comes to what it comes to in the sequence of the records. -/
theorem stepLoop_eq (mode : UInt8) (hash : ℕ) (content : ℕ → Boot.Bytes)
    (h : Sane debug fs f p) (hfits : SizeFits fs)
    (hcovers : f.Covers fs (limit * RECORD_SIZE)) (hlimit : limit ≤ 2 ^ 27)
    (hn : 0 < n) (hfuel : limit < p.index + n) (block : Option ℕ) :
  ∃ p' block', stepLoop debug fs content limit mode hash n p block
      = .ok ((next mode hash (recordAt fs f content) limit p.index p.list).1.getD .eof, p', block') ∧
    (p'.index, p'.list) = (next mode hash (recordAt fs f content) limit p.index p.list).2 ∧
    Sane debug fs f p'
  := by
  induction n generalizing p block with
  | zero => cases hn
  | succ n ih =>
      by_cases hi : p.index < limit
      · obtain ⟨p', page, h', hp', hround⟩ :=
          stepLoop_succ mode hash content h hfits hcovers hlimit hi n block
        rw [next_sector hi]
        rcases hround with ⟨stat, hstop, hloop⟩ | ⟨hnone, hloop⟩
        · rw [hstop, if_neg (Option.some_ne_none _)]
          exact ⟨p', some page, by rw [hloop, hstop]; rfl, hp', h'⟩
        · have hindex := advance_index hnone
          have hmod := Nat.mod_lt p.index (show 0 < RECORD_PER_SECTOR by decide)
          rw [← hp'] at hindex ⊢
          dsimp only at hindex
          rw [hnone, if_pos rfl, hloop]
          apply ih h' (by lia) (by lia)
      · rw [next, if_neg hi, stepLoop, if_neg hi]
        exact ⟨p, block, rfl, rfl, h⟩

/-- A step of a reader is a step in the sequence of the records. -/
theorem step_eq (mode : UInt8) (hash : ℕ) (content : ℕ → Boot.Bytes)
    (h : Sane debug fs f p) (hfits : SizeFits fs) (hcovers : f.Covers fs validSize)
    (hsize : validSize < 2 ^ 32) :
  ∃ p', step debug fs content validSize mode hash p = .ok
      ((next mode hash (recordAt fs f content) (validSize / RECORD_SIZE) p.index p.list).1.getD .eof,
        p') ∧
    p'.index
      = (next mode hash (recordAt fs f content) (validSize / RECORD_SIZE) p.index p.list).2.1 ∧
    p'.list
      = (if (next mode hash (recordAt fs f content) (validSize / RECORD_SIZE) p.index p.list).1
          = some .found
        then (next mode hash (recordAt fs f content) (validSize / RECORD_SIZE) p.index p.list).2.2
        else []) ∧
    Sane debug fs f p'
  := by
  have hlimit : validSize / RECORD_SIZE < 2 ^ 27 := Nat.div_lt_of_lt_mul hsize
  have hcovers' : f.Covers fs (validSize / RECORD_SIZE * RECORD_SIZE) := by
    intro offset hlt
    apply hcovers
    apply hlt.trans_le (Nat.div_mul_le_self _ _)
  obtain ⟨p', block, hloop, hp', h'⟩ := stepLoop_eq (n := validSize / RECORD_SIZE + 1) mode hash content h
    hfits hcovers' hlimit.le (Nat.succ_pos _) (by omega) none
  generalize hnext : next mode hash (recordAt fs f content) (validSize / RECORD_SIZE) p.index p.list
    = result at hloop hp' ⊢
  obtain ⟨stat, index, list⟩ := result
  obtain ⟨rfl, rfl⟩ := Prod.mk.inj hp'
  refine ⟨{ p' with
    list := if stat.getD .eof = .found then p'.list else []
    dm := p'.dm.relaxAny block }, ?_, rfl, ?_,
    ⟨h'.file, h'.same, Dm.relaxAny_succeeds h'.dm block⟩⟩
  · rw [step, Nat.mod_eq_of_lt (by omega), hloop]
    rfl
  · cases stat with
    | none => rfl
    | some stat => cases stat <;> rfl

end FolderReader

end UOS
