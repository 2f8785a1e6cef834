import Mathlib.Data.UInt
import Cofuos.Disk.Pages
import Cofuos.FileSystem.FileSectors

/-!
# What is written to a file

`exfat::worker_write` of `kernel/filesystem/worker.cpp` copies bytes from the memory of a process to
the sectors of a file. A round of its loop stays in one page of the disk cache and in one cluster.
When whole sectors are written, the cache does not read them, but clears them first. Otherwise the
page is loaded, and as many sectors are marked dirty as the number of bytes would need if they began
at the beginning of a sector.

Between the rounds, other threads may write the pages to the disk and take their slots.
-/

namespace UOS

namespace FileData

open Exfat (SECTOR_SIZE)
open Disk (Pages)

/-- The bytes that a round moves at most. -/
def transferSize (fs : Exfat) (lba offset rest : ℕ) : ℕ :=
  let size := min (Disk.count lba * SECTOR_SIZE - offset % SECTOR_SIZE) rest
  min size (fs.clusterSize - offset % fs.clusterSize)

/-- The number of sectors for so many bytes. -/
def sectorCount (size : ℕ) : ℕ := (size + (SECTOR_SIZE - 1)) / SECTOR_SIZE

/-- Whole sectors are written. -/
def overwrite (offset size : ℕ) : Bool :=
  decide (offset % SECTOR_SIZE = 0) && decide (sectorCount size * SECTOR_SIZE = size)

/-- The bytes of a page from a sector on. -/
def bytesOf (c : Pages Boot.Bytes) (lba : ℕ) : Boot.Bytes := fun x =>
  c.access (lba + x / SECTOR_SIZE) (x % SECTOR_SIZE)

/-- The sectors of a page from one on get their bytes from a buffer. -/
def setBytes (c : Pages Boot.Bytes) (lba : ℕ) (buffer : Boot.Bytes) : Pages Boot.Bytes :=
  c.edit lba fun k sector i => if i < SECTOR_SIZE then buffer (k * SECTOR_SIZE + i) else sector i

/-- The page of a sector as it is before bytes are copied to it. -/
def prepared (c : Pages Boot.Bytes) (lba offset size : ℕ) : Pages Boot.Bytes :=
  let count := sectorCount size
  let c := c.get lba count (overwrite offset size)
  if overwrite offset size = false then c.upgrade lba count else c

/-- The part of a round that moves the bytes. -/
def transfer (c : Pages Boot.Bytes) (mem : UserMemory) (sor lba offset size : ℕ) :
    ℕ × Pages Boot.Bytes :=
  let c := prepared c lba offset size
  let (transferred, buffer) := mem.read sor (bytesOf c lba) (offset % SECTOR_SIZE) size
  (transferred, setBytes c lba buffer)

/-- How far a request to write has come. -/
structure Writing where
  offset : ℕ
  sor : ℕ
  len : ℕ
  iostate : BitVec 16
  validSize : ℕ
  fileSize : ℕ
  fs : Exfat
  clusters : ClusterChain
  dm : Dm
  pages : Pages Boot.Bytes

/-- The loop of `worker_write`. What other threads do to the cache after a round is given by the
number of bytes that have been moved. The number of rounds that `get_lba` takes is given, too. -/
def writeLoop (debug : Bool) (updateChain : ℕ → Dm → Bool × Dm) (rounds : ℕ)
    (others : ℕ → Pages Boot.Bytes → Pages Boot.Bytes) (mem : UserMemory) (length : ℕ) :
    ℕ → Writing → Except Fault Writing
  | 0, _ => .error .outOfFuel
  | n + 1, w =>
    if w.len < length then do
      let (lba, fs, clusters, dm) ←
        getLba debug updateChain true w.offset rounds w.fs w.clusters w.dm
      let w := { w with fs := fs, clusters := clusters, dm := dm }
      if lba = 0 then
        return { w with iostate := w.iostate ||| File.FS_FAILURE }
      else
        let size := transferSize fs lba w.offset (length - w.len)
        Fault.assert debug (size ≠ 0 ∧ lba ≠ 0)
        match w.dm.get lba with
        | (none, dm) =>
          return { w with dm := dm, iostate := w.iostate ||| File.MEDIA_FAILURE }
        | (some page, dm) =>
          let (transferred, pages) := transfer w.pages mem w.sor lba w.offset size
          let offset := w.offset + transferred
          let validSize := max w.validSize offset
          let w := { w with
            offset := offset
            sor := w.sor + transferred
            len := w.len + transferred
            validSize := validSize
            fileSize := max w.fileSize validSize
            dm := dm.relax page
            pages := others (w.len + transferred) pages }
          if transferred ≠ size then
            return { w with iostate := w.iostate ||| File.MEM_FAILURE }
          else
            writeLoop debug updateChain rounds others mem length n w
    else
      return w

/-- `exfat::worker_write`, whose result has the length in `len`. Whether the folder takes the new
sizes is given. -/
def workerWrite (debug : Bool) (updateChain : ℕ → Dm → Bool × Dm) (updateSize : Bool) (rounds : ℕ)
    (others : ℕ → Pages Boot.Bytes → Pages Boot.Bytes) (mem : UserMemory) (buffer length : ℕ)
    (w : Writing) : Except Fault Writing :=
  if buffer = 0 ∨ length = 0 then
    return { w with len := 0, iostate := w.iostate ||| File.MEM_FAILURE }
  else do
    Fault.assert debug (w.validSize ≤ w.fileSize)
    let w' ← writeLoop debug updateChain rounds others mem length (length + 1)
      { w with sor := buffer, len := 0 }
    if (w'.validSize ≠ w.validSize ∨ w'.fileSize ≠ w.fileSize) ∧ updateSize = false then
      return { w' with iostate := w'.iostate ||| File.FS_FAILURE }
    else
      return w'

/-! ### Preparing a page -/

variable {c c' : Pages Boot.Bytes} {mem : UserMemory} {sor lba offset size l i : ℕ} {v : UInt8}

/-- So many bytes from a sector on lie in its page. -/
theorem pageLba_add {d : ℕ} (hd : d < Disk.count lba) :
  Disk.pageLba (lba + d) = Disk.pageLba lba
  := by
  rw [Disk.count] at hd
  rw [Disk.pageLba, Disk.pageLba]
  split_ifs at hd with htop <;> lia

/-- The sectors that are marked lie in the page. -/
theorem pageLba_of_marked (hroom : offset % SECTOR_SIZE + size ≤ Disk.count lba * SECTOR_SIZE)
    (hl : lba ≤ l ∧ l < lba + sectorCount size) :
  Disk.pageLba l = Disk.pageLba lba
  := by
  rw [sectorCount, SECTOR_SIZE] at hl
  rw [SECTOR_SIZE] at hroom
  rw [show l = lba + (l - lba) by lia]
  apply pageLba_add
  lia

/-- Preparing a page keeps the cache clean, and clears the sectors that are written as a whole. -/
theorem clean_prepared (h : c.Clean)
    (hroom : offset % SECTOR_SIZE + size ≤ Disk.count lba * SECTOR_SIZE) :
  (prepared c lba offset size).Clean ∧ ∀ l, (prepared c lba offset size).settled l =
    if overwrite offset size = true ∧ lba ≤ l ∧ l < lba + sectorCount size then 0
    else c.settled l
  := by
  cases hover : overwrite offset size with
  | true =>
      have hp : prepared c lba offset size = c.store lba (sectorCount size) := by
        rw [prepared, hover]
        rfl
      have hsettled : ∀ l, (c.store lba (sectorCount size)).settled l =
          if lba ≤ l ∧ l < lba + sectorCount size then 0 else c.settled l := by
        intro l
        simp only [Pages.settled, Pages.store]
        by_cases hl : lba ≤ l ∧ l < lba + sectorCount size
        · simp [hl]
        · simp [hl]
      rw [hp]
      refine ⟨?_, by simpa using hsettled⟩
      apply Pages.clean_of_access_eq
      · intro l hdirty
        simp only [Pages.store, Bool.or_eq_true] at hdirty ⊢
        exact hdirty.imp (h.valid l) id
      · intro l hvalid
        rw [hsettled]
        simp only [Pages.store, Bool.or_eq_true, decide_eq_true_eq] at hvalid ⊢
        split_ifs with hl
        · rfl
        · exact h.access_eq (hvalid.resolve_right hl)
  | false =>
      have hp : prepared c lba offset size = (c.load lba).upgrade lba (sectorCount size) := by
        rw [prepared, hover]
        rfl
      have hload := h.load lba
      have hsettled : ∀ l, ((c.load lba).upgrade lba (sectorCount size)).settled l
          = c.settled l := by
        intro l
        rw [← Pages.settled_load c lba]
        by_cases hl : lba ≤ l ∧ l < lba + sectorCount size
        · rw [← hload.access_eq (Pages.valid_load (pageLba_of_marked hroom hl))]
          simp [Pages.settled, Pages.upgrade, hl]
        · simp [Pages.settled, Pages.upgrade, hl]
      rw [hp]
      refine ⟨?_, fun l => by rw [hsettled]; simp⟩
      apply Pages.clean_of_access_eq
      · intro l hdirty
        simp only [Pages.upgrade, Bool.or_eq_true, decide_eq_true_eq] at hdirty ⊢
        exact hdirty.elim (hload.valid l) fun hl => Pages.valid_load (pageLba_of_marked hroom hl)
      · intro l hvalid
        rw [hsettled, ← Pages.settled_load c lba]
        exact hload.access_eq hvalid

/-- The sectors that are marked are dirty. -/
theorem dirty_prepared (hl : lba ≤ l ∧ l < lba + sectorCount size) :
  (prepared c lba offset size).dirty l = true
  := by
  cases hover : overwrite offset size <;>
    simp [prepared, hover, Pages.get, Pages.store, Pages.upgrade, hl]

/-! ### Copying to a page -/

/-- A byte is found in the cache, and will be on the disk in the end. -/
def Shows (c : Pages Boot.Bytes) (l i : ℕ) (v : UInt8) : Prop :=
  c.view l i = v ∧ c.settled l i = v

/-- What is shown is shown whatever other threads do. -/
theorem Shows.background (h : Shows c l i v) (hb : Pages.Background c c') : Shows c' l i v := by
  refine ⟨?_, by rw [hb.settled_eq]; exact h.2⟩
  rcases hb.view_eq_or l with hview | hview
  · rw [hview]
    exact h.1
  · rw [hview]
    exact h.2

theorem Clean.shows (h : c.Clean) (l i : ℕ) : Shows c l i (c.settled l i) := by
  refine ⟨?_, rfl⟩
  rw [h.view_eq]

/-- The bytes of a page to which so many bytes are copied. -/
structure Copied (lba off n l i : ℕ) : Prop where
  after : lba ≤ l
  page : Disk.pageLba l = Disk.pageLba lba
  le : off ≤ (l - lba) * SECTOR_SIZE + i
  lt : (l - lba) * SECTOR_SIZE + i < off + n

/-- The number of bytes that are moved. -/
theorem transfer_fst (c : Pages Boot.Bytes) (mem : UserMemory) (sor lba offset size : ℕ) :
  (transfer c mem sor lba offset size).1 = UserMemory.accepted mem.pageUser sor size
  := by
  rw [transfer]
  simp only [UserMemory.read_eq]

/-- The bytes of the page after the copying. -/
theorem access_transfer (hi : i < SECTOR_SIZE) :
  (Copied lba (offset % SECTOR_SIZE) (UserMemory.accepted mem.pageUser sor size) l i →
    (transfer c mem sor lba offset size).2.access l i
      = mem.byte (sor + ((l - lba) * SECTOR_SIZE + i - offset % SECTOR_SIZE))) ∧
  (¬ Copied lba (offset % SECTOR_SIZE) (UserMemory.accepted mem.pageUser sor size) l i →
    (transfer c mem sor lba offset size).2.access l i = (prepared c lba offset size).access l i)
  := by
  simp only [transfer, UserMemory.read_eq, setBytes, Pages.edit]
  constructor
  · rintro ⟨hafter, hpage, hle, hlt⟩
    rw [if_pos ⟨hafter, hpage⟩, if_pos hi, Boot.Bytes.fill, if_pos ⟨hle, hlt⟩]
  · intro hnot
    split_ifs with hl
    · apply (if_pos hi).trans
      rw [Boot.Bytes.fill_of_not_mem]
      · rw [bytesOf, Nat.mul_comm, Nat.mul_add_div (by decide), Nat.mul_add_mod,
          Nat.div_eq_of_lt hi, Nat.mod_eq_of_lt hi, Nat.add_zero, Nat.add_sub_cancel' hl.1]
      · rintro ⟨hle, hlt⟩
        exact hnot ⟨hl.1, hl.2, hle, hlt⟩
    · rfl

/-- A sector to which nothing is copied does not change. -/
theorem access_transfer_sector
    (hnot : ∀ i < SECTOR_SIZE, ¬ Copied lba (offset % SECTOR_SIZE)
      (UserMemory.accepted mem.pageUser sor size) l i) :
  (transfer c mem sor lba offset size).2.access l = (prepared c lba offset size).access l
  := by
  funext i
  by_cases hi : i < SECTOR_SIZE
  · exact (access_transfer hi).2 (hnot i hi)
  · simp only [transfer, UserMemory.read_eq, setBytes, Pages.edit]
    split_ifs
    · exact if_neg hi
    · rfl

/-- Bytes that are not copied are as in the prepared page. -/
theorem shows_of_not_copied (mem : UserMemory) (sor : ℕ) (h : c.Clean)
    (hroom : offset % SECTOR_SIZE + size ≤ Disk.count lba * SECTOR_SIZE) (hi : i < SECTOR_SIZE)
    (hnot : ¬ Copied lba (offset % SECTOR_SIZE) (UserMemory.accepted mem.pageUser sor size) l i) :
  Shows (transfer c mem sor lba offset size).2 l i ((prepared c lba offset size).settled l i)
  := by
  have haccess := (access_transfer (c := c) hi).2 hnot
  obtain ⟨hview, hsettled⟩ := Clean.shows (clean_prepared h hroom).1 l i
  constructor
  · rw [← hview, Pages.view, Pages.view]
    change (if (prepared c lba offset size).valid l = true then _
      else (prepared c lba offset size).disk l) i = _
    split_ifs
    · exact haccess
    · rfl
  · rw [Pages.settled, Pages.settled]
    change (if (prepared c lba offset size).dirty l = true then _
      else (prepared c lba offset size).disk l) i = _
    split_ifs
    · exact haccess
    · rfl

/-- Bytes that are copied to a sector that is dirty are there to stay. -/
theorem shows_of_copied (mem : UserMemory) (sor : ℕ) (h : c.Clean)
    (hroom : offset % SECTOR_SIZE + size ≤ Disk.count lba * SECTOR_SIZE) (hi : i < SECTOR_SIZE)
    (hcopied : Copied lba (offset % SECTOR_SIZE) (UserMemory.accepted mem.pageUser sor size) l i)
    (hdirty : (prepared c lba offset size).dirty l = true) :
  Shows (transfer c mem sor lba offset size).2 l i
    (mem.byte (sor + ((l - lba) * SECTOR_SIZE + i - offset % SECTOR_SIZE)))
  := by
  have haccess := (access_transfer (c := c) hi).1 hcopied
  have hvalid := (clean_prepared h hroom).1.valid l hdirty
  constructor
  · rw [Pages.view]
    change (if (prepared c lba offset size).valid l = true then
      (transfer c mem sor lba offset size).2.access l else _ : Boot.Bytes) i = _
    rw [if_pos hvalid]
    exact haccess
  · rw [Pages.settled]
    change (if (prepared c lba offset size).dirty l = true then
      (transfer c mem sor lba offset size).2.access l else _ : Boot.Bytes) i = _
    rw [if_pos hdirty]
    exact haccess

/-- Bytes that are copied to a sector that is not dirty do not get to the disk. -/
theorem settled_of_not_dirty (hdirty : (prepared c lba offset size).dirty l = false) :
  (transfer c mem sor lba offset size).2.settled l = (prepared c lba offset size).settled l
  := by
  rw [Pages.settled, Pages.settled]
  change (if (prepared c lba offset size).dirty l = true then _ else _) = _
  rw [if_neg (by rw [hdirty]; decide), if_neg (by rw [hdirty]; decide)]
  rfl

/-- A byte that is copied is found as it has been copied, or as it will be on the disk. -/
theorem view_of_copied (hi : i < SECTOR_SIZE)
    (hcopied : Copied lba (offset % SECTOR_SIZE) (UserMemory.accepted mem.pageUser sor size) l i)
    (hdirty : (prepared c lba offset size).dirty l = false) :
  (transfer c mem sor lba offset size).2.view l i
      = mem.byte (sor + ((l - lba) * SECTOR_SIZE + i - offset % SECTOR_SIZE)) ∨
    (transfer c mem sor lba offset size).2.view l i
      = (transfer c mem sor lba offset size).2.settled l i
  := by
  have haccess := (access_transfer (c := c) hi).1 hcopied
  have hnot : ¬ (transfer c mem sor lba offset size).2.dirty l = true := by
    rw [show (transfer c mem sor lba offset size).2.dirty l = false from hdirty]
    decide
  rw [Pages.view, Pages.settled, if_neg hnot]
  by_cases hvalid : (transfer c mem sor lba offset size).2.valid l = true
  · rw [if_pos hvalid]
    exact .inl haccess
  · rw [if_neg hvalid]
    exact .inr rfl

/-- The cache is clean after the copying, if all sectors to which bytes are copied are dirty. -/
theorem clean_transfer (h : c.Clean)
    (hroom : offset % SECTOR_SIZE + size ≤ Disk.count lba * SECTOR_SIZE)
    (hdirty : ∀ l i, i < SECTOR_SIZE → Copied lba (offset % SECTOR_SIZE)
      (UserMemory.accepted mem.pageUser sor size) l i →
      (prepared c lba offset size).dirty l = true) :
  (transfer c mem sor lba offset size).2.Clean
  := by
  have hclean := (clean_prepared (c := c) h hroom).1
  refine ⟨hclean.valid, ?_⟩
  intro l hvalid hnot
  rw [access_transfer_sector]
  · exact hclean.clean l hvalid hnot
  · intro i hi hcopied
    have := hdirty l i hi hcopied
    rw [show (prepared c lba offset size).dirty l = false from hnot] at this
    cases this

/-! ### The rounds of the loop -/

variable {debug : Bool} {updateChain : ℕ → Dm → Bool × Dm} {rounds : ℕ}
  {others : ℕ → Pages Boot.Bytes → Pages Boot.Bytes} {length n p : ℕ} {w w' w₀ r : Writing}

/-- The file with the clusters that a request has come to. -/
def Writing.file (w : Writing) : FileData := extended w.fs w.clusters

/-- The number of bytes that a round moves. -/
def Writing.accepts (w : Writing) (mem : UserMemory) (size : ℕ) : ℕ :=
  UserMemory.accepted mem.pageUser w.sor size

/-- A round that moves bytes. -/
structure Round (debug : Bool) (updateChain : ℕ → Dm → Bool × Dm) (rounds : ℕ) (mem : UserMemory)
    (length : ℕ) (w w' : Writing) (lba size : ℕ) : Prop where
  lt : w.len < length
  looked : ∃ dm, getLba debug updateChain true w.offset rounds w.fs w.clusters w.dm
    = .ok (lba, w'.fs, w'.clusters, dm)
  found : lba ≠ 0
  size_eq : size = transferSize w'.fs lba w.offset (length - w.len)
  offset : w'.offset = w.offset + w.accepts mem size
  sor : w'.sor = w.sor + w.accepts mem size
  len : w'.len = w.len + w.accepts mem size
  validSize : w'.validSize = max w.validSize w'.offset
  fileSize : w'.fileSize = max w.fileSize w'.validSize
  iostate : w'.iostate = if w.accepts mem size = size then w.iostate
    else w.iostate ||| File.MEM_FAILURE
  pages : Pages.Background (transfer w.pages mem w.sor lba w.offset size).2 w'.pages

/-- Neither the file system nor the disk has failed. -/
def Writing.Undisturbed (w : Writing) : Prop :=
  w.iostate &&& (File.FS_FAILURE ||| File.MEDIA_FAILURE) = 0

/-- A failure of the file system or of the disk is noticed. -/
theorem or_failure_ne {b : BitVec 16} (hb : b = File.FS_FAILURE ∨ b = File.MEDIA_FAILURE)
    (x : BitVec 16) :
  (x ||| b) &&& (File.FS_FAILURE ||| File.MEDIA_FAILURE) ≠ 0
  := by
  intro h
  rcases hb with rfl | rfl
  · have hbit := congrArg (fun y => y.getLsbD 4) h
    simp [File.FS_FAILURE, File.MEDIA_FAILURE] at hbit
  · have hbit := congrArg (fun y => y.getLsbD 5) h
    simp [File.FS_FAILURE, File.MEDIA_FAILURE] at hbit

/-- A step of the loop ends it, fails, or is a round that moves bytes. -/
theorem writeLoop_cases (hothers : ∀ n c, Pages.Background c (others n c))
    (h : writeLoop debug updateChain rounds others mem length (n + 1) w = .ok r)
    (hr : r.Undisturbed) :
  (length ≤ w.len ∧ r = w) ∨
    ∃ w' lba size, Round debug updateChain rounds mem length w w' lba size ∧
      (w.accepts mem size ≠ size ∧ r = w' ∨ w.accepts mem size = size ∧
        writeLoop debug updateChain rounds others mem length n w' = .ok r)
  := by
  rw [writeLoop] at h
  by_cases hlt : w.len < length
  · right
    rw [if_pos hlt, Except.bind_eq_ok_iff] at h
    obtain ⟨⟨lba, fs, clusters, dm⟩, hlba, h⟩ := h
    dsimp only at h
    by_cases h₀ : lba = 0
    · rw [if_pos h₀] at h
      cases h
      apply absurd hr (or_failure_ne (.inl rfl) _)
    · rw [if_neg h₀, Except.bind_eq_ok_iff] at h
      obtain ⟨-, -, h⟩ := h
      cases hget : dm.get lba with
      | mk page dm' =>
          rw [hget] at h
          cases page with
          | none =>
              cases h
              apply absurd hr (or_failure_ne (.inr rfl) _)
          | some page =>
              dsimp only at h
              have hmoved := transfer_fst w.pages mem w.sor lba w.offset
                (transferSize fs lba w.offset (length - w.len))
              by_cases hall : w.accepts mem (transferSize fs lba w.offset (length - w.len))
                  = transferSize fs lba w.offset (length - w.len)
              · rw [if_neg (by rw [hmoved]; exact not_not.2 hall)] at h
                refine ⟨_, lba, _, ⟨hlt, ⟨dm, hlba⟩, h₀, rfl, ?_, ?_, ?_, rfl, rfl, ?_, hothers _ _⟩,
                  .inr ⟨hall, h⟩⟩
                · exact congrArg (w.offset + ·) hmoved
                · exact congrArg (w.sor + ·) hmoved
                · exact congrArg (w.len + ·) hmoved
                · exact (if_pos hall).symm
              · rw [if_pos (by rw [hmoved]; exact hall)] at h
                cases h
                refine ⟨_, lba, _, ⟨hlt, ⟨dm, hlba⟩, h₀, rfl, ?_, ?_, ?_, rfl, rfl, ?_, hothers _ _⟩,
                  .inl ⟨hall, rfl⟩⟩
                · exact congrArg (w.offset + ·) hmoved
                · exact congrArg (w.sor + ·) hmoved
                · exact congrArg (w.len + ·) hmoved
                · exact (if_neg hall).symm
  · rw [if_neg hlt] at h
    cases h
    exact .inl ⟨not_lt.1 hlt, rfl⟩

/-! ### The bytes of a round -/

variable {fs : Exfat} {f : FileData} {rest : ℕ}

/-- A round stays in the page and in the cluster. -/
theorem transferSize_spec (fs : Exfat) (lba offset rest : ℕ) (h : 0 < rest) :
  0 < transferSize fs lba offset rest ∧ transferSize fs lba offset rest ≤ rest ∧
    transferSize fs lba offset rest ≤ fs.clusterSize - offset % fs.clusterSize ∧
    offset % SECTOR_SIZE + transferSize fs lba offset rest ≤ Disk.count lba * SECTOR_SIZE
  := by
  obtain ⟨hpage, hcluster⟩ := room_pos fs lba offset
  rw [transferSize]
  lia

/-- The sectors to which bytes are copied are sectors of the file. -/
theorem sectors_of_copied (hfits : SizeFits fs)
    (hlba : f.sectors fs (offset / SECTOR_SIZE) = some lba)
    (hcluster : n ≤ fs.clusterSize - offset % fs.clusterSize) {d : ℕ}
    (hd : d * SECTOR_SIZE < offset % SECTOR_SIZE + n) :
  f.sectors fs (offset / SECTOR_SIZE + d) = some (lba + d)
  := by
  have hper := perCluster_mul hfits
  have hmod := mod_perCluster hfits offset
  have hsector : offset % fs.clusterSize % SECTOR_SIZE = offset % SECTOR_SIZE :=
    Nat.mod_mod_of_dvd _ (sector_dvd_cluster hfits)
  have hlt := Nat.mod_lt offset (show 0 < fs.clusterSize from Nat.two_pow_pos _)
  apply sectors_add hlba
  rw [hmod]
  rw [SECTOR_SIZE] at *
  lia

/-- The bytes of a file that are copied to a page follow each other. -/
theorem copied_iff (hfile : Consistent debug fs f) (hfits : SizeFits fs)
    (hlba : f.sectors fs (offset / SECTOR_SIZE) = some lba)
    (hcluster : n ≤ fs.clusterSize - offset % fs.clusterSize)
    (hpage : offset % SECTOR_SIZE + n ≤ Disk.count lba * SECTOR_SIZE)
    (hp : f.sectors fs (p / SECTOR_SIZE) = some l) :
  (Copied lba (offset % SECTOR_SIZE) n l (p % SECTOR_SIZE) ↔ offset ≤ p ∧ p < offset + n) ∧
    (offset ≤ p → p < offset + n →
      (l - lba) * SECTOR_SIZE + p % SECTOR_SIZE - offset % SECTOR_SIZE = p - offset)
  := by
  have hfrom : offset ≤ p → p < offset + n →
      l = lba + (p / SECTOR_SIZE - offset / SECTOR_SIZE) := by
    intro hle hlt
    have hnext := sectors_of_copied (d := p / SECTOR_SIZE - offset / SECTOR_SIZE) hfits hlba
      hcluster (by rw [SECTOR_SIZE]; lia)
    rw [Nat.add_sub_cancel' (Nat.div_le_div_right hle), hp] at hnext
    exact Option.some.inj hnext
  refine ⟨⟨?_, ?_⟩, ?_⟩
  · rintro ⟨hafter, -, hle, hlt⟩
    have hnext := sectors_of_copied (d := l - lba) hfits hlba hcluster (by lia)
    rw [Nat.add_sub_cancel' hafter] at hnext
    have hsame := hfile.sectors_inj hfits hp hnext
    rw [SECTOR_SIZE] at *
    lia
  · rintro ⟨hle, hlt⟩
    have hl := hfrom hle hlt
    refine ⟨by lia, ?_, ?_, ?_⟩
    · rw [hl]
      apply pageLba_add
      rw [SECTOR_SIZE] at hpage ⊢
      lia
    · rw [hl, SECTOR_SIZE]
      lia
    · rw [hl, SECTOR_SIZE]
      lia
  · intro hle hlt
    rw [hfrom hle hlt, SECTOR_SIZE]
    lia

/-- Whole sectors that are cleared are those of the bytes of the round. -/
theorem overwritten_iff (hover : overwrite offset size = true)
    (hpage : offset % SECTOR_SIZE + size ≤ Disk.count lba * SECTOR_SIZE) (hi : i < SECTOR_SIZE) :
  (lba ≤ l ∧ l < lba + sectorCount size) ↔ Copied lba (offset % SECTOR_SIZE) size l i
  := by
  rw [overwrite, Bool.and_eq_true, decide_eq_true_eq, decide_eq_true_eq] at hover
  constructor
  · intro hl
    refine ⟨hl.1, pageLba_of_marked hpage hl, by lia, ?_⟩
    rw [SECTOR_SIZE] at *
    lia
  · rintro ⟨hafter, -, -, hlt⟩
    rw [SECTOR_SIZE] at *
    lia

/-- What becomes of the bytes of a file in a round. -/
theorem Round.shows (h : Round debug updateChain rounds mem length w w' lba size)
    (hclean : w.pages.Clean) (hfile : Consistent debug w'.fs w'.file) (hfits : SizeFits w'.fs)
    (hlba : w'.file.sectors w'.fs (w.offset / SECTOR_SIZE) = some lba)
    (hp : w'.file.sectors w'.fs (p / SECTOR_SIZE) = some l) :
  (w.offset ≤ p → p < w.offset + w.accepts mem size →
    (prepared w.pages lba w.offset size).dirty l = true →
    Shows w'.pages l (p % SECTOR_SIZE) (mem.byte (w.sor + (p - w.offset)))) ∧
  (w.offset ≤ p → p < w.offset + w.accepts mem size →
    (prepared w.pages lba w.offset size).dirty l = false →
    w'.pages.settled l (p % SECTOR_SIZE) = w.pages.settled l (p % SECTOR_SIZE) ∧
      (w'.pages.view l (p % SECTOR_SIZE) = mem.byte (w.sor + (p - w.offset)) ∨
        w'.pages.view l (p % SECTOR_SIZE) = w'.pages.settled l (p % SECTOR_SIZE))) ∧
  (¬ (w.offset ≤ p ∧ p < w.offset + w.accepts mem size) →
    Shows w'.pages l (p % SECTOR_SIZE)
      (if overwrite w.offset size = true ∧ w.offset ≤ p ∧ p < w.offset + size then 0
      else w.pages.settled l (p % SECTOR_SIZE)))
  := by
  have hi := Nat.mod_lt p (show 0 < SECTOR_SIZE by decide)
  obtain ⟨-, -, hcluster, hpage⟩ :=
    transferSize_spec w'.fs lba w.offset (length - w.len) (Nat.sub_pos_of_lt h.lt)
  rw [← h.size_eq] at hcluster hpage
  have haccepts : w.accepts mem size ≤ size := UserMemory.accepted_le _ _ _
  obtain ⟨hcopied, hindex⟩ := copied_iff (n := w.accepts mem size) hfile hfits hlba
    (haccepts.trans hcluster) (by lia) hp
  obtain ⟨hwhole, -⟩ := copied_iff (n := size) hfile hfits hlba hcluster hpage hp
  refine ⟨?_, ?_, ?_⟩
  · intro hle hlt hdirty
    have hshows := shows_of_copied mem w.sor hclean hpage hi
      (hcopied.2 ⟨hle, hlt⟩) hdirty
    rw [hindex hle hlt] at hshows
    exact hshows.background h.pages
  · intro hle hlt hdirty
    constructor
    · rw [h.pages.settled_eq, settled_of_not_dirty hdirty, (clean_prepared hclean hpage).2, if_neg]
      rintro ⟨-, hl⟩
      rw [dirty_prepared hl] at hdirty
      cases hdirty
    · have hview := view_of_copied (c := w.pages) hi (hcopied.2 ⟨hle, hlt⟩) hdirty
      rw [hindex hle hlt] at hview
      rw [h.pages.settled_eq]
      rcases h.pages.view_eq_or l with heq | heq
      · rw [heq]
        exact hview
      · rw [heq]
        exact .inr rfl
  · intro hnot
    have hshows := shows_of_not_copied mem w.sor hclean hpage hi
      (fun hc => hnot (hcopied.1 hc))
    rw [(clean_prepared hclean hpage).2] at hshows
    convert hshows.background h.pages using 1
    by_cases hover : overwrite w.offset size = true
    · simp only [hover, true_and, overwritten_iff hover hpage hi, hwhole]
      split_ifs <;> rfl
    · rw [if_neg (fun hwhole => hover hwhole.1), if_neg (fun hwhole => hover hwhole.1)]

/-- A sector that is not one of the file does not change in a round. -/
theorem Round.shows_rest (h : Round debug updateChain rounds mem length w w' lba size)
    (hclean : w.pages.Clean) (hfits : SizeFits w'.fs)
    (hlba : w'.file.sectors w'.fs (w.offset / SECTOR_SIZE) = some lba)
    (hl : ∀ j, w'.file.sectors w'.fs j ≠ some l) (hi : i < SECTOR_SIZE) :
  Shows w'.pages l i (w.pages.settled l i)
  := by
  obtain ⟨-, -, hcluster, hpage⟩ :=
    transferSize_spec w'.fs lba w.offset (length - w.len) (Nat.sub_pos_of_lt h.lt)
  rw [← h.size_eq] at hcluster hpage
  have hnot : ∀ n ≤ size, ¬ Copied lba (w.offset % SECTOR_SIZE) n l i := by
    rintro n hn ⟨hafter, -, -, hlt⟩
    apply hl (w.offset / SECTOR_SIZE + (l - lba))
    rw [sectors_of_copied (n := size) hfits hlba hcluster (by lia), Nat.add_sub_cancel' hafter]
  have hshows := shows_of_not_copied mem w.sor hclean hpage hi
    (hnot _ (UserMemory.accepted_le _ _ _))
  rw [(clean_prepared hclean hpage).2, if_neg] at hshows
  · exact hshows.background h.pages
  · rintro ⟨hover, hwhole⟩
    exact hnot size le_rfl ((overwritten_iff hover hpage hi).1 hwhole)

/-- More sectors get bytes than are marked dirty. -/
def Spills (offset size : ℕ) : Prop := sectorCount size * SECTOR_SIZE < offset % SECTOR_SIZE + size

/-- The cache is clean after a round in which the sectors that get bytes are marked dirty. -/
theorem Round.clean (h : Round debug updateChain rounds mem length w w' lba size)
    (hclean : w.pages.Clean) (hspills : ¬ Spills w.offset size) :
  w'.pages.Clean
  := by
  obtain ⟨-, -, -, hpage⟩ :=
    transferSize_spec w'.fs lba w.offset (length - w.len) (Nat.sub_pos_of_lt h.lt)
  rw [← h.size_eq] at hpage
  apply Pages.Clean.background _ h.pages
  apply clean_transfer hclean hpage
  rintro l i hi ⟨hafter, -, -, hlt⟩
  have haccepts := UserMemory.accepted_le mem.pageUser w.sor size
  rw [Spills, not_lt] at hspills
  apply dirty_prepared
  rw [SECTOR_SIZE] at *
  lia

end FileData

end UOS
