import Cofuos.FileSystem.WriteFile

/-!
# Files after a write

In every round of a request to write, the bytes that have been moved are those of the process, and
all other bytes of the file are as before, unless more sectors get bytes than are marked dirty. That
happens in the first round only, when the request begins in the middle of a sector and is carried out
in one round.
-/

namespace UOS

namespace FileData

open Exfat (SECTOR_SIZE)
open Disk (Pages)

variable {debug : Bool} {updateChain : ℕ → Dm → Bool × Dm} {updateSize : Bool} {rounds : ℕ}
  {others : ℕ → Pages Boot.Bytes → Pages Boot.Bytes} {mem : UserMemory}
  {buffer length n p i l lba size : ℕ} {w w' w₀ r : Writing} {f : FileData}

/-- A round begins at the beginning of a cluster or of a page. -/
def Starts (w : Writing) : Prop :=
  w.offset % w.fs.clusterSize = 0 ∨
    ∃ l, w.file.sectors w.fs (w.offset / SECTOR_SIZE) = some l ∧ l % 8 = 0 ∧
      w.offset % SECTOR_SIZE = 0

/-- So many bytes have been written, and all of them are marked dirty or on the disk. -/
structure Written (debug : Bool) (mem : UserMemory) (buffer length : ℕ) (w₀ w : Writing) : Prop where
  offset : w.offset = w₀.offset + w.len
  sor : w.sor = buffer + w.len
  le : w.len ≤ length
  fits : SizeFits w.fs
  file : Consistent debug w.fs w.file
  longer : Extends w₀.fs w₀.file w.fs w.file
  near : ∀ p < w₀.offset + length, Near w.fs w.clusters p
  clean : w.pages.Clean
  mapped : ∀ p, w₀.offset ≤ p → p < w.offset →
    ∃ l, w.file.sectors w.fs (p / SECTOR_SIZE) = some l
  bytes : ∀ p l, w.file.sectors w.fs (p / SECTOR_SIZE) = some l →
    w.pages.settled l (p % SECTOR_SIZE) = if w₀.offset ≤ p ∧ p < w.offset
      then mem.byte (buffer + (p - w₀.offset)) else w₀.pages.settled l (p % SECTOR_SIZE)
  rest : ∀ l, (∀ j, w.file.sectors w.fs j ≠ some l) → ∀ i < SECTOR_SIZE,
    w.pages.settled l i = w₀.pages.settled l i
  starts : w.len = 0 ∨ length ≤ w.len ∨ Starts w
  validSize : w.validSize = if w.len = 0 then w₀.validSize else max w₀.validSize w.offset
  fileSize : w.fileSize = if w.len = 0 then w₀.fileSize else max w₀.fileSize w.validSize
  iostate : w.iostate = w₀.iostate
  accepted : UserMemory.accepted mem.pageUser buffer w.len = w.len

/-! ### Finding the sector of a round -/

/-- What a round finds out about the file. -/
theorem Written.found (h : Written debug mem buffer length w₀ w)
    (hround : Round debug updateChain rounds mem length w w' lba size) :
  Consistent debug w'.fs w'.file ∧ Extends w.fs w.file w'.fs w'.file ∧
    w'.file.sectors w'.fs (w.offset / SECTOR_SIZE) = some lba ∧
    ∀ p < w₀.offset + length, Near w'.fs w'.clusters p
  := by
  obtain ⟨dm, hlba⟩ := hround.looked
  have hlt := hround.lt
  have hoffset := h.offset
  obtain ⟨hfile, hextends, hsector, hlinear, hfirst⟩ :=
    getLba_expand h.file h.fits (h.near w.offset (by omega)) hlba hround.found
  refine ⟨hfile, hextends, hsector, ?_⟩
  intro p hp
  have hnear := h.near p hp
  rw [Near] at hnear ⊢
  rw [hlinear, hextends.clusterSize_eq]
  split_ifs at hnear ⊢ with hl
  · rwa [hfirst hl]
  · exact hnear

/-- Sectors get bytes that are not marked dirty only in a round that carries out all of the
request. -/
theorem Written.spills (h : Written debug mem buffer length w₀ w)
    (hround : Round debug updateChain rounds mem length w w' lba size)
    (hspills : Spills w.offset size) :
  w.len = 0 ∧ size = length
  := by
  have hlt := hround.lt
  obtain ⟨-, hextends, -, -⟩ := h.found hround
  have hfits := hextends.sizeFits h.fits
  obtain ⟨m, hm⟩ := sector_dvd_cluster hfits
  have hmod : w.offset % w'.fs.clusterSize % SECTOR_SIZE = w.offset % SECTOR_SIZE :=
    Nat.mod_mod_of_dvd _ (sector_dvd_cluster hfits)
  have hless := Nat.mod_lt w.offset (show 0 < w'.fs.clusterSize from Nat.two_pow_pos _)
  obtain ⟨hpage, hcluster⟩ := room_pos w'.fs lba w.offset
  have hsize := hround.size_eq
  rw [transferSize] at hsize
  rw [Spills, sectorCount] at hspills
  have hzero : w.len = 0 := by
    rcases h.starts with hstart | hend | hstart
    · exact hstart
    · omega
    · exfalso
      have hoff : w.offset % SECTOR_SIZE = 0 := by
        rcases hstart with hstart | ⟨-, -, -, hstart⟩
        · rw [← hextends.clusterSize_eq] at hstart
          rw [← hmod, hstart, Nat.zero_mod]
        · exact hstart
      rw [SECTOR_SIZE] at *
      lia
  refine ⟨hzero, ?_⟩
  rw [hzero, Nat.sub_zero] at hsize
  rw [SECTOR_SIZE] at *
  generalize Disk.count lba = count at *
  lia

/-! ### One round -/

/-- Where the next round begins, after one that has moved all of its bytes. -/
theorem Written.starts_next (h : Written debug mem buffer length w₀ w)
    (hround : Round debug updateChain rounds mem length w w' lba size)
    (hall : w.accepts mem size = size) :
  w'.len = 0 ∨ length ≤ w'.len ∨ Starts w'
  := by
  obtain ⟨-, hextends, hsector, -⟩ := h.found hround
  have hfits := hextends.sizeFits h.fits
  have hlt := hround.lt
  obtain ⟨hpage, hcluster⟩ := room_pos w'.fs lba w.offset
  have hless := Nat.mod_lt w.offset (show 0 < w'.fs.clusterSize from Nat.two_pow_pos _)
  have hsize := hround.size_eq
  have hlen := hround.len
  have hoffset := hround.offset
  rw [hall] at hlen hoffset
  rw [transferSize] at hsize
  by_cases hend : length ≤ w'.len
  · exact .inr (.inl hend)
  right
  right
  by_cases hfull : size = w'.fs.clusterSize - w.offset % w'.fs.clusterSize
  · left
    have hdiv := Nat.div_add_mod' w.offset w'.fs.clusterSize
    rw [hoffset, show w.offset + size = (w.offset / w'.fs.clusterSize + 1) * w'.fs.clusterSize by
      rw [Nat.succ_mul]
      lia]
    apply Nat.mul_mod_left
  · right
    have hroom : size = Disk.count lba * SECTOR_SIZE - w.offset % SECTOR_SIZE := by lia
    have hnext := sectors_add (d := Disk.count lba) hsector (by
      rw [mod_perCluster hfits]
      have hper := perCluster_mul hfits
      have hmod : w.offset % w'.fs.clusterSize % SECTOR_SIZE = w.offset % SECTOR_SIZE :=
        Nat.mod_mod_of_dvd _ (sector_dvd_cluster hfits)
      rw [SECTOR_SIZE] at *
      lia)
    have hdiv : w'.offset / SECTOR_SIZE = w.offset / SECTOR_SIZE + Disk.count lba := by
      rw [SECTOR_SIZE] at *
      lia
    refine ⟨_, by rw [hdiv]; exact hnext, ?_, ?_⟩
    · rw [Disk.count]
      split_ifs <;> lia
    · rw [SECTOR_SIZE] at *
      lia

/-- A round that moves all of its bytes to sectors that are marked dirty. -/
theorem Written.round (h : Written debug mem buffer length w₀ w)
    (hround : Round debug updateChain rounds mem length w w' lba size)
    (hall : w.accepts mem size = size) (hspills : ¬ Spills w.offset size) :
  Written debug mem buffer length w₀ w'
  := by
  obtain ⟨hfile, hextends, hsector, hnear⟩ := h.found hround
  have hfits := hextends.sizeFits h.fits
  obtain ⟨hpos, hrest, hcluster, hpage⟩ :=
    transferSize_spec w'.fs lba w.offset (length - w.len) (Nat.sub_pos_of_lt hround.lt)
  rw [← hround.size_eq] at hpos hrest hcluster hpage
  have hlt := hround.lt
  have hlen := hround.len
  have hoffset := hround.offset
  have hsor := hround.sor
  rw [hall] at hlen hoffset hsor
  have hfrom := h.offset
  have hbuffer := h.sor
  -- a sector that the file did not have is as it was
  have hold : ∀ q l, w'.file.sectors w'.fs (q / SECTOR_SIZE) = some l →
      w.pages.settled l (q % SECTOR_SIZE) = if w₀.offset ≤ q ∧ q < w.offset
        then mem.byte (buffer + (q - w₀.offset)) else w₀.pages.settled l (q % SECTOR_SIZE) := by
    intro q l hq
    cases hmap : w.file.sectors w.fs (q / SECTOR_SIZE) with
    | some l' =>
        obtain rfl := Option.some.inj ((hextends.sectors_eq hmap).symm.trans hq)
        exact h.bytes q l' hmap
    | none =>
        rw [h.rest l _ _ (Nat.mod_lt q (by decide)), if_neg]
        · rintro ⟨hle, hlt⟩
          obtain ⟨l', hl'⟩ := h.mapped q hle hlt
          rw [hmap] at hl'
          cases hl'
        · intro j hj
          rw [hfile.sectors_inj hfits (hextends.sectors_eq hj) hq, hmap] at hj
          cases hj
  refine ⟨by lia, by lia, by lia, hfits, hfile, h.longer.trans hextends, hnear,
    hround.clean h.clean hspills, ?_, ?_, ?_, h.starts_next hround hall, ?_, ?_, ?_, ?_⟩
  · intro q hle hlt
    by_cases hq : q < w.offset
    · obtain ⟨l, hl⟩ := h.mapped q hle hq
      exact ⟨l, hextends.sectors_eq hl⟩
    · have hnext := sectors_of_copied (n := size) (d := q / SECTOR_SIZE - w.offset / SECTOR_SIZE)
        hfits hsector hcluster (by rw [SECTOR_SIZE]; lia)
      rw [Nat.add_sub_cancel' (Nat.div_le_div_right (not_lt.1 hq))] at hnext
      exact ⟨_, hnext⟩
  · intro q l hq
    obtain ⟨hnew, -, hkept⟩ := hround.shows h.clean hfile hfits hsector hq
    rw [hall] at hnew hkept
    by_cases hin : w.offset ≤ q ∧ q < w.offset + size
    · rw [if_pos (by lia), (hnew hin.1 hin.2 _).2]
      · congr 1
        lia
      · obtain ⟨hcopied, -⟩ := copied_iff (n := size) hfile hfits hsector hcluster hpage hq
        obtain ⟨hafter, -, -, hless⟩ := hcopied.2 hin
        rw [Spills, not_lt] at hspills
        apply dirty_prepared
        rw [SECTOR_SIZE] at *
        lia
    · rw [(hkept hin).2, if_neg (fun hno => hin hno.2), hold q l hq]
      congr 1
      rw [eq_iff_iff]
      lia
  · intro l hl i hi
    rw [(hround.shows_rest h.clean hfits hsector hl hi).2]
    apply h.rest l _ i hi
    intro j hj
    exact hl j (hextends.sectors_eq hj)
  · rw [if_neg (by lia : ¬ w'.len = 0), hround.validSize, h.validSize]
    split_ifs with hzero
    · rfl
    · lia
  · have hvalid := hround.validSize
    rw [if_neg (by lia : ¬ w'.len = 0), hround.fileSize, h.fileSize]
    split_ifs with hzero
    · rfl
    · lia
  · rw [hround.iostate, if_pos hall, h.iostate]
  · rw [hlen, UserMemory.accepted_append h.accepted, ← hbuffer]
    exact congrArg (w.len + ·) hall

/-! ### All rounds -/

/-- A round that does not mark all sectors is the only one. -/
theorem Written.only (h : Written debug mem buffer length w₀ w)
    (hround : Round debug updateChain rounds mem length w w' lba size)
    (hall : w.accepts mem size = size) (hspills : Spills w.offset size)
    (hrest : writeLoop debug updateChain rounds others mem length n w' = .ok r) :
  r = w'
  := by
  obtain ⟨hzero, hsize⟩ := h.spills hround hspills
  have hlen := hround.len
  rw [hall, hzero, hsize] at hlen
  cases n with
  | zero => cases hrest
  | succ n =>
      rw [writeLoop, if_neg (by omega)] at hrest
      cases hrest
      rfl

/-- How a request ends: all bytes have been written and marked, or the last round has moved less
bytes than it wanted to, or the only round has not marked all sectors. -/
theorem Written.run (hothers : ∀ n c, Pages.Background c (others n c))
    (h : Written debug mem buffer length w₀ w)
    (hloop : writeLoop debug updateChain rounds others mem length n w = .ok r)
    (hr : r.Undisturbed) :
  Extends w.fs w.file r.fs r.file ∧
    ((Written debug mem buffer length w₀ r ∧ r.len = length) ∨
      ∃ w' lba size, Written debug mem buffer length w₀ w' ∧ w.len ≤ w'.len ∧
        Round debug updateChain rounds mem length w' r lba size ∧
        (w'.accepts mem size ≠ size ∨ w'.accepts mem size = size ∧ Spills w'.offset size))
  := by
  induction n generalizing w with
  | zero => cases hloop
  | succ n ih =>
      rcases writeLoop_cases hothers hloop hr with ⟨hend, rfl⟩ |
        ⟨w', lba, size, hround, ⟨hshort, rfl⟩ | ⟨hall, hrest⟩⟩
      · have := h.le
        exact ⟨Extends.refl _ _, .inl ⟨h, by omega⟩⟩
      · obtain ⟨-, hextends, -, -⟩ := h.found hround
        exact ⟨hextends, .inr ⟨w, lba, size, h, le_rfl, hround, .inl hshort⟩⟩
      · obtain ⟨-, hextends, -, -⟩ := h.found hround
        by_cases hspills : Spills w.offset size
        · obtain rfl := h.only hround hall hspills hrest
          exact ⟨hextends, .inr ⟨w, lba, size, h, le_rfl, hround, .inr ⟨hall, hspills⟩⟩⟩
        · obtain ⟨hextends', hend⟩ := ih (h.round hround hall hspills) hrest
          refine ⟨hextends.trans hextends', hend.imp id ?_⟩
          rintro ⟨w'', lba', size', h', hle, hrest⟩
          have hlen := hround.len
          exact ⟨w'', lba', size', h', by lia, hrest⟩

/-! ### Requests that are carried out -/

/-- The file with the sizes that a request has come to. -/
def Writing.data (w : Writing) : FileData := { clusters := w.clusters, allocSize := w.fileSize }

/-- A request to write so many bytes to a file that is consistent, and whose valid bytes have
clusters. The positions of the bytes are not mistaken for others, and the cache is clean. -/
structure Ready (debug : Bool) (length : ℕ) (w : Writing) : Prop where
  file : Consistent debug w.fs w.data
  fits : SizeFits w.fs
  near : ∀ p < w.offset + length, Near w.fs w.clusters p
  clean : w.pages.Clean
  valid_le : w.validSize ≤ w.fileSize
  covers : w.data.Covers w.fs w.validSize

/-- The request before its first round. -/
def Writing.start (w : Writing) (buffer : ℕ) : Writing := { w with sor := buffer, len := 0 }

theorem Ready.written (h : Ready debug length w) (mem : UserMemory) (buffer : ℕ) :
  Written debug mem buffer length (w.start buffer) (w.start buffer)
  := by
  refine ⟨rfl, rfl, Nat.zero_le _, h.fits, h.file.extended, Extends.refl _ _, h.near, h.clean, ?_, ?_,
    fun _ _ _ _ => rfl, .inl rfl, rfl, rfl, rfl, rfl⟩
  · intro p hle hlt
    exact absurd hle (not_le.2 hlt)
  · intro p l _
    rw [if_neg]
    omega

/-- A request that is carried out without an error has gone through the loop. -/
theorem workerWrite_inv
    (h : workerWrite debug updateChain updateSize rounds others mem buffer length w = .ok r)
    (hr : r.iostate = 0) :
  0 < length ∧ writeLoop debug updateChain rounds others mem length (length + 1) (w.start buffer)
    = .ok r
  := by
  rw [workerWrite] at h
  split_ifs at h with hnone
  · cases h
    exfalso
    have hbit := congrArg (fun y => y.getLsbD 3) hr
    simp [File.MEM_FAILURE] at hbit
  · rw [Except.bind_eq_ok_iff] at h
    obtain ⟨-, -, h⟩ := h
    rw [Except.bind_eq_ok_iff] at h
    obtain ⟨w', hloop, h⟩ := h
    split_ifs at h
    · cases h
      exfalso
      have hbit := congrArg (fun y => y.getLsbD 4) hr
      simp [File.FS_FAILURE] at hbit
    · cases h
      rw [not_or] at hnone
      exact ⟨Nat.pos_of_ne_zero hnone.2, hloop⟩

/-! ### Bytes of the file -/

variable {fs : Exfat} {content : ℕ → Boot.Bytes}

/-- The sector of a byte, from that of its number. -/
theorem sectorAt_eq (hfits : SizeFits fs) (h : f.sectors fs (p / SECTOR_SIZE) = some l) :
  f.clusterAt fs (p / fs.clusterSize) ≠ 0 ∧ f.sectorAt fs p = l
  := by
  obtain ⟨hc, rfl⟩ := sectors_eq_some h
  rw [div_perCluster hfits] at hc ⊢
  rw [mod_perCluster hfits]
  exact ⟨hc, rfl⟩

/-- Up to the size of a file, its clusters are those of its chain. -/
theorem Writing.clusterAt_data (w : Writing) (hp : p < w.fileSize)
    (hk : w.file.clusterAt w.fs (p / w.fs.clusterSize) ≠ 0) :
  w.data.clusterAt w.fs (p / w.fs.clusterSize) = w.file.clusterAt w.fs (p / w.fs.clusterSize)
  := by
  cases hl : w.clusters.linear with
  | true =>
      have hpos : 0 < w.fs.clusterSize := Nat.two_pow_pos _
      have hrow : p / w.fs.clusterSize < w.data.rowLength w.fs := by
        rw [Nat.lt_iff_add_one_le, ← Nat.add_div_right p hpos]
        apply Nat.div_le_div_right
        change p + w.fs.clusterSize ≤ w.fileSize + w.fs.clusterSize - 1
        lia
      rw [clusterAt_linear (by exact hl)] at hk ⊢
      split_ifs at hk with hin
      · rw [if_pos ⟨hin.1, hrow⟩, clusterAt_linear (by exact hl), if_pos hin]
        rfl
      · exact absurd rfl hk
  | false => rw [clusterAt_chain (by exact hl), clusterAt_chain (by exact hl)]; rfl

/-- A byte of a file is found in the sector of its number. -/
theorem Writing.byteAt_data (w : Writing) (content : ℕ → Boot.Bytes) (hfits : SizeFits w.fs)
    (hp : p < w.fileSize) (h : w.file.sectors w.fs (p / SECTOR_SIZE) = some l) :
  w.data.clusterAt w.fs (p / w.fs.clusterSize) ≠ 0 ∧
    w.data.byteAt w.fs content p = content l (p % SECTOR_SIZE)
  := by
  obtain ⟨hc, hl⟩ := sectorAt_eq hfits h
  have hsame := w.clusterAt_data hp hc
  refine ⟨by rwa [hsame], ?_⟩
  rw [byteAt, sectorAt, hsame, ← hl]
  rfl

/-- A valid byte of the file has the same sector after the request. -/
theorem Ready.sectors_eq (h : Ready debug length w) (hextends : Extends w.fs w.file r.fs r.file)
    (hp : p < w.validSize) :
  r.file.sectors r.fs (p / SECTOR_SIZE) = some (w.data.sectorAt w.fs p)
  := by
  apply hextends.sectors_eq
  have hc := h.covers p hp
  have hsame := clusterAt_extended h.file hc
  have hsector := sectors_of_clusterAt (f := w.file) h.fits (by
    change (extended w.fs w.data.clusters).clusterAt w.fs _ ≠ 0
    rwa [hsame])
  rw [hsector, sectorAt, sectorAt]
  change some (_ + ((extended w.fs w.data.clusters).clusterAt w.fs _ - 2) * _ + _) = _
  rw [hsame]

/-! ### How a request that is carried out ends -/

/-- All bytes have been written and marked, or the only round has not marked all sectors. -/
theorem Ready.complete (h : Ready debug length w) (hothers : ∀ n c, Pages.Background c (others n c))
    (hwrite : workerWrite debug updateChain updateSize rounds others mem buffer length w = .ok r)
    (hr : r.iostate = 0) :
  ∃ lba fs c dm, getLba debug updateChain true w.offset rounds w.fs w.clusters w.dm
      = .ok (lba, fs, c, dm) ∧
    fs.clusterSize = w.fs.clusterSize ∧
    Extends fs (extended fs c) r.fs r.file ∧
    (extended fs c).sectors fs (w.offset / SECTOR_SIZE) = some lba ∧
    ((Written debug mem buffer length (w.start buffer) r ∧ r.len = length ∧
        ¬ (transferSize w.fs lba w.offset length = length ∧ Spills w.offset length)) ∨
      (transferSize w.fs lba w.offset length = length ∧ Spills w.offset length ∧
        fs = r.fs ∧ c = r.clusters ∧
        Round debug updateChain rounds mem length (w.start buffer) r lba length ∧
        (w.start buffer).accepts mem length = length))
  := by
  obtain ⟨hpos, hloop⟩ := workerWrite_inv hwrite hr
  have hundisturbed : r.Undisturbed := by
    rw [Writing.Undisturbed, hr]
    rfl
  have hstart := h.written mem buffer
  have hfull : ∀ w' lba size, Written debug mem buffer length (w.start buffer) w' →
      Round debug updateChain rounds mem length w' r lba size → w'.accepts mem size = size := by
    intro w' lba size hw' hround
    by_contra hshort
    have hiostate := hround.iostate
    rw [if_neg hshort, hr] at hiostate
    have hbit := congrArg (fun y => y.getLsbD 3) hiostate
    simp [File.MEM_FAILURE] at hbit
  rcases writeLoop_cases hothers hloop hundisturbed with ⟨hend, -⟩ |
    ⟨w₁, lba, size, hround, hrest⟩
  · exact absurd hend (not_le.2 hpos)
  obtain ⟨dm, hlba⟩ := hround.looked
  obtain ⟨hfile, hextends, hsector, -⟩ := hstart.found hround
  have hsize := hround.size_eq
  have hsame : transferSize w₁.fs lba w.offset (length - 0)
      = transferSize w.fs lba w.offset length := by
    rw [transferSize, transferSize, hextends.clusterSize_eq]
    rfl
  change size = transferSize w₁.fs lba w.offset (length - 0) at hsize
  rw [hsame] at hsize
  refine ⟨lba, w₁.fs, w₁.clusters, dm, hlba, hextends.clusterSize_eq, ?_⟩
  rcases hrest with ⟨hshort, rfl⟩ | ⟨hall, hrest⟩
  · exact absurd (hfull _ _ _ hstart hround) hshort
  by_cases hspills : Spills w.offset size
  · obtain rfl := hstart.only hround hall hspills hrest
    obtain ⟨-, rfl⟩ := hstart.spills hround hspills
    exact ⟨Extends.refl _ _, hsector, .inr ⟨hsize.symm, hspills, rfl, rfl, hround, hall⟩⟩
  · obtain ⟨hlonger, hend⟩ := (hstart.round hround hall hspills).run hothers hrest hundisturbed
    refine ⟨hlonger, hsector, .inl ?_⟩
    have hnot : ¬ (transferSize w.fs lba w.offset length = length ∧ Spills w.offset length) := by
      rintro ⟨hwhole, hno⟩
      rw [hsize, hwhole] at hspills
      exact hspills hno
    rcases hend with ⟨hr, hlen⟩ | ⟨w', lba', size', hw', hle, hround', hor⟩
    · exact ⟨hr, hlen, hnot⟩
    · exfalso
      rcases hor with hshort | ⟨-, hno⟩
      · exact hshort (hfull _ _ _ hw' hround')
      · obtain ⟨hzero, -⟩ := hw'.spills hround' hno
        have hlen := hround.len
        have hpos' := (transferSize_spec w.fs lba w.offset length hpos).1
        rw [hall] at hlen
        lia

end FileData

end UOS
