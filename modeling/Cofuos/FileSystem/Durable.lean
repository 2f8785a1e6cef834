import Cofuos.FileSystem.Written

/-!
# What a write leaves behind

A request to write that is carried out without an error leaves the bytes of the process in the file.
They get to the disk, and the other bytes of the file stay as they are, unless the request begins in
the middle of a sector and its last bytes are in a sector that is not marked dirty.

The bytes between the former valid size and the offset of the request are not written. They are read
as they have been on the disk.
-/

namespace UOS

namespace FileData

open Exfat (SECTOR_SIZE)
open Disk (Pages)

variable {debug : Bool} {updateChain : ℕ → Dm → Bool × Dm} {updateSize : Bool} {rounds : ℕ}
  {others : ℕ → Pages Boot.Bytes → Pages Boot.Bytes} {mem : UserMemory}
  {buffer length n p i l lba size k k' : ℕ} {w w' r : Writing} {f : FileData} {fs : Exfat}
  {c : ClusterChain} {content : ℕ → Boot.Bytes}

/-! ### What is left as it was -/

/-- The sizes after a request, and the bytes outside of its range. -/
structure Leaves (debug : Bool) (length : ℕ) (w r : Writing) : Prop where
  fits : SizeFits r.fs
  file : Consistent debug r.fs r.file
  validSize : r.validSize = max w.validSize (w.offset + length)
  fileSize : r.fileSize = max w.fileSize (w.offset + length)
  shows : ∀ p l, r.file.sectors r.fs (p / SECTOR_SIZE) = some l →
    ¬ (w.offset ≤ p ∧ p < w.offset + length) →
    Shows r.pages l (p % SECTOR_SIZE) (w.pages.view l (p % SECTOR_SIZE))

theorem Written.leaves (h : Ready debug length w)
    (hr : Written debug mem buffer length (w.start buffer) r) (hlen : r.len = length)
    (hpos : 0 < length) :
  Leaves debug length w r
  := by
  have hoffset := hr.offset
  have hvalid := hr.validSize
  have hsize := hr.fileSize
  have hle := h.valid_le
  rw [if_neg (by lia)] at hvalid hsize
  change r.offset = w.offset + r.len at hoffset
  change r.validSize = max w.validSize r.offset at hvalid
  change r.fileSize = max w.fileSize r.validSize at hsize
  refine ⟨hr.fits, hr.file, by lia, by lia, ?_⟩
  intro p l hp hout
  have hshows := Clean.shows hr.clean l (p % SECTOR_SIZE)
  have hin : ¬ ((w.start buffer).offset ≤ p ∧ p < r.offset) := by
    change ¬ (w.offset ≤ p ∧ p < r.offset)
    lia
  rw [hr.bytes p l hp, if_neg hin] at hshows
  rw [h.clean.view_eq]
  exact hshows

theorem Round.leaves (h : Ready debug length w)
    (hround : Round debug updateChain rounds mem length (w.start buffer) r lba length)
    (hall : (w.start buffer).accepts mem length = length) :
  Leaves debug length w r
  := by
  obtain ⟨hfile, hextends, hsector, -⟩ := (h.written mem buffer).found hround
  have hfits := hextends.sizeFits h.fits
  have hoffset := hround.offset
  have hvalid := hround.validSize
  have hsize := hround.fileSize
  have hle := h.valid_le
  rw [hall] at hoffset
  change r.offset = w.offset + length at hoffset
  change r.validSize = max w.validSize r.offset at hvalid
  change r.fileSize = max w.fileSize r.validSize at hsize
  refine ⟨hfits, hfile, by lia, by lia, ?_⟩
  intro p l hp hout
  have hkept := (hround.shows h.clean hfile hfits hsector hp).2.2
  rw [hall] at hkept
  have hshows := hkept hout
  rw [if_neg (fun hin => hout hin.2)] at hshows
  rw [h.clean.view_eq]
  exact hshows

/-- A file has clusters for the bytes before one for which it has a cluster. -/
theorem clusterAt_of_le (hle : k ≤ k') (h : f.clusterAt fs k' ≠ 0) : f.clusterAt fs k ≠ 0 := by
  cases hl : f.clusters.linear with
  | true =>
      rw [clusterAt_linear hl] at h ⊢
      split_ifs at h with hin
      · rw [if_pos ⟨hin.1, by omega⟩]
        lia
      · exact absurd rfl h
  | false =>
      rw [clusterAt_chain hl] at h ⊢
      exact Exfat.clusterAt_ne_zero_of_le h hle

/-! ### The gap -/

/-- Whatever other threads do to the cache, the bytes between the former valid size and the offset of
the request are read as zeros. -/
def GapReadsZero (w r : Writing) : Prop :=
  ∀ pages, Pages.Background r.pages pages → ∀ p, w.validSize ≤ p → p < w.offset →
    r.data.clusterAt r.fs (p / r.fs.clusterSize) ≠ 0 ∧
      r.data.logicalByte r.fs r.validSize pages.view p = 0

/-- After a request that begins beyond the valid size, the bytes between are read as zeros exactly if
they have been zeros on the disk, in the clusters that the file gets for them. -/
theorem gapReadsZero_iff (h : Ready debug length w)
    (hothers : ∀ n c, Pages.Background c (others n c)) (hgap : w.validSize < w.offset)
    (hwrite : workerWrite debug updateChain updateSize rounds others mem buffer length w = .ok r)
    (hr : r.iostate = 0) :
  ∃ lba fs c dm, getLba debug updateChain true w.offset rounds w.fs w.clusters w.dm
      = .ok (lba, fs, c, dm) ∧
    (GapReadsZero w r ↔ ∀ p, w.validSize ≤ p → p < w.offset →
      FileData.byteAt fs { clusters := c, allocSize := max w.fileSize (w.offset + length) }
        w.pages.view p = 0)
  := by
  obtain ⟨hpos, -⟩ := workerWrite_inv hwrite hr
  obtain ⟨lba, fs, c, dm, hlba, hcluster, hlonger, hsector, hend⟩ := h.complete hothers hwrite hr
  have hleaves : Leaves debug length w r := by
    rcases hend with ⟨hwritten, hlen, -⟩ | ⟨-, -, -, -, hround, hall⟩
    · exact hwritten.leaves h hlen hpos
    · exact hround.leaves h hall
  refine ⟨lba, fs, c, dm, hlba, ?_⟩
  have hfits : SizeFits fs := by
    have := hleaves.fits
    rwa [SizeFits, hlonger.shift] at this
  -- the sectors of the gap are there after the first look-up
  have hmapped : ∀ p < w.offset, ∃ l, (extended fs c).sectors fs (p / SECTOR_SIZE) = some l := by
    intro p hp
    refine ⟨_, sectors_of_clusterAt hfits ?_⟩
    apply clusterAt_of_le (Nat.div_le_div_right hp.le)
    rw [← div_perCluster hfits]
    exact (sectors_eq_some hsector).1
  have hbyte : ∀ p, w.validSize ≤ p → p < w.offset → ∃ l,
      Shows r.pages l (p % SECTOR_SIZE) (w.pages.view l (p % SECTOR_SIZE)) ∧
      r.data.clusterAt r.fs (p / r.fs.clusterSize) ≠ 0 ∧
      (∀ content, r.data.logicalByte r.fs r.validSize content p = content l (p % SECTOR_SIZE)) ∧
      FileData.byteAt fs { clusters := c, allocSize := max w.fileSize (w.offset + length) }
        w.pages.view p = w.pages.view l (p % SECTOR_SIZE) := by
    intro p hge hlt
    obtain ⟨l, hl⟩ := hmapped p hlt
    have hl' := hlonger.sectors_eq hl
    have hsize := hleaves.fileSize
    have hvalid := hleaves.validSize
    refine ⟨l, hleaves.shows p l hl' (by omega), ?_, ?_, ?_⟩
    · exact (r.byteAt_data w.pages.view hleaves.fits (by omega) hl').1
    · intro content
      rw [logicalByte, if_pos (by omega)]
      exact (r.byteAt_data _ hleaves.fits (by omega) hl').2
    · exact (Writing.byteAt_data { w with
        fs := fs, clusters := c, fileSize := max w.fileSize (w.offset + length) } _ hfits
        (by dsimp only; omega) hl).2
  constructor
  · intro hzero p hge hlt
    obtain ⟨l, hshows, -, hread, hold⟩ := hbyte p hge hlt
    have := (hzero _ .refl p hge hlt).2
    rw [hread, hshows.1] at this
    rw [hold, this]
  · intro hzero pages hb p hge hlt
    obtain ⟨l, hshows, hc, hread, hold⟩ := hbyte p hge hlt
    refine ⟨hc, ?_⟩
    rw [hread, (hshows.background hb).1, ← hold]
    exact hzero p hge hlt

/-! ### What gets to the disk -/

/-- When all slots have been flushed and taken for other pages, the disk has the bytes of the request,
and the other valid bytes of the file are as they were. All that has changed in the cache gets to the
disk. -/
structure Durable (mem : UserMemory) (buffer length : ℕ) (w r : Writing) : Prop where
  marked : ∀ l, ∀ i < SECTOR_SIZE, r.pages.view l i = r.pages.settled l i
  written : ∀ p, w.offset ≤ p → p < w.offset + length →
    r.data.clusterAt r.fs (p / r.fs.clusterSize) ≠ 0 ∧
      r.data.byteAt r.fs r.pages.settled p = mem.byte (buffer + (p - w.offset))
  kept : ∀ p < w.validSize, ¬ (w.offset ≤ p ∧ p < w.offset + length) →
    r.data.byteAt r.fs r.pages.settled p = w.data.byteAt w.fs w.pages.view p

/-- A sector is dirty in a slot that has all of its page. -/
def Marked (c : Pages Boot.Bytes) (l : ℕ) : Prop :=
  c.dirty l = true ∧ (List.range 8).all (fun i => c.valid (Disk.pageLba l + i)) = true

/-- The request is carried out in one round, its last bytes are in a sector more than it would need
from the beginning of a sector, which was not dirty before, and they change that sector. -/
structure Unmarked (mem : UserMemory) (buffer length : ℕ) (w : Writing) (lba : ℕ) : Prop where
  whole : transferSize w.fs lba w.offset length = length
  spills : Spills w.offset length
  unmarked : ¬ Marked w.pages (lba + sectorCount length)
  changed : ∃ p, w.offset ≤ p ∧ p < w.offset + length ∧
    p / SECTOR_SIZE = w.offset / SECTOR_SIZE + sectorCount length ∧
    mem.byte (buffer + (p - w.offset)) ≠
      w.pages.view (lba + sectorCount length) (p % SECTOR_SIZE)

/-- The sector after those that are marked is dirty only if it was before. -/
theorem dirty_prepared_last {pages : Pages Boot.Bytes} {offset : ℕ} (hspills : Spills offset size)
    (hpage : offset % SECTOR_SIZE + size ≤ Disk.count lba * SECTOR_SIZE) :
  (prepared pages lba offset size).dirty (lba + sectorCount size) = true ↔
    Marked pages (lba + sectorCount size)
  := by
  have hover : overwrite offset size = false := by
    rw [overwrite, Bool.and_eq_false_iff, decide_eq_false_iff_not]
    left
    intro hzero
    rw [Spills, hzero, sectorCount, SECTOR_SIZE] at hspills
    lia
  have hlast : Disk.pageLba (lba + sectorCount size) = Disk.pageLba lba := by
    apply pageLba_add
    rw [Spills] at hspills
    rw [SECTOR_SIZE] at *
    lia
  have hload : (prepared pages lba offset size).dirty (lba + sectorCount size)
      = (pages.load lba).dirty (lba + sectorCount size) := by
    simp [prepared, hover, Pages.get, Pages.upgrade]
  rw [hload, Marked, hlast, Pages.load]
  split_ifs with hall
  · simp only [hall, and_true]
  · simp [hall, Pages.reload, Pages.flush, hlast]

/-- The valid bytes outside of the range of the request are as they were. -/
theorem Leaves.kept (hleaves : Leaves debug length w r) (h : Ready debug length w)
    (hextends : Extends w.fs w.file r.fs r.file) (hp : p < w.validSize)
    (hout : ¬ (w.offset ≤ p ∧ p < w.offset + length)) :
  r.data.byteAt r.fs r.pages.settled p = w.data.byteAt w.fs w.pages.view p
  := by
  have hl := h.sectors_eq hextends hp
  have hsize := hleaves.fileSize
  have hle := h.valid_le
  rw [(r.byteAt_data _ hleaves.fits (by lia) hl).2, (hleaves.shows p _ hl hout).2]
  rfl

/-- What the only round leaves when all sectors that get other bytes are dirty. -/
theorem Round.shows_all (h : Ready debug length w)
    (hround : Round debug updateChain rounds mem length (w.start buffer) r lba length)
    (hall : (w.start buffer).accepts mem length = length)
    (hdirty : ∀ p l, r.file.sectors r.fs (p / SECTOR_SIZE) = some l → w.offset ≤ p →
      p < w.offset + length → (prepared w.pages lba w.offset length).dirty l = false →
      mem.byte (buffer + (p - w.offset)) = w.pages.settled l (p % SECTOR_SIZE))
    (hp : r.file.sectors r.fs (p / SECTOR_SIZE) = some l) (hle : w.offset ≤ p)
    (hlt : p < w.offset + length) :
  Shows r.pages l (p % SECTOR_SIZE) (mem.byte (buffer + (p - w.offset)))
  := by
  obtain ⟨hfile, hextends, hsector, -⟩ := (h.written mem buffer).found hround
  obtain ⟨hnew, hlost, -⟩ := hround.shows h.clean hfile (hextends.sizeFits h.fits) hsector hp
  rw [hall] at hnew hlost
  cases hd : (prepared w.pages lba w.offset length).dirty l with
  | true => exact hnew hle hlt hd
  | false =>
      obtain ⟨hsettled, hview⟩ := hlost hle hlt hd
      change r.pages.settled l _ = w.pages.settled l _ at hsettled
      rw [← hdirty p l hp hle hlt hd] at hsettled
      exact ⟨hview.elim id fun heq => heq.trans hsettled, hsettled⟩

/-- A request that has marked all sectors is durable. -/
theorem Written.durable (h : Ready debug length w)
    (hr : Written debug mem buffer length (w.start buffer) r) (hlen : r.len = length)
    (hpos : 0 < length) :
  Durable mem buffer length w r
  := by
  have hleaves := hr.leaves h hlen hpos
  have hsize := hleaves.fileSize
  have hoffset := hr.offset
  change r.offset = w.offset + r.len at hoffset
  refine ⟨?_, ?_, fun p hp hout => hleaves.kept h hr.longer hp hout⟩
  · intro l i _
    rw [hr.clean.view_eq]
  · intro p hle hlt
    obtain ⟨l, hl⟩ := hr.mapped p hle (by lia)
    obtain ⟨hc, hbyte⟩ := r.byteAt_data r.pages.settled hr.fits (by lia) hl
    refine ⟨hc, ?_⟩
    rw [hbyte, hr.bytes p l hl, if_pos ⟨hle, by omega⟩]
    rfl

/-- A request that is carried out in one round is durable exactly if it changes no sector that it
leaves unmarked. -/
theorem Round.keeps_iff (h : Ready debug length w)
    (hround : Round debug updateChain rounds mem length (w.start buffer) r lba length)
    (hall : (w.start buffer).accepts mem length = length)
    (hwhole : transferSize w.fs lba w.offset length = length) (hspills : Spills w.offset length) :
  Durable mem buffer length w r ↔ ¬ Unmarked mem buffer length w lba
  := by
  obtain ⟨hfile, hextends, hsector, -⟩ := (h.written mem buffer).found hround
  have hfits := hextends.sizeFits h.fits
  have hleaves := hround.leaves h hall
  have hsize := hleaves.fileSize
  have hpos := hround.lt
  change 0 < length at hpos
  obtain ⟨-, -, hcluster, hpage⟩ := transferSize_spec w.fs lba w.offset length hpos
  rw [hwhole] at hcluster hpage
  rw [show w.fs.clusterSize = r.fs.clusterSize from hextends.clusterSize_eq.symm] at hcluster
  have hsectors : ∀ p, w.offset ≤ p → p < w.offset + length →
      r.file.sectors r.fs (p / SECTOR_SIZE)
        = some (lba + (p / SECTOR_SIZE - w.offset / SECTOR_SIZE)) := by
    intro p hle hlt
    have hnext := sectors_of_copied (d := p / SECTOR_SIZE - w.offset / SECTOR_SIZE) hfits hsector
      hcluster (by rw [SECTOR_SIZE]; change _ < w.offset % 512 + length; lia)
    change r.file.sectors r.fs (w.offset / SECTOR_SIZE + _) = _ at hnext
    rwa [Nat.add_sub_cancel' (Nat.div_le_div_right hle)] at hnext
  constructor
  · rintro ⟨-, hwritten, -⟩ ⟨-, -, hunmarked, p, hle, hlt, hlast, hchanged⟩
    have hl := hsectors p hle hlt
    rw [hlast, Nat.add_sub_cancel_left, ← hlast] at hl
    have hdirty : (prepared w.pages lba w.offset length).dirty (lba + sectorCount length)
        = false := by
      rw [← Bool.not_eq_true, dirty_prepared_last hspills hpage]
      exact hunmarked
    obtain ⟨-, hlost, -⟩ := hround.shows h.clean hfile hfits hsector hl
    rw [hall] at hlost
    have hsettled := (hlost hle hlt hdirty).1
    change r.pages.settled _ _ = w.pages.settled _ _ at hsettled
    apply hchanged
    rw [h.clean.view_eq, ← hsettled, ← (hwritten p hle hlt).2,
      (r.byteAt_data _ hleaves.fits (by lia) hl).2]
  · intro hnot
    have hshows : ∀ p l, r.file.sectors r.fs (p / SECTOR_SIZE) = some l → w.offset ≤ p →
        p < w.offset + length →
        Shows r.pages l (p % SECTOR_SIZE) (mem.byte (buffer + (p - w.offset))) := by
      intro p l hl hle hlt
      apply hround.shows_all h hall _ hl hle hlt
      intro q l' hq hle' hlt' hdirty
      obtain rfl := Option.some.inj ((hsectors q hle' hlt').symm.trans hq)
      by_contra hchanged
      apply hnot
      -- only the sector after those that are marked is not dirty
      have hlast : q / SECTOR_SIZE - w.offset / SECTOR_SIZE = sectorCount length := by
        have hmarked : ¬ q / SECTOR_SIZE - w.offset / SECTOR_SIZE < sectorCount length := by
          intro hlt
          rw [dirty_prepared ⟨Nat.le_add_right _ _, Nat.add_lt_add_left hlt _⟩] at hdirty
          cases hdirty
        rw [sectorCount, SECTOR_SIZE] at *
        lia
      rw [hlast] at hdirty hchanged
      refine ⟨hwhole, hspills, ?_, q, hle', hlt', ?_, ?_⟩
      · rw [← dirty_prepared_last hspills hpage, hdirty]
        decide
      · rw [← hlast, Nat.add_sub_cancel' (Nat.div_le_div_right hle')]
      · rw [h.clean.view_eq]
        exact hchanged
    refine ⟨?_, ?_, fun p hp hout => hleaves.kept h hextends hp hout⟩
    · intro l i hi
      by_cases hmap : ∃ j, r.file.sectors r.fs j = some l
      · obtain ⟨j, hj⟩ := hmap
        have hdiv : (j * SECTOR_SIZE + i) / SECTOR_SIZE = j := by
          rw [SECTOR_SIZE] at hi ⊢
          lia
        have hmod : (j * SECTOR_SIZE + i) % SECTOR_SIZE = i := by
          rw [SECTOR_SIZE] at hi ⊢
          lia
        rw [← hdiv] at hj
        rw [← hmod]
        by_cases hin : w.offset ≤ j * SECTOR_SIZE + i ∧ j * SECTOR_SIZE + i < w.offset + length
        · obtain ⟨hview, hsettled⟩ := hshows _ l hj hin.1 hin.2
          rw [hview, hsettled]
        · obtain ⟨hview, hsettled⟩ := hleaves.shows _ l hj hin
          rw [hview, hsettled]
      · rw [not_exists] at hmap
        obtain ⟨hview, hsettled⟩ := hround.shows_rest h.clean hfits hsector hmap hi
        rw [hview, hsettled]
    · intro p hle hlt
      have hl := hsectors p hle hlt
      obtain ⟨hc, hbyte⟩ := r.byteAt_data r.pages.settled hfits (by lia) hl
      refine ⟨hc, ?_⟩
      rw [hbyte, (hshows p _ hl hle hlt).2]

/-- A request that is carried out without an error is durable exactly if it does not leave a sector
unmarked. -/
theorem durable_iff (h : Ready debug length w) (hothers : ∀ n c, Pages.Background c (others n c))
    (hwrite : workerWrite debug updateChain updateSize rounds others mem buffer length w = .ok r)
    (hr : r.iostate = 0) :
  ∃ lba fs c dm, getLba debug updateChain true w.offset rounds w.fs w.clusters w.dm
      = .ok (lba, fs, c, dm) ∧
    (Durable mem buffer length w r ↔ ¬ Unmarked mem buffer length w lba)
  := by
  obtain ⟨hpos, -⟩ := workerWrite_inv hwrite hr
  obtain ⟨lba, fs, c, dm, hlba, -, -, -, hend⟩ := h.complete hothers hwrite hr
  refine ⟨lba, fs, c, dm, hlba, ?_⟩
  rcases hend with ⟨hwritten, hlen, hnot⟩ | ⟨hwhole, hspills, -, -, hround, hall⟩
  · exact iff_of_true (hwritten.durable h hlen hpos) fun hno => hnot ⟨hno.whole, hno.spills⟩
  · exact hround.keeps_iff h hall hwhole hspills

/-! ### A file of three clusters -/

/-- A disk all bytes of which are the same, of which the cache has nothing. -/
def uniform (v : UInt8) : Pages Boot.Bytes where
  disk := fun _ _ => v
  access := fun _ _ => 0
  valid := fun _ => false
  dirty := fun _ => false

/-- A request to a file of three clusters. -/
def writing (offset validSize : ℕ) (pages : Pages Boot.Bytes) : Writing where
  offset := offset
  sor := 0
  len := 0
  iostate := 0
  validSize := validSize
  fileSize := 0x3000
  fs := Chains.threeClusters true
  clusters := chained.clusters
  dm := Chains.reading
  pages := pages

/-- The request is carried out, for two bytes. -/
def writeTwo (offset validSize : ℕ) (pages : Pages Boot.Bytes) : Except Fault Writing :=
  workerWrite true (fun _ dm => (true, dm)) true 1 (fun _ c => c) writableMemory 0x1000 2
    (writing offset validSize pages)

theorem fits_threeClusters : SizeFits (Chains.threeClusters true) := ⟨by decide, by decide⟩

theorem ready_writing {validSize : ℕ} (v : UInt8) (hvalid : validSize ≤ 0x3000)
    (hoffset : n + length ≤ 0x3000) :
  Ready true length (writing n validSize (uniform v))
  := by
  refine ⟨consistent_chained, fits_threeClusters, ?_, ⟨?_, ?_⟩, hvalid,
    fun offset hlt => covers_chained offset (by change offset < validSize at hlt; omega)⟩
  · intro p hp
    change p < n + length at hp
    change 0 + p / 0x1000 < 2 ^ 32
    lia
  · intro l hl
    cases hl
  · intro l hl
    cases hl

/-- A request that begins at the beginning of a sector is durable. -/
theorem durable_aligned :
  ∃ r, writeTwo 0x200 0x3000 (uniform 0) = .ok r ∧ r.iostate = 0 ∧
    ∃ lba fs c dm, getLba true (fun _ dm => (true, dm)) true 0x200 1 (Chains.threeClusters true)
        chained.clusters Chains.reading = .ok (lba, fs, c, dm) ∧
      (Durable writableMemory 0x1000 2 (writing 0x200 0x3000 (uniform 0)) r ↔
        ¬ Unmarked writableMemory 0x1000 2 (writing 0x200 0x3000 (uniform 0)) lba)
  := by
  obtain ⟨r, hwrite, hr⟩ : ∃ r, writeTwo 0x200 0x3000 (uniform 0) = .ok r ∧ r.iostate = 0 :=
    ⟨_, rfl, rfl⟩
  refine ⟨r, hwrite, hr, ?_⟩
  rw [writeTwo] at hwrite
  exact durable_iff (ready_writing 0 (by decide) (by decide)) (fun _ _ => .refl) hwrite hr

/-- A request for the last byte of a sector and the first byte of the next one does not mark the next
one. -/
theorem durable_spilled :
  Ready true 2 (writing 0x1FF 0x3000 (uniform 0)) ∧
    ∃ r, writeTwo 0x1FF 0x3000 (uniform 0) = .ok r ∧ r.iostate = 0 ∧
      ¬ Durable writableMemory 0x1000 2 (writing 0x1FF 0x3000 (uniform 0)) r
  := by
  refine ⟨ready_writing 0 (by decide) (by decide), _, rfl, rfl, ?_⟩
  intro h
  have hbyte := (h.written 0x200 (by decide) (by decide)).2
  revert hbyte
  decide

/-- On a disk of zeros, the gap before a request is read as zeros. -/
theorem gap_blank :
  ∃ r, writeTwo 0x1800 0x1000 (uniform 0) = .ok r ∧ r.iostate = 0 ∧
    ∃ lba fs c dm, getLba true (fun _ dm => (true, dm)) true 0x1800 1 (Chains.threeClusters true)
        chained.clusters Chains.reading = .ok (lba, fs, c, dm) ∧
      (GapReadsZero (writing 0x1800 0x1000 (uniform 0)) r ↔ ∀ p, 0x1000 ≤ p → p < 0x1800 →
        FileData.byteAt fs { clusters := c, allocSize := max 0x3000 (0x1800 + 2) }
          (uniform 0).view p = 0)
  := by
  obtain ⟨r, hwrite, hr⟩ : ∃ r, writeTwo 0x1800 0x1000 (uniform 0) = .ok r ∧ r.iostate = 0 :=
    ⟨_, rfl, rfl⟩
  refine ⟨r, hwrite, hr, ?_⟩
  rw [writeTwo] at hwrite
  exact gapReadsZero_iff (ready_writing 0 (by decide) (by decide)) (fun _ _ => .refl) (by decide)
    hwrite hr

/-- On a disk of other bytes, these are read in the gap before a request. -/
theorem gap_stale :
  Ready true 2 (writing 0x1800 0x1000 (uniform 7)) ∧
    ∃ r, writeTwo 0x1800 0x1000 (uniform 7) = .ok r ∧ r.iostate = 0 ∧
      ¬ GapReadsZero (writing 0x1800 0x1000 (uniform 7)) r
  := by
  refine ⟨ready_writing 7 (by decide) (by decide), _, rfl, rfl, ?_⟩
  intro h
  have hbyte := (h _ .refl 0x1000 (by decide) (by decide)).2
  revert hbyte
  decide

end FileData

end UOS
