import Cofuos.FileSystem.Durable

/-!
# A write that is cut short

When the memory of the process cannot be read up to the end of a request to write, the last round
moves less bytes than it wanted to. A round that writes whole sectors has cleared them before, so that
the bytes of the file that have not been replaced are lost. A round that writes a part of a sector
has loaded the page, and keeps them.
-/

namespace UOS

namespace FileData

open Exfat (SECTOR_SIZE)
open Disk (Pages)

variable {debug : Bool} {updateChain : ℕ → Dm → Bool × Dm} {updateSize : Bool} {rounds : ℕ}
  {others : ℕ → Pages Boot.Bytes → Pages Boot.Bytes} {mem : UserMemory}
  {buffer length n p l lba size t : ℕ} {w w' w₀ r : Writing}

/-- The number of bytes of a request that can be read. -/
def provided (mem : UserMemory) (buffer length : ℕ) : ℕ :=
  UserMemory.accepted mem.pageUser buffer length

/-- Where the round begins in which the byte at an offset is moved, for the sector of the byte. -/
def chunkStart (fs : Exfat) (start x sector : ℕ) : ℕ :=
  x - min (min (sector % 8 * SECTOR_SIZE + x % SECTOR_SIZE) (x % fs.clusterSize)) (x - start)

/-- Where the round ends in which the byte at an offset is moved, for the sector of the byte. -/
def chunkEnd (fs : Exfat) (stop x sector : ℕ) : ℕ :=
  x + min (min ((8 - sector % 8) * SECTOR_SIZE - x % SECTOR_SIZE)
    (fs.clusterSize - x % fs.clusterSize)) (stop - x)

/-- Whatever other threads do to the cache, the bytes that were valid and have not been replaced are
read as before. -/
def KeepsRest (w r : Writing) (moved : ℕ) : Prop :=
  ∀ pages, Pages.Background r.pages pages → ∀ p < w.validSize,
    ¬ (w.offset ≤ p ∧ p < w.offset + moved) →
    r.data.clusterAt r.fs (p / r.fs.clusterSize) ≠ 0 ∧
      r.data.logicalByte r.fs r.validSize pages.view p = w.data.byteAt w.fs w.pages.view p

/-- The round in which the first byte is moved that cannot be read writes whole sectors, and one of
the bytes that it does not replace was valid and not zero. -/
def Loses (mem : UserMemory) (buffer length : ℕ) (w : Writing) : Prop :=
  ∃ x, x = w.offset + provided mem buffer length ∧
    ∃ sector, sector = w.data.sectorAt w.fs x ∧
      overwrite (chunkStart w.fs w.offset x sector)
        (chunkEnd w.fs (w.offset + length) x sector - chunkStart w.fs w.offset x sector) = true ∧
      ∃ p, x ≤ p ∧ p < chunkEnd w.fs (w.offset + length) x sector ∧ p < w.validSize ∧
        w.data.byteAt w.fs w.pages.view p ≠ 0

theorem count_eq (lba : ℕ) : Disk.count lba = 8 - lba % 8 := by
  rw [Disk.count]
  split_ifs <;> lia

/-- The place in its page of a sector that follows that of an offset, for a byte that follows. -/
theorem place_add {sector o : ℕ}
    (hsector : sector = lba + ((o + t) / SECTOR_SIZE - o / SECTOR_SIZE))
    (hpage : o % SECTOR_SIZE + t < (8 - lba % 8) * SECTOR_SIZE) :
  sector % 8 * SECTOR_SIZE + (o + t) % SECTOR_SIZE = lba % 8 * SECTOR_SIZE + o % SECTOR_SIZE + t
  := by
  rw [SECTOR_SIZE] at *
  lia

/-- What is left of a page at a place and so many bytes after it. -/
theorem rest_of_place {sector r r' : ℕ}
    (h : sector % 8 * SECTOR_SIZE + r' = lba % 8 * SECTOR_SIZE + r + t) :
  (8 - sector % 8) * SECTOR_SIZE - r' = (8 - lba % 8) * SECTOR_SIZE - r - t
  := by
  rw [Nat.sub_mul, Nat.sub_mul, Nat.sub_sub, h, Nat.add_assoc, ← Nat.sub_sub, ← Nat.sub_sub]

/-- The least of three bounds is the one that is attained. -/
theorem min_min_eq {a b c : ℕ} (ha : t ≤ a) (hb : t ≤ b) (hc : t ≤ c)
    (h : a = t ∨ b = t ∨ c = t) :
  min (min a b) c = t
  := by
  rcases h with rfl | rfl | rfl
  · rw [Nat.min_eq_left hb, Nat.min_eq_left hc]
  · rw [Nat.min_eq_right ha, Nat.min_eq_left hc]
  · exact Nat.min_eq_right (Nat.le_min.2 ⟨ha, hb⟩)

/-- The least of three bounds, seen from a place before it. -/
theorem add_min_sub {a b c : ℕ} (h : t < min (min a b) c) :
  t + min (min (a - t) (c - t)) (b - t) = min (min a b) c
  := by
  rw [Nat.sub_min_sub_right, Nat.sub_min_sub_right, min_right_comm, Nat.add_sub_cancel' h.le]

/-- The round in which a byte is moved. -/
theorem Written.chunk_eq (h : Written debug mem buffer length w₀ w)
    (hround : Round debug updateChain rounds mem length w r lba size) (ht : t < size) {x sector : ℕ}
    (hx : x = w.offset + t) (hsector : r.file.sectors r.fs (x / SECTOR_SIZE) = some sector) :
  chunkStart r.fs w₀.offset x sector = w.offset ∧
    chunkEnd r.fs (w₀.offset + length) x sector = w.offset + size
  := by
  obtain ⟨-, hextends, hlba, -⟩ := h.found hround
  have hfits := hextends.sizeFits h.fits
  have hlt := hround.lt
  have hoffset := h.offset
  obtain ⟨-, -, hcluster, hpage⟩ :=
    transferSize_spec r.fs lba w.offset (length - w.len) (Nat.sub_pos_of_lt hlt)
  rw [← hround.size_eq] at hcluster hpage
  rw [count_eq] at hpage
  subst hx
  -- the byte is in the same page and in the same cluster
  have hnext := sectors_of_copied (n := size) (d := (w.offset + t) / SECTOR_SIZE
    - w.offset / SECTOR_SIZE) hfits hlba hcluster (by rw [SECTOR_SIZE]; lia)
  rw [Nat.add_sub_cancel' (Nat.div_le_div_right (Nat.le_add_right _ _)), hsector] at hnext
  have hmod : (w.offset + t) % r.fs.clusterSize = w.offset % r.fs.clusterSize + t := by
    rw [Nat.add_mod, Nat.mod_eq_of_lt (show t < r.fs.clusterSize by lia),
      Nat.mod_eq_of_lt (by lia)]
  -- its place in the page is that of the first byte of the round, and so many bytes more
  have hplace := place_add (t := t) (Option.some.inj hnext) (by lia)
  rw [chunkStart, chunkEnd, hmod, hplace, rest_of_place hplace, ← Nat.sub_sub]
  constructor
  · have hstart : lba % 8 * SECTOR_SIZE + w.offset % SECTOR_SIZE + t = t ∨
        w.offset % r.fs.clusterSize + t = t ∨ w.offset + t - w₀.offset = t := by
      rcases h.starts with hzero | hend | hstart | ⟨l, hl, hzero, hoff⟩
      · right
        right
        lia
      · lia
      · right
        left
        rw [hextends.clusterSize_eq, hstart, Nat.zero_add]
      · left
        obtain rfl := Option.some.inj ((hextends.sectors_eq hl).symm.trans hlba)
        rw [hzero, hoff, Nat.zero_mul, Nat.zero_add]
    rw [min_min_eq (Nat.le_add_left _ _) (Nat.le_add_left _ _) (by lia) hstart,
      Nat.add_sub_cancel]
  · have hsize := hround.size_eq
    rw [transferSize, count_eq] at hsize
    have hrest : w₀.offset + length - (w.offset + t) = length - w.len - t := by
      rw [hoffset]
      lia
    rw [hrest, Nat.add_assoc, add_min_sub (by rw [← hsize]; exact ht), hsize]

/-- How a request that is cut short ends. -/
theorem Ready.short (h : Ready debug length w) (hothers : ∀ n c, Pages.Background c (others n c))
    (hloop : writeLoop debug updateChain rounds others mem length n (w.start buffer) = .ok r)
    (hr : r.Undisturbed) (hshort : provided mem buffer length < length) :
  Extends w.fs w.file r.fs r.file ∧ ∃ w' lba size, Written debug mem buffer length (w.start buffer) w' ∧
    Round debug updateChain rounds mem length w' r lba size ∧ w'.accepts mem size < size ∧
    r.len = provided mem buffer length ∧ r.len = w'.len + w'.accepts mem size
  := by
  obtain ⟨hextends, hend⟩ := (h.written mem buffer).run hothers hloop hr
  refine ⟨hextends, ?_⟩
  rw [provided] at hshort ⊢
  rcases hend with ⟨hwritten, hlen⟩ | ⟨w', lba, size, hw', -, hround, hor⟩
  · have haccepted := hwritten.accepted
    rw [hlen] at haccepted
    lia
  obtain ⟨-, hrest, -, -⟩ :=
    transferSize_spec r.fs lba w'.offset (length - w'.len) (Nat.sub_pos_of_lt hround.lt)
  rw [← hround.size_eq] at hrest
  have hlt := hround.lt
  have hlen := hround.len
  have hle : w'.accepts mem size ≤ size := UserMemory.accepted_le _ _ _
  have haccepted : UserMemory.accepted mem.pageUser buffer (w'.len + size)
      = w'.len + w'.accepts mem size := by
    rw [UserMemory.accepted_append hw'.accepted, ← hw'.sor]
    rfl
  rcases hor with hno | ⟨hall, hspills⟩
  · refine ⟨w', lba, size, hw', hround, by lia, ?_, hlen⟩
    rw [UserMemory.accepted_of_lt (n := w'.len + size) (by lia) (by lia), haccepted, hlen]
  · obtain ⟨hzero, rfl⟩ := hw'.spills hround hspills
    rw [hzero, Nat.zero_add] at haccepted
    lia

theorem or_and_self (x b : BitVec 16) : (x ||| b) &&& b = b := by
  apply BitVec.eq_of_getLsbD_eq
  intro i hi
  rw [BitVec.getLsbD_and, BitVec.getLsbD_or]
  cases b.getLsbD i <;> simp

/-- The bytes that a request which is cut short has not replaced. -/
theorem Round.kept_short (h : Ready debug length w)
    (hextends : Extends w.fs w.file r.fs r.file)
    (hw' : Written debug mem buffer length (w.start buffer) w')
    (hround : Round debug updateChain rounds mem length w' r lba size)
    (hp : p < w.validSize) (hout : ¬ (w.offset ≤ p ∧ p < w.offset + r.len))
    {pages : Pages Boot.Bytes} (hb : Pages.Background r.pages pages) :
  r.data.clusterAt r.fs (p / r.fs.clusterSize) ≠ 0 ∧
    r.data.logicalByte r.fs r.validSize pages.view p =
      if overwrite w'.offset size = true ∧ w'.offset ≤ p ∧ p < w'.offset + size then 0
      else w.data.byteAt w.fs w.pages.view p
  := by
  obtain ⟨hfile, hlonger, hlba, -⟩ := hw'.found hround
  have hfits := hlonger.sizeFits hw'.fits
  have hl := h.sectors_eq hextends hp
  have hl' := h.sectors_eq (r := w') hw'.longer hp
  have hle := h.valid_le
  have hlen := hround.len
  have hoffset := hw'.offset
  have hvalid := hround.validSize
  have hsize := hround.fileSize
  change w'.offset = w.offset + w'.len at hoffset
  have hvalid' : w.validSize ≤ w'.validSize := by
    rw [hw'.validSize]
    change w.validSize ≤ if _ then w.validSize else max w.validSize _
    split_ifs
    · rfl
    · exact le_max_left _ _
  have hold : w'.pages.settled (w.data.sectorAt w.fs p) (p % SECTOR_SIZE)
      = w.data.byteAt w.fs w.pages.view p := by
    rw [hw'.bytes p _ hl', if_neg]
    · rw [byteAt, h.clean.view_eq]
      rfl
    · change ¬ (w.offset ≤ p ∧ p < w'.offset)
      lia
  have hshows := (hround.shows hw'.clean hfile hfits hlba hl).2.2 (by lia)
  rw [hold] at hshows
  obtain ⟨hc, hbyte⟩ := r.byteAt_data pages.view hfits (by lia) hl
  refine ⟨hc, ?_⟩
  rw [logicalByte, if_pos (by lia), hbyte]
  exact (hshows.background hb).1

/-- A request that is cut short by the memory of the process reports how many bytes it has moved. It
keeps the other bytes of the file exactly if the last round does not write whole sectors over bytes
that are not zero. -/
theorem keepsRest_iff (h : Ready debug length w) (hothers : ∀ n c, Pages.Background c (others n c))
    (hbuffer : buffer ≠ 0) (hlength : length ≠ 0)
    (hloop : writeLoop debug updateChain rounds others mem length (length + 1) (w.start buffer)
      = .ok w')
    (hundisturbed : w'.Undisturbed) (hshort : provided mem buffer length < length) :
  ∃ r, workerWrite debug updateChain updateSize rounds others mem buffer length w = .ok r ∧
    r.iostate &&& File.MEM_FAILURE = File.MEM_FAILURE ∧ r.len = provided mem buffer length ∧
    (KeepsRest w r (provided mem buffer length) ↔ ¬ Loses mem buffer length w)
  := by
  obtain ⟨hextends, w₁, lba, size, hw₁, hround, hless, hlen, hlen₁⟩ :=
    h.short hothers hloop hundisturbed hshort
  have hoffset := hw₁.offset
  change w₁.offset = w.offset + w₁.len at hoffset
  have hiostate := hround.iostate
  rw [if_neg hless.ne] at hiostate
  have hkeeps : KeepsRest w w' (provided mem buffer length) ↔ ¬ Loses mem buffer length w := by
    have hchunk : w.offset + provided mem buffer length < w.validSize →
        chunkStart w.fs w.offset (w.offset + provided mem buffer length)
          (w.data.sectorAt w.fs (w.offset + provided mem buffer length)) = w₁.offset ∧
        chunkEnd w.fs (w.offset + length) (w.offset + provided mem buffer length)
          (w.data.sectorAt w.fs (w.offset + provided mem buffer length)) = w₁.offset + size := by
      intro hx
      have hchunk := hw₁.chunk_eq hround hless (by rw [hoffset, ← hlen, hlen₁, Nat.add_assoc])
        (h.sectors_eq hextends hx)
      rw [chunkStart, chunkEnd, hextends.clusterSize_eq] at hchunk
      exact hchunk
    constructor
    · rintro hkeeps ⟨x, rfl, sector, rfl, hover, p, hle, hlt, hp, hne⟩
      obtain ⟨hstart, hstop⟩ := hchunk (by omega)
      rw [hstart, hstop, Nat.add_sub_cancel_left] at hover
      rw [hstop] at hlt
      have hout : ¬ (w.offset ≤ p ∧ p < w.offset + provided mem buffer length) := by omega
      obtain ⟨-, hread⟩ := hkeeps _ .refl p hp hout
      rw [(hround.kept_short h hextends hw₁ hp (by rwa [hlen]) .refl).2, if_pos] at hread
      · exact hne hread.symm
      · exact ⟨hover, by omega, hlt⟩
    · intro hloses pages hb p hp hout
      obtain ⟨hc, hread⟩ := hround.kept_short h hextends hw₁ hp (by rwa [hlen]) hb
      refine ⟨hc, ?_⟩
      rw [hread]
      split_ifs with hin
      · by_contra hne
        obtain ⟨hover, hle, hlt⟩ := hin
        obtain ⟨hstart, hstop⟩ := hchunk (by omega)
        apply hloses
        refine ⟨_, rfl, _, rfl, ?_, p, by omega, by rwa [hstop], hp, Ne.symm hne⟩
        rw [hstart, hstop, Nat.add_sub_cancel_left]
        exact hover
      · rfl
  have hworker : workerWrite debug updateChain updateSize rounds others mem buffer length w
      = if (w'.validSize ≠ w.validSize ∨ w'.fileSize ≠ w.fileSize) ∧ updateSize = false then
        .ok { w' with iostate := w'.iostate ||| File.FS_FAILURE } else .ok w' := by
    rw [workerWrite, if_neg (by omega), Fault.assert_eq_ok (fun _ => h.valid_le), Except.ok_bind]
    change (writeLoop debug updateChain rounds others mem length (length + 1) (w.start buffer)
      >>= _) = _
    rw [hloop, Except.ok_bind]
    rfl
  rw [hworker]
  split_ifs
  · refine ⟨_, rfl, ?_, hlen, hkeeps⟩
    dsimp only
    rw [hiostate, BitVec.or_assoc, BitVec.or_comm _ File.FS_FAILURE, ← BitVec.or_assoc, or_and_self]
  · exact ⟨_, rfl, by rw [hiostate, or_and_self], hlen, hkeeps⟩

/-! ### A memory with one page -/

/-- A memory of which only the page at `0x1000` is present. -/
def onePage : UserMemory := ⟨fun _ => 1, fun page => page = 1, fun _ => true⟩

/-- A request to write the last two bytes of the page, and bytes that are not there. -/
def writeShort (length : ℕ) : Except Fault Writing :=
  workerWrite true (fun _ dm => (true, dm)) true 1 (fun _ c => c) onePage 0x1FFE length
    (writing 0x200 0x3000 (uniform 7))

set_option maxRecDepth 2000 in
/-- A request for a part of a sector is cut short and keeps the rest. -/
theorem keepsRest_part :
  (∃ r, writeShort 4 = .ok r ∧ r.iostate &&& File.MEM_FAILURE = File.MEM_FAILURE ∧
    r.len = provided onePage 0x1FFE 4 ∧
    (KeepsRest (writing 0x200 0x3000 (uniform 7)) r (provided onePage 0x1FFE 4) ↔
      ¬ Loses onePage 0x1FFE 4 (writing 0x200 0x3000 (uniform 7)))) ∧
    ¬ Loses onePage 0x1FFE 4 (writing 0x200 0x3000 (uniform 7))
  := by
  obtain ⟨w', hloop, hundisturbed⟩ : ∃ w', writeLoop true (fun _ dm => (true, dm)) 1 (fun _ c => c)
      onePage 4 5 ((writing 0x200 0x3000 (uniform 7)).start 0x1FFE) = .ok w' ∧ w'.Undisturbed :=
    ⟨_, rfl, rfl⟩
  refine ⟨keepsRest_iff (ready_writing 7 (by decide) (by decide)) (fun _ _ => .refl) (by decide)
    (by decide) hloop hundisturbed (by decide), ?_⟩
  rintro ⟨x, rfl, sector, rfl, hover, -⟩
  revert hover
  decide

/-- A request for a whole sector is cut short and has cleared the rest of it. -/
theorem short_clears :
  Ready true 0x200 (writing 0x200 0x3000 (uniform 7)) ∧ provided onePage 0x1FFE 0x200 = 2 ∧
    ∃ r, writeShort 0x200 = .ok r ∧ r.len = 2 ∧
      ¬ KeepsRest (writing 0x200 0x3000 (uniform 7)) r 2
  := by
  refine ⟨ready_writing 7 (by decide) (by decide),
    UserMemory.accepted_of_lt (n := 3) (by decide) (by decide), _, rfl, rfl, ?_⟩
  intro h
  have hbyte := (h _ .refl 0x202 (by decide) (by decide)).2
  revert hbyte
  decide

end FileData

end UOS
