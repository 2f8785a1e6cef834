import Cofuos.FileSystem.FileOffset
import Cofuos.FileSystem.Worker
import Cofuos.Interface.UserMemory

/-!
# What is read from a file

`exfat::worker_read` of `kernel/filesystem/worker.cpp` copies the bytes of a file to the memory of a
process, as far as they are valid, and clears the memory for the bytes between the valid size and the
size of the file. A round of its loop stays in one page of the disk cache and in one cluster.

The sectors are given by their contents as they are found in the cache. The round that clears memory
advances neither the offset of the file nor the address, and takes the number of bytes from the
beginning of the part that is not valid.
-/

namespace UOS

namespace FileData

open Exfat (SECTOR_SIZE)

/-! ### The bytes of a file -/

/-- The sector of the byte at an offset of a file that has a cluster there. -/
def sectorAt (fs : Exfat) (f : FileData) (offset : ℕ) : ℕ :=
  fs.heap + (f.clusterAt fs (offset / fs.clusterSize) - 2) * (fs.clusterSize / SECTOR_SIZE)
    + offset % fs.clusterSize / SECTOR_SIZE

/-- The byte at an offset of a file, for the contents of the sectors. -/
def byteAt (fs : Exfat) (f : FileData) (content : ℕ → Boot.Bytes) (offset : ℕ) : UInt8 :=
  content (f.sectorAt fs offset) (offset % SECTOR_SIZE)

/-- The file has a cluster for each byte up to a size. -/
def Covers (fs : Exfat) (f : FileData) (size : ℕ) : Prop :=
  ∀ offset < size, f.clusterAt fs (offset / fs.clusterSize) ≠ 0

/-- How far a request has come. -/
structure Progress where
  offset : ℕ
  dst : ℕ
  len : ℕ
  iostate : BitVec 16
  mem : UserMemory
  clusters : ClusterChain
  dm : Dm

/-- The bytes of the sectors of a page, from an offset in one of them on. -/
def bytesFrom (content : ℕ → Boot.Bytes) (lba off : ℕ) : Boot.Bytes := fun i =>
  content (lba + (off + i) / SECTOR_SIZE) ((off + i) % SECTOR_SIZE)

/-- The loop of `worker_read`. -/
def readLoop (debug : Bool) (fs : Exfat) (content : ℕ → Boot.Bytes)
    (fileSize validSize length : ℕ) : ℕ → Progress → Except Fault Progress
  | 0, _ => .error .outOfFuel
  | n + 1, p =>
    if p.len < length then
      if fileSize ≤ p.offset then
        return { p with iostate := p.iostate ||| File.EOF_FAILURE }
      else if validSize ≤ p.offset then
        let size := min (fileSize - validSize) (length - p.len)
        let (transferred, mem) := p.mem.zero p.dst size
        let p := { p with len := p.len + transferred, mem := mem }
        if transferred ≠ size then
          return { p with iostate := p.iostate ||| File.MEM_FAILURE }
        else
          readLoop debug fs content fileSize validSize length n p
      else do
        let (lba, _, clusters, dm) ←
          getLba debug (fun _ dm => (true, dm)) false p.offset 1 fs p.clusters p.dm
        let p := { p with clusters := clusters, dm := dm }
        if lba = 0 then
          return { p with iostate := p.iostate ||| File.FS_FAILURE }
        else
          let off := p.offset % SECTOR_SIZE
          let size := min (Disk.count lba * SECTOR_SIZE - off) (length - p.len)
          let size := min size (validSize - p.offset)
          let size := min size (fs.clusterSize - p.offset % fs.clusterSize)
          Fault.assert debug (size ≠ 0)
          match p.dm.get lba with
          | (none, dm) =>
            return { p with dm := dm, iostate := p.iostate ||| File.MEDIA_FAILURE }
          | (some page, dm) =>
            let (transferred, mem) := p.mem.write p.dst (bytesFrom content lba off) size
            let p := { p with
              offset := p.offset + transferred
              dst := p.dst + transferred
              len := p.len + transferred
              mem := mem
              dm := dm.relax page }
            if transferred ≠ size then
              return { p with iostate := p.iostate ||| File.MEM_FAILURE }
            else
              readLoop debug fs content fileSize validSize length n p
    else
      return p

/-- `exfat::worker_read`, whose result has the length in `len`. -/
def workerRead (debug : Bool) (fs : Exfat) (f : FileData) (validSize : ℕ)
    (content : ℕ → Boot.Bytes) (q : File.Request) (iostate : BitVec 16) (mem : UserMemory) (dm : Dm) :
    Except Fault Progress :=
  let p : Progress :=
    { offset := q.offset, dst := q.buffer, len := 0, iostate := iostate, mem := mem,
      clusters := f.clusters, dm := dm }
  if q.buffer = 0 ∨ q.length = 0 then
    return { p with iostate := p.iostate ||| File.MEM_FAILURE }
  else do
    Fault.assert debug (validSize ≤ f.allocSize)
    readLoop debug fs content f.allocSize validSize q.length (q.length + 1) p

/-- The number of bytes that are to be read. -/
def readable (f : FileData) (q : File.Request) : ℕ := min q.length (f.allocSize - q.offset)

/-- The byte that is to be read for an offset. -/
def logicalByte (fs : Exfat) (f : FileData) (validSize : ℕ) (content : ℕ → Boot.Bytes)
    (offset : ℕ) : UInt8 :=
  if offset < validSize then f.byteAt fs content offset else 0

/-- A request to read gets the bytes of the file up to its end, and zeros for those that are not
valid. It advances the offset and reports the end of the file. -/
def ReadsRight (debug : Bool) (fs : Exfat) (f : FileData) (validSize : ℕ)
    (content : ℕ → Boot.Bytes) (q : File.Request) (iostate : BitVec 16) (mem : UserMemory) (dm : Dm) :
    Prop :=
  ∃ p, workerRead debug fs f validSize content q iostate mem dm = .ok p ∧
    p.len = f.readable q ∧ p.offset = q.offset + f.readable q ∧
    p.iostate = (if f.readable q < q.length then iostate ||| File.EOF_FAILURE else iostate) ∧
    p.mem = mem.fill q.buffer (f.readable q)
      fun i => f.logicalByte fs validSize content (q.offset + i)

/-- The request reaches bytes of the file that are not valid. -/
def Beyond (f : FileData) (validSize : ℕ) (q : File.Request) : Prop :=
  validSize < f.allocSize ∧ q.offset < f.allocSize ∧ validSize < q.offset + q.length

/-! ### Finding the sectors -/

variable {debug : Bool} {updateChain : ℕ → Dm → Bool × Dm} {fs : Exfat} {f : FileData}
  {content : ℕ → Boot.Bytes} {dm : Dm} {validSize offset i n : ℕ}

theorem sector_dvd_cluster (h : SizeFits fs) : SECTOR_SIZE ∣ fs.clusterSize := by
  rw [Exfat.clusterSize, show SECTOR_SIZE = 2 ^ 9 from rfl]
  apply pow_dvd_pow 2 h.1

/-- The sectors of a cluster follow each other. -/
theorem sectorAt_add (hfits : SizeFits fs) (hi : i < fs.clusterSize - offset % fs.clusterSize) :
  f.sectorAt fs (offset + i) = f.sectorAt fs offset + (offset % SECTOR_SIZE + i) / SECTOR_SIZE ∧
    (offset + i) % SECTOR_SIZE = (offset % SECTOR_SIZE + i) % SECTOR_SIZE
  := by
  have hpos : 0 < fs.clusterSize := Nat.two_pow_pos _
  have hmod := Nat.mod_lt offset hpos
  have hdiv : (offset + i) / fs.clusterSize = offset / fs.clusterSize := by
    apply Nat.div_eq_of_lt_le
    · have := Nat.div_mul_le_self offset fs.clusterSize
      omega
    · have := Nat.div_add_mod' offset fs.clusterSize
      rw [Nat.succ_mul]
      lia
  have hrest : (offset + i) % fs.clusterSize = offset % fs.clusterSize + i := by
    rw [Nat.add_mod, Nat.mod_eq_of_lt (show i < fs.clusterSize by lia),
      Nat.mod_eq_of_lt (by lia)]
  have hsector : offset % fs.clusterSize % SECTOR_SIZE = offset % SECTOR_SIZE :=
    Nat.mod_mod_of_dvd _ (sector_dvd_cluster hfits)
  constructor
  · rw [sectorAt, sectorAt, hdiv, hrest, ← hsector, SECTOR_SIZE]
    lia
  · rw [Nat.mod_add_mod]

/-- The bytes of a cluster are found from its first sector on. -/
theorem bytesFrom_sectorAt (hfits : SizeFits fs)
    (hi : i < fs.clusterSize - offset % fs.clusterSize) :
  bytesFrom content (f.sectorAt fs offset) (offset % SECTOR_SIZE) i
    = f.byteAt fs content (offset + i)
  := by
  obtain ⟨hsector, hmod⟩ := sectorAt_add (f := f) hfits hi
  rw [bytesFrom, byteAt, hsector, hmod]

/-- The cluster of a byte is looked up, if the accesses to the disk succeed. -/
theorem Consistent.get_eq (h : Consistent debug fs f) (hdm : dm.Succeeds) {k : ℕ}
    (hk : f.clusterAt fs k ≠ 0) :
  ∃ c' dm', f.clusters.get debug fs dm (k % 2 ^ 32) = .ok (f.clusterAt fs k, c', dm') ∧
    Consistent debug fs { f with clusters := c' } ∧
    (∀ k, ({ f with clusters := c' } : FileData).clusterAt fs k = f.clusterAt fs k) ∧ dm'.Succeeds
  := by
  cases hl : f.clusters.linear with
  | true =>
      refine ⟨f.clusters, dm, ?_, h, fun _ => rfl, hdm⟩
      rw [clusterAt_linear hl] at hk ⊢
      split_ifs at hk ⊢ with hin
      · have hrow := h.row hl hin.1
        have hcount := h.count
        rw [ClusterChain.get, if_neg hin.1, if_pos hl, Nat.add_mod_mod, Nat.mod_eq_of_lt (by lia)]
        rfl
      · apply absurd rfl hk
  | false =>
      have hlt : k < 2 ^ 32 := by
        by_contra hge
        apply hk
        apply h.clusterAt_eq_zero hl (not_lt.1 hge)
      obtain ⟨c', dm', hget, -⟩ :=
        ClusterChain.get_eq (h.chain hl).intact (h.chain hl).right hl hdm k
      obtain ⟨-, hc, -, hsame⟩ := h.looked hl hget
      refine ⟨c', dm', ?_, hc, hsame, ?_⟩
      · rw [Nat.mod_eq_of_lt hlt, hget, clusterAt_chain hl]
      · intro n
        rw [ClusterChain.get_succeeds_eq hget]
        apply hdm

/-- The sector of a byte that has a cluster is found, if the accesses to the disk succeed. -/
theorem Consistent.getLba_eq (updateChain : ℕ → Dm → Bool × Dm) (n : ℕ)
    (h : Consistent debug fs f) (hdm : dm.Succeeds)
    (hk : f.clusterAt fs (offset / fs.clusterSize) ≠ 0) :
  ∃ c' dm',
    getLba debug updateChain false offset (n + 1) fs f.clusters dm
      = .ok (f.sectorAt fs offset, fs, c', dm') ∧
    f.sectorAt fs offset ≠ 0 ∧ Consistent debug fs { f with clusters := c' } ∧
    (∀ k, ({ f with clusters := c' } : FileData).clusterAt fs k = f.clusterAt fs k) ∧ dm'.Succeeds
  := by
  obtain ⟨c', dm', hget, hc, hsame, hdm'⟩ := h.get_eq hdm hk
  obtain ⟨h₂, hlt⟩ := h.clusterAt_bounds hk
  obtain ⟨lba, h₀, rfl, hlba⟩ := h.getLba_found hget h₂ hlt
  exact ⟨c', dm', hlba, h₀, hc, hsame, hdm'⟩

/-! ### The rounds of the loop -/

/-- So many bytes of the file have been read. -/
structure Reads (debug : Bool) (fs : Exfat) (f : FileData) (content : ℕ → Boot.Bytes)
    (q : File.Request) (iostate : BitVec 16) (mem : UserMemory) (p : Progress) : Prop where
  offset : p.offset = q.offset + p.len
  dst : p.dst = q.buffer + p.len
  iostate : p.iostate = iostate
  mem : p.mem = mem.fill q.buffer p.len fun i => f.byteAt fs content (q.offset + i)
  file : Consistent debug fs { f with clusters := p.clusters }
  same : ∀ k, ({ f with clusters := p.clusters } : FileData).clusterAt fs k = f.clusterAt fs k
  dm : p.dm.Succeeds

variable {q : File.Request} {iostate : BitVec 16} {mem : UserMemory} {p p' : Progress}
  {fileSize length : ℕ}

/-- There is room for a byte in the page and in the cluster. -/
theorem room_pos (fs : Exfat) (lba offset : ℕ) :
  0 < Disk.count lba * SECTOR_SIZE - offset % SECTOR_SIZE ∧
    0 < fs.clusterSize - offset % fs.clusterSize
  := by
  have hcount : 0 < Disk.count lba := by
    rw [Disk.count]
    split_ifs
    · decide
    · lia
  have hsector := Nat.mod_lt offset (show 0 < SECTOR_SIZE by decide)
  have hcluster := Nat.mod_lt offset (show 0 < fs.clusterSize from Nat.two_pow_pos _)
  have := Nat.le_mul_of_pos_left SECTOR_SIZE hcount
  lia

/-- A round that finds valid bytes copies some of them. -/
theorem Reads.round (h : Reads debug fs f content q iostate mem p) (hfits : SizeFits fs)
    (hcovers : f.Covers fs validSize) (hsize : validSize ≤ fileSize)
    (hwritable : ∀ i < q.length, mem.writable ((q.buffer + i) / UserMemory.PAGE_SIZE) = true)
    (hlt : p.len < q.length) (hvalid : p.offset < validSize) :
  ∃ p', readLoop debug fs content fileSize validSize q.length (n + 1) p
      = readLoop debug fs content fileSize validSize q.length n p' ∧
    Reads debug fs f content q iostate mem p' ∧ p.len < p'.len ∧ p'.len ≤ q.length ∧
    p'.offset ≤ validSize
  := by
  have hk : ({ f with clusters := p.clusters } : FileData).clusterAt fs
      (p.offset / fs.clusterSize) ≠ 0 := by
    rw [h.same]
    apply hcovers _ hvalid
  obtain ⟨c', dm', hlba, h₀, hfile, hsame, hdm⟩ := h.file.getLba_eq
    (fun _ dm => (true, dm)) 0 h.dm hk
  have hat : ({ f with clusters := p.clusters } : FileData).sectorAt fs p.offset
      = f.sectorAt fs p.offset := by
    rw [sectorAt, h.same, sectorAt]
  rw [hat] at hlba h₀
  obtain ⟨dm'', hget, hdm''⟩ := Dm.get_eq hdm (f.sectorAt fs p.offset)
  obtain ⟨hpage, hcluster⟩ := room_pos fs (f.sectorAt fs p.offset) p.offset
  obtain ⟨size, hdef⟩ : ∃ size, size = min (min (min (Disk.count (f.sectorAt fs p.offset)
      * SECTOR_SIZE - p.offset % SECTOR_SIZE) (q.length - p.len)) (validSize - p.offset))
      (fs.clusterSize - p.offset % fs.clusterSize) := ⟨_, rfl⟩
  -- all bytes are accepted
  have hall : UserMemory.accepted p.mem.writable p.dst size = size := by
    apply UserMemory.accepted_eq
    intro i hi
    rw [h.mem, UserMemory.fill_writable, h.dst, Nat.add_assoc]
    apply hwritable
    lia
  have hbytes : p.mem.write p.dst (bytesFrom content (f.sectorAt fs p.offset)
      (p.offset % SECTOR_SIZE)) size
      = (size, mem.fill q.buffer (p.len + size) fun i => f.byteAt fs content (q.offset + i)) := by
    rw [UserMemory.write_eq, hall, h.mem, h.dst,
      ← UserMemory.fill_fill mem q.buffer p.len size]
    congr 1
    apply UserMemory.fill_congr
    intro i hi
    rw [bytesFrom_sectorAt hfits (by lia), h.offset, Nat.add_assoc]
  have hround : readLoop debug fs content fileSize validSize q.length (n + 1) p
      = readLoop debug fs content fileSize validSize q.length n
        { offset := p.offset + size, dst := p.dst + size, len := p.len + size,
          iostate := p.iostate,
          mem := mem.fill q.buffer (p.len + size) fun i => f.byteAt fs content (q.offset + i),
          clusters := c', dm := dm''.relax (Disk.pageLba (f.sectorAt fs p.offset)) } := by
    rw [readLoop, if_pos hlt, if_neg (by lia), if_neg (by lia), hlba, Except.ok_bind]
    dsimp only
    rw [if_neg h₀, ← hdef, Fault.assert_eq_ok (fun _ => by lia), Except.ok_bind, hget]
    dsimp only
    rw [hbytes, if_neg (not_not.2 rfl)]
  refine ⟨_, hround, ⟨?_, ?_, h.iostate, rfl, hfile, ?_, ?_⟩, ?_, ?_, ?_⟩
  · dsimp only
    rw [h.offset, Nat.add_assoc]
  · dsimp only
    rw [h.dst, Nat.add_assoc]
  · intro k
    rw [← h.same k]
    apply hsame
  · apply hdm''
  · dsimp only
    lia
  · dsimp only
    lia
  · dsimp only
    lia

/-- The rounds copy the valid bytes. -/
theorem Reads.run (h : Reads debug fs f content q iostate mem p) (hfits : SizeFits fs)
    (hcovers : f.Covers fs validSize) (hsize : validSize ≤ fileSize)
    (hwritable : ∀ i < q.length, mem.writable ((q.buffer + i) / UserMemory.PAGE_SIZE) = true)
    (hle : p.len ≤ q.length) (hn : q.length < p.len + n) :
  ∃ p' n', readLoop debug fs content fileSize validSize q.length n p
      = readLoop debug fs content fileSize validSize q.length (n' + 1) p' ∧
    Reads debug fs f content q iostate mem p' ∧ p'.len ≤ q.length ∧
    (p'.offset ≤ validSize ∨ p'.offset = p.offset) ∧
    (p'.len = q.length ∨ validSize ≤ p'.offset)
  := by
  induction n generalizing p with
  | zero => lia
  | succ n ih =>
      by_cases hstop : p.len = q.length ∨ validSize ≤ p.offset
      · exact ⟨p, n, rfl, h, hle, .inr rfl, hstop⟩
      rw [not_or, not_le] at hstop
      obtain ⟨p₁, hround, h₁, hlt, hle₁, hoffset⟩ :=
        h.round (n := n) hfits hcovers hsize hwritable (by lia) hstop.2
      obtain ⟨p₂, n', hrun, h₂, hle₂, hoffset₂, hend⟩ := ih h₁ hle₁ (by lia)
      refine ⟨p₂, n', hround.trans hrun, h₂, hle₂, ?_, hend⟩
      lia

/-- The rounds that clear memory do not advance the offset. -/
theorem readLoop_beyond (hvalid : validSize ≤ p.offset)
    (hloop : readLoop debug fs content fileSize validSize length n p = .ok p') :
  p'.offset = p.offset
  := by
  induction n generalizing p with
  | zero => cases hloop
  | succ n ih =>
      rw [readLoop, if_pos hvalid] at hloop
      split_ifs at hloop
      · cases hloop
        rfl
      · dsimp only at hloop
        split_ifs at hloop
        · cases hloop
          rfl
        · refine (ih ?_ hloop).trans rfl
          exact hvalid
      · cases hloop
        rfl

/-- A request for a file whose valid bytes have clusters, and for memory that can be written, is
carried out rightly exactly if it does not reach bytes that are not valid. -/
theorem readsRight_iff (h : Consistent debug fs f) (hfits : SizeFits fs)
    (hsize : validSize ≤ f.allocSize) (hcovers : f.Covers fs validSize) (hdm : dm.Succeeds)
    (hbuffer : q.buffer ≠ 0) (hlength : 0 < q.length)
    (hwritable : ∀ i < q.length, mem.writable ((q.buffer + i) / UserMemory.PAGE_SIZE) = true) :
  ReadsRight debug fs f validSize content q iostate mem dm ↔ ¬ f.Beyond validSize q
  := by
  have hstart : Reads debug fs f content q iostate mem
      { offset := q.offset, dst := q.buffer, len := 0, iostate := iostate, mem := mem,
        clusters := f.clusters, dm := dm } :=
    ⟨rfl, rfl, rfl, (UserMemory.fill_zero _ _ _).symm, h, fun _ => rfl, hdm⟩
  obtain ⟨p, n, hrun, hp, hle, hfrom, hend⟩ := hstart.run (n := q.length + 1) hfits hcovers hsize
    hwritable (Nat.zero_le _) (by dsimp only; omega)
  have hworker : workerRead debug fs f validSize content q iostate mem dm
      = readLoop debug fs content f.allocSize validSize q.length (n + 1) p := by
    rw [workerRead, if_neg (by omega), Fault.assert_eq_ok (fun _ => hsize), Except.ok_bind, hrun]
  have hoffset := hp.offset
  dsimp only at hfrom
  constructor
  · rintro ⟨p', heq, -, hadvanced, -, -⟩ ⟨hinvalid, hin, hreach⟩
    rw [hworker] at heq
    rw [readLoop_beyond (by omega) heq, readable] at hadvanced
    omega
  · intro hbeyond
    rw [Beyond] at hbeyond
    have hbytes : p.mem = mem.fill q.buffer p.len
        fun i => f.logicalByte fs validSize content (q.offset + i) := by
      rw [hp.mem]
      apply UserMemory.fill_congr
      intro i hi
      rw [logicalByte, if_pos (by omega)]
    by_cases hall : p.len = q.length
    · have hreadable : f.readable q = q.length := by
        rw [readable]
        omega
      rw [readLoop, if_neg (by omega)] at hworker
      rw [ReadsRight, hreadable, if_neg (lt_irrefl _), ← hall]
      exact ⟨p, hworker, rfl, hoffset, hp.iostate, hbytes⟩
    · have hreadable : f.readable q = p.len := by
        rw [readable]
        omega
      rw [readLoop, if_pos (by omega), if_pos (by omega)] at hworker
      rw [ReadsRight, hreadable, if_pos (by omega)]
      refine ⟨_, hworker, rfl, hoffset, ?_, hbytes⟩
      rw [hp.iostate]

/-- A request for so many bytes from an offset on. -/
def reading (offset length : ℕ) : File.Request :=
  { command := .read, buffer := 0x1000, length := length, offset := offset }

/-- A memory all pages of which can be written. -/
def writableMemory : UserMemory := ⟨fun _ => 1, fun _ => true, fun _ => true⟩

theorem covers_chained : chained.Covers (Chains.threeClusters true) 0x3000 := by
  intro offset hlt
  have hcluster : (Chains.threeClusters true).clusterSize = 0x1000 := rfl
  rw [hcluster]
  obtain ⟨k, hk⟩ : ∃ k, k = offset / 0x1000 := ⟨_, rfl⟩
  rw [← hk]
  have hk' : k < 3 := by lia
  interval_cases k <;> decide

/-- A request that reaches the end of a file, all bytes of which are valid, is carried out
rightly. -/
theorem readsRight_end :
  (ReadsRight true (Chains.threeClusters true) chained 0x3000 (fun _ i => UInt8.ofNat i)
      (reading 0x2F00 0x200) 0 writableMemory Chains.reading ↔
    ¬ chained.Beyond 0x3000 (reading 0x2F00 0x200)) ∧
    ¬ chained.Beyond 0x3000 (reading 0x2F00 0x200)
  := by
  refine ⟨readsRight_iff consistent_chained ⟨by decide, by decide⟩ (by decide) covers_chained ?_
    (by decide) (by decide) (fun _ _ => rfl), ?_⟩
  · intro n
    rfl
  · intro h
    exact absurd h.1 (by decide)

/-- A request for bytes that are not valid does not advance the offset. -/
theorem offset_stays :
  Consistent true (Chains.threeClusters true) chained ∧
    chained.Covers (Chains.threeClusters true) 0x1000 ∧
    ¬ ReadsRight true (Chains.threeClusters true) chained 0x1000 (fun _ i => UInt8.ofNat i)
      (reading 0x1000 0x10) 0 writableMemory Chains.reading
  := by
  refine ⟨consistent_chained, fun offset hlt => covers_chained offset (by omega), ?_⟩
  rintro ⟨p, heq, -, hoffset, -, -⟩
  rw [workerRead, if_neg (by decide), Fault.assert_eq_ok (fun _ => by decide), Except.ok_bind] at heq
  rw [readLoop_beyond (by decide) heq] at hoffset
  revert hoffset
  decide

end FileData

end UOS
