import Cofuos.Boot.MakeBoot
import Cofuos.Lib.Logged

/-!
# The clusters of the kernel file

Before the loader reads the kernel, `find_krnl` makes a table of the clusters of its file. If the file
is contiguous, the numbers are counted up; otherwise the chain of the file is followed through the FAT,
and only when it has ended its length is compared with that of the file. The definitions follow
`boot/krnldr.asm`.

The table has room for `0x800` clusters, which is more than a file that is accepted can have. But a
chain is stored as long as it goes on, so that one that is too long is written past the end of the
table, and one with a cycle without an end.
-/

namespace UOS

namespace Krnldr

open Boot

/-- Addresses are relative to `HIGHADDR`. -/
def FAT_KRNL_CLUSTER : ℕ := 0xC000

/-- The end of the table. -/
def tableEnd : ℕ := FAT_KRNL_CLUSTER + 0x2000

def CMN_BUF_VBASE : ℕ := 0xE000

/-- What the loader knows of the volume. -/
structure Exvolume where
  /-- Byte `0x6D` of the header. -/
  clusterShift : UInt8
  lbaFat : ℕ
  /-- What `read_sector` reads, if it does not fail. -/
  readSector : ℕ → Option Bytes

variable (v : Exvolume)

/-- `sysinfo.cluster_size`, as `exFAT_verify` computes it. -/
def clusterSize : ℕ := SECTOR_SIZE * 2 ^ (v.clusterShift.toNat % 32) % 2 ^ 32

/-! ### The directory entry -/

variable (e : Bytes)

/-- The length of the file. -/
def fileSize : ℕ := e.qword 0x28

def firstCluster : ℕ := e.dword 0x34

/-- The file has no chain in the FAT. -/
def contiguous : Bool := (e.word 0x20).testBit 9

/-- The checks of the entry. -/
def Passes : Prop :=
  (e.word 4).testBit 4 = false ∧ fileSize e ≤ e.qword 0x38 ∧ fileSize e ≠ 0 ∧ firstCluster e ≠ 0 ∧
    fileSize e ≤ 0x70000

instance instDecidablePasses : Decidable (Passes e) := inferInstanceAs (Decidable (_ ∧ _))

/-- The number of clusters of the file. -/
def clusterCount : ℕ :=
  fileSize e / clusterSize v + if fileSize e % clusterSize v = 0 then 0 else 1

/-! ### The loops -/

/-- How the code that makes the table ends. -/
inductive Ending where
  | bugcheck
  /-- The division by the size of a cluster faults. -/
  | divide
  /-- The code at `load_image` is reached. -/
  | loadImage (mem : Bytes)

/-- The registers and the memory. -/
structure Loop where
  rdi : ℕ
  eax : ℕ
  ebx : ℕ
  r13 : ℕ
  mem : Bytes

/-- A computation that writes to addresses. -/
abbrev Writes : Type → Type := Logged ℕ Ending

/-- `stosd` -/
def stosd (s : Loop) : Writes Loop := do
  Logged.emit s.rdi
  return { s with rdi := s.rdi + 4, mem := s.mem.store s.rdi (dwordBytes s.eax.toUInt32) }

/-- The sector of the FAT with a cluster is read, unless it is in the buffer. -/
def fetch (s : Loop) : Writes Loop :=
  let rax := s.eax / 0x80
  if rax = s.r13 then return s
  else
    match v.readSector (v.lbaFat + rax) with
    | none => Logged.stop .bugcheck
    | some data => return { s with r13 := rax, mem := s.mem.load CMN_BUF_VBASE data }

/-- A round of `.cluster_loop`. -/
def clusterRound (s : Loop) : Writes Loop := do
  let s ← fetch v s
  let s := { s with eax := s.mem.dword (CMN_BUF_VBASE + 4 * (s.eax % 0x80)) }
  if s.eax < 2 then Logged.stop .bugcheck
  else if s.eax = 0xFFFFFFF7 then Logged.stop .bugcheck
  else if s.eax > 0xFFFFFFF7 then
    Logged.stop (if s.ebx = 0 then .loadImage s.mem else .bugcheck)
  else do
    let s ← stosd s
    return { s with ebx := (s.ebx + (2 ^ 32 - 1)) % 2 ^ 32 }

/-- The first rounds of `.cluster_loop`. -/
def clusterLoop (s : Loop) : ℕ → Writes Loop
  | 0 => return s
  | n + 1 => do
      let s ← clusterLoop s n
      clusterRound v s

/-- `.linear_loop`, with the number of its rounds. -/
def linearLoop (s : Loop) : ℕ → Writes Loop
  | 0 => return s
  | n + 1 => do
      let s ← linearLoop s n
      stosd { s with eax := (s.eax + 1) % 2 ^ 32 }

/-- `find_krnl` from the checks of the entry on, with at most so many rounds of `.cluster_loop`. -/
def findKrnl (r13 : ℕ) (mem : Bytes) (rounds : ℕ) : Writes Loop := do
  Logged.require (Passes e) .bugcheck
  let s ← stosd ⟨FAT_KRNL_CLUSTER, firstCluster e, 0, r13, mem⟩
  Logged.require (clusterSize v ≠ 0) .divide
  let s := { s with ebx := clusterCount v e - 1 }
  if contiguous e = true then do
    let s ← linearLoop s s.ebx
    Logged.stop (.loadImage s.mem)
  else clusterLoop v { s with r13 := s.r13 ||| 2 ^ 63 } rounds

/-! ### What is wanted of the table -/

/-- The entry of a cluster in the FAT. -/
def fat (c : ℕ) : Option ℕ :=
  (v.readSector (v.lbaFat + c / 0x80)).map fun data => data.dword (4 * (c % 0x80))

/-- A cluster that is followed by another one. -/
def IsLink (x : ℕ) : Prop := 2 ≤ x ∧ x < 0xFFFFFFF7

instance instDecidableIsLink (x : ℕ) : Decidable (IsLink x) := inferInstanceAs (Decidable (_ ∧ _))

/-- The cluster after a cluster. -/
def next (c : ℕ) : Option ℕ := (fat v c).filter fun x => decide (IsLink x)

/-- A cluster of the chain that starts with a cluster. -/
def chainAt (c : ℕ) : ℕ → Option ℕ
  | 0 => some c
  | n + 1 => (chainAt c n).bind (next v)

/-- A cluster of the file. -/
def cluster (k : ℕ) : Option ℕ :=
  if contiguous e = true then some (firstCluster e + k) else chainAt v (firstCluster e) k

/-- The table of the clusters of the file. The chain of the file has no other clusters. -/
structure Lists (mem : Bytes) : Prop where
  cluster : ∀ k < clusterCount v e, cluster v e k = some (mem.dword (FAT_KRNL_CLUSTER + 4 * k))
  ends : contiguous e = false → chainAt v (firstCluster e) (clusterCount v e) = none

/-- The code ends with a bugcheck or with the table, and writes only to the table. -/
structure TableSound (r13 : ℕ) (mem : Bytes) : Prop where
  ends : ∃ rounds ending, (findKrnl v e r13 mem rounds).result = .error ending ∧
    (ending = .bugcheck ∨ ∃ mem', ending = .loadImage mem' ∧ Lists v e mem')
  inside : ∀ rounds, ∀ a ∈ (findKrnl v e r13 mem rounds).events,
    FAT_KRNL_CLUSTER ≤ a ∧ a + 4 ≤ tableEnd

/-! ### Memory -/

section Memory

variable {s : Bytes} {n i : ℕ}

/-- A number of the sector that is read. -/
theorem dword_load (s data : Bytes) (h : i + 4 ≤ SECTOR_SIZE) :
  (s.load n data).dword (n + i) = data.dword i
  := by
  have hbyte : ∀ j < SECTOR_SIZE, s.load n data (n + j) = data j := by
    intro j hj
    rw [Bytes.load, if_pos ⟨by omega, by omega⟩, Nat.add_sub_cancel_left]
  simp only [Bytes.dword, Bytes.word, Nat.add_assoc]
  rw [hbyte _ (by omega), hbyte _ (by omega), hbyte _ (by omega), hbyte _ (by omega)]

/-- The numbers before the buffer stay. -/
theorem dword_load_of_lt (data : Bytes) (h : i + 4 ≤ n) : (s.load n data).dword i = s.dword i := by
  apply Bytes.dword_congr
  intro j hj
  rw [Bytes.load, if_neg (by omega)]

end Memory

/-! ### A round of the loop -/

section Chain

variable {v} {c n : ℕ} {s : Loop}

/-- The state after so many clusters have been added to the first one. -/
structure At (v : Exvolume) (c count n : ℕ) (s : Loop) : Prop where
  rdi : s.rdi = FAT_KRNL_CLUSTER + 4 * (n + 1)
  chain : chainAt v c n = some s.eax
  lt : s.eax < 2 ^ 32
  table : ∀ k ≤ n, chainAt v c k = some (s.mem.dword (FAT_KRNL_CLUSTER + 4 * k))
  ebx : s.ebx < 2 ^ 32 ∧ (s.ebx + n) % 2 ^ 32 = count
  buffer : 2 ^ 63 ≤ s.r13 ∨ ∃ data, v.readSector (v.lbaFat + s.r13) = some data ∧
    ∀ i, i + 4 ≤ SECTOR_SIZE → s.mem.dword (CMN_BUF_VBASE + i) = data.dword i

variable {count : ℕ}

/-- Without the sector the loader stops. -/
theorem fetch_of_none (h : At v c count n s) (hfat : fat v s.eax = none) :
  fetch v s = Logged.stop .bugcheck
  := by
  have hlt := h.lt
  rw [fat, Option.map_eq_none_iff] at hfat
  have hmiss : s.eax / 0x80 ≠ s.r13 := by
    intro hsame
    obtain hnone | ⟨data, hread, -⟩ := h.buffer
    · omega
    · rw [← hsame, hfat] at hread
      cases hread
  simp only [fetch, if_neg hmiss, hfat]

/-- The entry of the cluster is in the buffer. -/
theorem fetch_of_some (h : At v c count n s) (hn : n < 0x800) {x : ℕ} (hfat : fat v s.eax = some x) :
  ∃ s', fetch v s = pure s' ∧ At v c count n s' ∧ s'.eax = s.eax ∧
    s'.mem.dword (CMN_BUF_VBASE + 4 * (s.eax % 0x80)) = x
  := by
  have hlt := h.lt
  have hbound : 4 * (s.eax % 0x80) + 4 ≤ SECTOR_SIZE := by
    rw [SECTOR_SIZE]
    omega
  rw [fat, Option.map_eq_some_iff] at hfat
  obtain ⟨data, hread, rfl⟩ := hfat
  by_cases hsame : s.eax / 0x80 = s.r13
  · obtain hnone | ⟨data', hread', hbuffer⟩ := h.buffer
    · omega
    · rw [← hsame, hread, Option.some.injEq] at hread'
      subst hread'
      use s
      exact ⟨by simp only [fetch, if_pos hsame], h, rfl, hbuffer _ hbound⟩
  · use { s with r13 := s.eax / 0x80, mem := s.mem.load CMN_BUF_VBASE data }
    refine ⟨by simp only [fetch, if_neg hsame, hread], ?_, rfl, dword_load s.mem data hbound⟩
    constructor
    · apply h.rdi
    · apply h.chain
    · apply hlt
    · intro k hk
      rw [h.table k hk, dword_load_of_lt]
      rw [FAT_KRNL_CLUSTER, CMN_BUF_VBASE]
      omega
    · apply h.ebx
    · right
      use data, hread
      intro i hi
      apply dword_load s.mem data hi

/-- What a round does with the entry of the cluster. -/
theorem clusterRound_eq {s' : Loop} {x : ℕ} (hfetch : fetch v s = pure s') (heax : s'.eax = s.eax)
    (hentry : s'.mem.dword (CMN_BUF_VBASE + 4 * (s.eax % 0x80)) = x) :
  clusterRound v s
    = if x < 2 then Logged.stop .bugcheck
      else if x = 0xFFFFFFF7 then Logged.stop .bugcheck
      else if x > 0xFFFFFFF7 then
        Logged.stop (if s'.ebx = 0 then .loadImage s'.mem else .bugcheck)
      else do
        let s ← stosd { s' with eax := x }
        return { s with ebx := (s.ebx + (2 ^ 32 - 1)) % 2 ^ 32 }
  := by
  rw [clusterRound, hfetch, Logged.pure_bind]
  simp only [heax, hentry]

/-- A round that follows a link. -/
theorem clusterRound_of_next (h : At v c count n s) (hn : n < 0x800) {x : ℕ}
    (hnext : next v s.eax = some x) :
  ∃ s', clusterRound v s = ⟨[FAT_KRNL_CLUSTER + 4 * (n + 1)], .ok s'⟩ ∧
    (n + 1 < 0x800 → At v c count (n + 1) s')
  := by
  have hchain : chainAt v c (n + 1) = some x := by
    rw [chainAt, h.chain, Option.bind_some, hnext]
  rw [next, Option.filter_eq_some_iff] at hnext
  obtain ⟨hfat, hlink⟩ := hnext
  obtain ⟨hlow, hhigh⟩ := of_decide_eq_true hlink
  obtain ⟨s', hfetch, hat, heax, hentry⟩ := fetch_of_some h hn hfat
  have hround := clusterRound_eq hfetch heax hentry
  rw [if_neg (by omega), if_neg (by omega), if_neg (by omega)] at hround
  use { s' with
    rdi := s'.rdi + 4
    eax := x
    ebx := (s'.ebx + (2 ^ 32 - 1)) % 2 ^ 32
    mem := s'.mem.store s'.rdi (dwordBytes x.toUInt32) }
  constructor
  · rw [hround, ← hat.rdi]
    rfl
  · intro hnext
    constructor
    · dsimp only
      rw [hat.rdi]
      omega
    · apply hchain
    · dsimp only
      omega
    · intro k hk
      have hrdi := hat.rdi
      rw [FAT_KRNL_CLUSTER] at hrdi ⊢
      by_cases hlast : k = n + 1
      · subst hlast
        rw [hchain, hrdi, dword_store _ _ (by omega)]
      · rw [hat.table k (by omega), FAT_KRNL_CLUSTER, dword_store_of_ne]
        omega
    · constructor
      · apply Nat.mod_lt
        decide
      · have hebx := hat.ebx
        dsimp only
        omega
    · obtain hnone | ⟨data, hread, hbuffer⟩ := hat.buffer
      · apply Or.inl hnone
      · right
        use data, hread
        intro i hi
        have hrdi := hat.rdi
        rw [← hbuffer i hi, dword_store_of_ne]
        rw [FAT_KRNL_CLUSTER] at hrdi
        rw [CMN_BUF_VBASE]
        omega

/-- A round at the end of the chain ends the loop. The table is kept only if the number of clusters is
the one expected. -/
theorem clusterRound_of_end (h : At v c count n s) (hn : n < 0x800) (hnext : next v s.eax = none) :
  ∃ ending, clusterRound v s = ⟨[], .error ending⟩ ∧
    (ending = .bugcheck ∨
      ∃ s', ending = .loadImage s'.mem ∧ s'.ebx = 0 ∧ At v c count n s')
  := by
  cases hfat : fat v s.eax with
  | none =>
      use .bugcheck
      rw [clusterRound, fetch_of_none h hfat]
      exact ⟨rfl, Or.inl rfl⟩
  | some x =>
      rw [next, hfat, Option.filter_some, ite_eq_right_iff] at hnext
      have hlink : ¬ IsLink x := by
        intro hlink
        cases hnext (decide_eq_true hlink)
      obtain ⟨s', hfetch, hat, heax, hentry⟩ := fetch_of_some h hn hfat
      rw [clusterRound_eq hfetch heax hentry]
      by_cases hlow : x < 2
      · rw [if_pos hlow]
        exact ⟨.bugcheck, rfl, Or.inl rfl⟩
      · by_cases hbad : x = 0xFFFFFFF7
        · rw [if_neg hlow, if_pos hbad]
          exact ⟨.bugcheck, rfl, Or.inl rfl⟩
        · have hend : x > 0xFFFFFFF7 := by
            rw [IsLink] at hlink
            omega
          rw [if_neg hlow, if_neg hbad, if_pos hend]
          use if s'.ebx = 0 then .loadImage s'.mem else .bugcheck, rfl
          by_cases hcount : s'.ebx = 0
          · rw [if_pos hcount]
            exact Or.inr ⟨s', rfl, hcount, hat⟩
          · rw [if_neg hcount]
            exact Or.inl rfl

/-! ### The whole loop -/

/-- The addresses of the entries after the first one. -/
def slots (n : ℕ) : List ℕ := (List.range n).map fun k => FAT_KRNL_CLUSTER + 4 * (k + 1)

/-- As long as the chain goes on, the loop follows it. -/
theorem clusterLoop_of_chain (h : At v c count 0 s) (hn : n < 0x800) {x : ℕ}
    (hchain : chainAt v c n = some x) :
  ∃ s', clusterLoop v s n = ⟨slots n, .ok s'⟩ ∧ At v c count n s'
  := by
  induction n generalizing x with
  | zero => exact ⟨s, rfl, h⟩
  | succ n ih =>
      rw [chainAt, Option.bind_eq_some_iff] at hchain
      obtain ⟨y, hprev, hnext⟩ := hchain
      obtain ⟨s', hloop, hat⟩ := ih (by omega) hprev
      rw [hat.chain, Option.some.injEq] at hprev
      subst hprev
      obtain ⟨s'', hround, hat'⟩ := clusterRound_of_next hat (by omega) hnext
      use s''
      constructor
      · rw [clusterLoop, hloop, Logged.bind_of_result rfl]
        simp only [hround, slots, List.range_succ, List.map_append, List.map_cons, List.map_nil]
      · apply hat' hn

/-- A loop that has ended stays as it is. -/
theorem clusterLoop_of_stop {ending : Ending} {log : List ℕ}
    (h : clusterLoop v s n = ⟨log, .error ending⟩) {m : ℕ} (hle : n ≤ m) :
  clusterLoop v s m = ⟨log, .error ending⟩
  := by
  induction m, hle using Nat.le_induction with
  | base => apply h
  | succ m _ ih => rw [clusterLoop, ih, Logged.bind_of_stop rfl]

/-- A chain has a last cluster if it ends. -/
theorem exists_last {m : ℕ} (h : chainAt v c m = none) :
  ∃ n < m, ∃ x, chainAt v c n = some x ∧ next v x = none
  := by
  induction m with
  | zero => cases h
  | succ m ih =>
      cases hprev : chainAt v c m with
      | none =>
          obtain ⟨n, hn, hlast⟩ := ih hprev
          exact ⟨n, by omega, hlast⟩
      | some x =>
          rw [chainAt, hprev, Option.bind_some] at h
          exact ⟨m, by omega, x, hprev, h⟩

/-- A chain that has ended stays so. -/
theorem chainAt_of_le (h : chainAt v c n = none) {m : ℕ} (hle : n ≤ m) : chainAt v c m = none := by
  induction m, hle using Nat.le_induction with
  | base => apply h
  | succ m _ ih => rw [chainAt, ih, Option.bind_none]

/-- The end of the chain ends the loop. -/
theorem clusterLoop_of_last (h : At v c count 0 s) (hn : n < 0x800) {x : ℕ}
    (hlast : chainAt v c n = some x) (hnext : next v x = none) :
  ∃ ending, (∀ m > n, clusterLoop v s m = ⟨slots n, .error ending⟩) ∧
    (ending = .bugcheck ∨
      ∃ s', ending = .loadImage s'.mem ∧ s'.ebx = 0 ∧ At v c count n s')
  := by
  obtain ⟨s', hloop, hat⟩ := clusterLoop_of_chain h hn hlast
  have hx := hat.chain
  rw [hlast, Option.some.injEq] at hx
  subst hx
  obtain ⟨ending, hround, hending⟩ := clusterRound_of_end hat hn hnext
  refine ⟨ending, ?_, hending⟩
  intro m hm
  apply clusterLoop_of_stop _ (Nat.succ_le_of_lt hm)
  rw [clusterLoop, hloop, Logged.bind_of_result rfl]
  simp only [hround, List.append_nil]

/-- If the chain fits into the table, nothing is written behind it. -/
theorem clusterLoop_events (h : At v c count 0 s) (hend : chainAt v c 0x800 = none) (m : ℕ) :
  ∃ n < 0x800, (clusterLoop v s m).events = slots n
  := by
  cases hchain : chainAt v c m with
  | some x =>
      have hm : m < 0x800 := by
        by_contra hge
        rw [chainAt_of_le hend (by omega)] at hchain
        cases hchain
      obtain ⟨s', hloop, -⟩ := clusterLoop_of_chain h hm hchain
      use m, hm
      rw [hloop]
  | none =>
      obtain ⟨n, hn, x, hlast, hnext⟩ := exists_last hchain
      have hlt : n < 0x800 := by
        by_contra hge
        rw [chainAt_of_le hend (by omega)] at hlast
        cases hlast
      obtain ⟨ending, hstop, -⟩ := clusterLoop_of_last h hlt hlast hnext
      use n, hlt
      rw [hstop m hn]

/-- A chain that does not fit is written past the end of the table. -/
theorem clusterLoop_overruns (h : At v c count 0 s) {x : ℕ} (hchain : chainAt v c 0x800 = some x) :
  tableEnd ∈ (clusterLoop v s 0x800).events
  := by
  rw [chainAt, Option.bind_eq_some_iff] at hchain
  obtain ⟨y, hprev, hnext⟩ := hchain
  obtain ⟨s', hloop, hat⟩ := clusterLoop_of_chain h (by decide) hprev
  rw [hat.chain, Option.some.injEq] at hprev
  subst hprev
  obtain ⟨s'', hround, -⟩ := clusterRound_of_next hat (by decide) hnext
  rw [clusterLoop, hloop, Logged.bind_of_result rfl]
  simp only [hround]
  apply List.mem_append_right
  apply List.mem_singleton.mpr
  rfl

/-- The contiguous clusters are stored one after the other. -/
theorem linearLoop_eq (n : ℕ) (heax : s.eax < 2 ^ 32) (hrdi : s.rdi = FAT_KRNL_CLUSTER + 4)
    (hfirst : s.mem.dword FAT_KRNL_CLUSTER = s.eax) :
  ∃ s', linearLoop s n = ⟨slots n, .ok s'⟩ ∧ s'.rdi = FAT_KRNL_CLUSTER + 4 * (n + 1) ∧
    s'.eax = (s.eax + n) % 2 ^ 32 ∧
    ∀ k ≤ n, s'.mem.dword (FAT_KRNL_CLUSTER + 4 * k) = (s.eax + k) % 2 ^ 32
  := by
  induction n with
  | zero =>
      refine ⟨s, rfl, hrdi, by omega, ?_⟩
      intro k hk
      obtain rfl : k = 0 := by omega
      rw [Nat.mul_zero, Nat.add_zero, hfirst, Nat.add_zero, Nat.mod_eq_of_lt heax]
  | succ n ih =>
      obtain ⟨s', hloop, hrdi', heax', htable⟩ := ih
      have hnext : (s'.eax + 1) % 2 ^ 32 = (s.eax + (n + 1)) % 2 ^ 32 := by omega
      have hlt : (s'.eax + 1) % 2 ^ 32 < 2 ^ 32 := Nat.mod_lt _ (by decide)
      use { s' with
        rdi := s'.rdi + 4
        eax := (s'.eax + 1) % 2 ^ 32
        mem := s'.mem.store s'.rdi (dwordBytes ((s'.eax + 1) % 2 ^ 32).toUInt32) }
      refine ⟨?_, ?_, hnext, ?_⟩
      · rw [linearLoop, hloop, Logged.bind_of_result rfl, slots, slots, List.range_succ,
          List.map_append, List.map_singleton, ← hrdi']
        rfl
      · dsimp only
        rw [hrdi']
        omega
      · intro k hk
        dsimp only
        by_cases hlast : k = n + 1
        · subst hlast
          rw [← hrdi', dword_store _ _ hlt, hnext]
        · rw [hrdi', dword_store_of_ne _ (by omega), htable k (by omega)]

end Chain

/-! ### The table -/

variable {v e} {r13 : ℕ} {mem : Bytes}

theorem clusterSize_of_lt (h : v.clusterShift.toNat % 32 < 23) :
  clusterSize v = SECTOR_SIZE * 2 ^ (v.clusterShift.toNat % 32)
  := by
  rw [clusterSize]
  apply Nat.mod_eq_of_lt
  have hpow : 2 ^ (v.clusterShift.toNat % 32) ≤ 2 ^ 22 := Nat.pow_le_pow_right (by decide) (by omega)
  rw [SECTOR_SIZE]
  omega

/-- A large shift leaves no bit of the size of a sector. -/
theorem clusterSize_of_le (h : 23 ≤ v.clusterShift.toNat % 32) : clusterSize v = 0 := by
  obtain ⟨k, hk⟩ := Nat.exists_eq_add_of_le h
  rw [clusterSize, hk, pow_add, SECTOR_SIZE]
  have hpow : 512 * (2 ^ 23 * 2 ^ k) = 2 ^ 32 * 2 ^ k := by ring
  rw [hpow, Nat.mul_mod_right]

/-- A file that is accepted has few clusters, and at least one. -/
theorem clusterCount_bounds (he : Passes e) (h : v.clusterShift.toNat % 32 < 23) :
  1 ≤ clusterCount v e ∧ clusterCount v e ≤ 0x380
  := by
  obtain ⟨-, -, hpos, -, hle⟩ := he
  have hsize : SECTOR_SIZE ≤ clusterSize v := by
    rw [clusterSize_of_lt h]
    apply Nat.le_mul_of_pos_right
    apply Nat.two_pow_pos
  rw [SECTOR_SIZE] at hsize
  have hdiv := Nat.div_add_mod (fileSize e) (clusterSize v)
  have hmod := Nat.mod_lt (fileSize e) (show 0 < clusterSize v by omega)
  have hmul : 512 * (fileSize e / clusterSize v) ≤ clusterSize v * (fileSize e / clusterSize v) :=
    Nat.mul_le_mul_right _ hsize
  rw [clusterCount]
  split_ifs with hexact
  · have hquot : fileSize e / clusterSize v ≠ 0 := by
      intro hzero
      rw [hzero, Nat.mul_zero] at hdiv
      omega
    omega
  · omega

/-- The state after the first cluster has been stored. -/
def started (v : Exvolume) (e : Bytes) (r13 : ℕ) (mem : Bytes) : Loop :=
  ⟨FAT_KRNL_CLUSTER + 4, firstCluster e, clusterCount v e - 1, r13,
    mem.store FAT_KRNL_CLUSTER (dwordBytes (firstCluster e).toUInt32)⟩

/-- The first cluster is in the table. -/
theorem started_mem : (started v e r13 mem).mem.dword FAT_KRNL_CLUSTER = firstCluster e :=
  dword_store mem _ Bytes.dword_lt

/-- The division faults. -/
theorem findKrnl_of_zero (he : Passes e) (h : clusterSize v = 0) (n : ℕ) :
  (findKrnl v e r13 mem n).result = .error .divide
  := by
  have hrequire : (Logged.require (clusterSize v ≠ 0) .divide : Writes Unit) = Logged.stop .divide :=
    if_neg (not_not.mpr h)
  rw [findKrnl, Logged.require_of he, Logged.pure_bind, Logged.bind_of_result rfl, hrequire]
  rfl

/-- A contiguous file is listed by counting. -/
theorem findKrnl_of_contiguous (r13 : ℕ) (mem : Bytes) (he : Passes e) (h : clusterSize v ≠ 0)
    (hc : contiguous e = true) (n : ℕ) :
  ∃ s' : Loop, findKrnl v e r13 mem n
      = ⟨FAT_KRNL_CLUSTER :: slots (clusterCount v e - 1), .error (.loadImage s'.mem)⟩ ∧
    ∀ k ≤ clusterCount v e - 1,
      s'.mem.dword (FAT_KRNL_CLUSTER + 4 * k) = (firstCluster e + k) % 2 ^ 32
  := by
  obtain ⟨s', hloop, -, -, htable⟩ := linearLoop_eq (s := started v e r13 mem) (clusterCount v e - 1)
    Bytes.dword_lt rfl started_mem
  have hrun : findKrnl v e r13 mem n
      = ⟨FAT_KRNL_CLUSTER :: (linearLoop (started v e r13 mem) (clusterCount v e - 1) >>=
          fun s => (Logged.stop (.loadImage s.mem) : Writes Loop)).events,
        (linearLoop (started v e r13 mem) (clusterCount v e - 1) >>=
          fun s => (Logged.stop (.loadImage s.mem) : Writes Loop)).result⟩ := by
    rw [findKrnl, Logged.require_of he, Logged.pure_bind, Logged.bind_of_result rfl,
      Logged.require_of h, Logged.pure_bind, if_pos hc]
    rfl
  refine ⟨s', ?_, htable⟩
  rw [hrun, hloop, Logged.bind_of_result rfl, Logged.events_stop, List.append_nil, Logged.result_stop]

/-- Other files are listed by following their chain. -/
theorem findKrnl_of_chain (r13 : ℕ) (mem : Bytes) (he : Passes e) (h : clusterSize v ≠ 0)
    (hc : contiguous e = false) (n : ℕ) :
  findKrnl v e r13 mem n
    = ⟨FAT_KRNL_CLUSTER :: (clusterLoop v (started v e (r13 ||| 2 ^ 63) mem) n).events,
      (clusterLoop v (started v e (r13 ||| 2 ^ 63) mem) n).result⟩
  := by
  rw [findKrnl, Logged.require_of he, Logged.pure_bind, Logged.bind_of_result rfl,
    Logged.require_of h, Logged.pure_bind, if_neg (Bool.eq_false_iff.mp hc)]
  rfl

/-- The loop begins with the first cluster. -/
theorem at_started (hcount : clusterCount v e < 2 ^ 32) (hpos : 1 ≤ clusterCount v e) :
  At v (firstCluster e) (clusterCount v e - 1) 0 (started v e (r13 ||| 2 ^ 63) mem)
  := by
  constructor
  · rfl
  · rfl
  · apply Bytes.dword_lt
  · intro k hk
    obtain rfl : k = 0 := by omega
    rw [Nat.mul_zero, Nat.add_zero, started_mem]
    rfl
  · change clusterCount v e - 1 < 2 ^ 32 ∧ (clusterCount v e - 1 + 0) % 2 ^ 32 = _
    omega
  · have hbit : 2 ^ 63 ≤ r13 ||| 2 ^ 63 := Nat.right_le_or
    apply Or.inl hbit

/-- All slots of a table that fits lie in it. -/
theorem slots_inside {n : ℕ} (hn : n < 0x800) {a : ℕ} (ha : a ∈ FAT_KRNL_CLUSTER :: slots n) :
  FAT_KRNL_CLUSTER ≤ a ∧ a + 4 ≤ tableEnd
  := by
  have hend : tableEnd = FAT_KRNL_CLUSTER + 0x2000 := rfl
  obtain hfirst | ha := List.mem_cons.mp ha
  · omega
  · obtain ⟨k, hk, hslot⟩ := List.mem_map.mp ha
    rw [List.mem_range] at hk
    omega

/-- The clusters of a contiguous file are listed, as far as there are numbers for them. -/
theorem tableSound_of_contiguous (he : Passes e) (h : v.clusterShift.toNat % 32 < 23)
    (hc : contiguous e = true) :
  TableSound v e r13 mem ↔ firstCluster e + clusterCount v e ≤ 2 ^ 32
  := by
  have hbounds := clusterCount_bounds he h
  have hsize : clusterSize v ≠ 0 := by
    rw [clusterSize_of_lt h, SECTOR_SIZE]
    positivity
  constructor
  · rintro ⟨⟨n, ending, hresult, hending⟩, -⟩
    obtain ⟨s', hrun, htable⟩ := findKrnl_of_contiguous r13 mem he hsize hc n
    rw [hrun, Except.error.injEq] at hresult
    subst hresult
    obtain hbug | ⟨mem', hmem, hlists⟩ := hending
    · cases hbug
    · cases hmem
      have hlast := hlists.cluster (clusterCount v e - 1) (by omega)
      rw [cluster, if_pos hc, htable _ le_rfl, Option.some.injEq] at hlast
      omega
  · intro hfits
    constructor
    · obtain ⟨s', hrun, htable⟩ := findKrnl_of_contiguous r13 mem he hsize hc 0
      refine ⟨0, .loadImage s'.mem, by rw [hrun], Or.inr ⟨s'.mem, rfl, ?_⟩⟩
      constructor
      · intro k hk
        rw [cluster, if_pos hc, htable k (by omega), Nat.mod_eq_of_lt (by omega)]
      · intro hchain
        rw [hc] at hchain
        cases hchain
    · intro n a ha
      obtain ⟨s', hrun, -⟩ := findKrnl_of_contiguous r13 mem he hsize hc n
      rw [hrun] at ha
      apply slots_inside (by omega) ha

/-- The clusters of a chain are listed if it fits into the table. -/
theorem tableSound_of_chain (he : Passes e) (h : v.clusterShift.toNat % 32 < 23)
    (hc : contiguous e = false) :
  TableSound v e r13 mem ↔ chainAt v (firstCluster e) 0x800 = none
  := by
  have hbounds := clusterCount_bounds he h
  have hsize : clusterSize v ≠ 0 := by
    rw [clusterSize_of_lt h, SECTOR_SIZE]
    positivity
  have hstart : At v (firstCluster e) (clusterCount v e - 1) 0 (started v e (r13 ||| 2 ^ 63) mem) :=
    at_started (by omega) hbounds.1
  have hrun := findKrnl_of_chain r13 mem he hsize hc
  constructor
  · intro hsound
    by_contra hlong
    obtain ⟨x, hchain⟩ := Option.ne_none_iff_exists'.mp hlong
    have hinside := hsound.inside 0x800 tableEnd
    rw [hrun] at hinside
    have hoverrun := hinside (List.mem_cons_of_mem _ (clusterLoop_overruns hstart hchain))
    omega
  · intro hend
    constructor
    · obtain ⟨n, hn, x, hlast, hnext⟩ := exists_last hend
      obtain ⟨ending, hstop, hending⟩ := clusterLoop_of_last hstart hn hlast hnext
      refine ⟨n + 1, ending, ?_, ?_⟩
      · rw [hrun, hstop _ (Nat.lt_succ_self n)]
      · apply hending.imp_right
        rintro ⟨s', rfl, hebx, hat⟩
        use s'.mem, rfl
        have hcount := hat.ebx
        have hn' : n = clusterCount v e - 1 := by omega
        constructor
        · intro k hk
          rw [cluster, if_neg (Bool.eq_false_iff.mp hc), hat.table k (by omega)]
        · intro _
          have hnumber : clusterCount v e = n + 1 := by omega
          rw [hnumber, chainAt, hlast, Option.bind_some, hnext]
    · intro m a ha
      obtain ⟨n, hn, hevents⟩ := clusterLoop_events hstart hend m
      rw [hrun] at ha
      dsimp only at ha
      rw [hevents] at ha
      apply slots_inside hn ha

/-- For an entry that is accepted, the table is made as it should be exactly when the size of a cluster
fits into a `dword`, a contiguous file does not go beyond the last number and any other file has a
chain that fits into the table. -/
theorem tableSound_iff (he : Passes e) :
  TableSound v e r13 mem ↔ v.clusterShift.toNat % 32 < 23 ∧
    if contiguous e = true then firstCluster e + clusterCount v e ≤ 2 ^ 32
    else chainAt v (firstCluster e) 0x800 = none
  := by
  by_cases h : v.clusterShift.toNat % 32 < 23
  · rw [and_iff_right h]
    cases hc : contiguous e with
    | true => rw [if_pos rfl, tableSound_of_contiguous he h hc]
    | false => rw [if_neg Bool.false_ne_true, tableSound_of_chain he h hc]
  · rw [iff_false_right (not_and_of_not_left _ h)]
    rintro ⟨⟨n, ending, hresult, hending⟩, -⟩
    rw [findKrnl_of_zero he (clusterSize_of_le (by omega)), Except.error.injEq] at hresult
    subst hresult
    obtain hbug | ⟨mem', hmem, -⟩ := hending
    · cases hbug
    · cases hmem

/-- The entry of a file of three sectors, the last of which is not full, that begins with cluster 5. -/
def threeFile : Bytes := fun i => if i = 0x29 ∨ i = 0x34 ∨ i = 0x39 then 5 else 0

/-- A volume with clusters of one sector, where cluster 7 comes after cluster 5, and cluster 6 after
cluster 7. -/
def threeChain : Exvolume :=
  ⟨0, 0, fun _ => some fun i =>
    if i = 20 then 7 else if i = 28 then 6 else if 24 ≤ i ∧ i < 28 then 0xFF else 0⟩

/-- A chain of three clusters is listed. -/
theorem threeFile_sound :
  (List.range 4).map (chainAt threeChain (firstCluster threeFile)) = [some 5, some 7, some 6, none] ∧
    clusterCount threeChain threeFile = 3 ∧ TableSound threeChain threeFile 0 (fun _ => 0)
  := by
  have hchain : (List.range 4).map (chainAt threeChain (firstCluster threeFile)) =
      [some 5, some 7, some 6, none] := by
    decide
  refine ⟨hchain, by decide, (tableSound_iff (by decide)).mpr ⟨by decide, ?_⟩⟩
  have hend : chainAt threeChain (firstCluster threeFile) 3 = none := by
    decide
  rw [if_neg (by decide)]
  apply chainAt_of_le hend (by decide)
/-- The entry of a file of one sector that begins with cluster 5. -/
def smallFile : Bytes := fun i => if i = 0x29 ∨ i = 0x39 then 2 else if i = 0x34 then 5 else 0

/-- A volume with clusters of one sector, where the entries of all clusters in the FAT are the same. -/
def uniform (x : UInt8) : Exvolume := ⟨0, 0, fun _ => some fun i => if x = 5 ∧ i % 4 ≠ 0 then 0 else x⟩

/-- If the only cluster of a file is followed by itself, the table is not made as it should be. -/
theorem cycle_not_sound :
  ¬ ∀ (v : Exvolume) (e : Bytes) (r13 : ℕ) (mem : Bytes), Passes e → TableSound v e r13 mem
  := by
  intro h
  have hsound := h (uniform 5) smallFile 0 (fun _ => 0) (by decide)
  rw [tableSound_of_chain (by decide) (by decide) (by decide)] at hsound
  have hnext : next (uniform 5) 5 = some 5 := by decide
  have hchain : ∀ n, chainAt (uniform 5) 5 n = some 5 := by
    intro n
    induction n with
    | zero => rfl
    | succ n ih => rw [chainAt, ih, Option.bind_some, hnext]
  have hfirst : firstCluster smallFile = 5 := by decide
  rw [hfirst, hchain] at hsound
  cases hsound

end Krnldr

end UOS
