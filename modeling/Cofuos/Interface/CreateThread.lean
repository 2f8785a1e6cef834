import Cofuos.Interface.Service
import Cofuos.Memory.Above
import Cofuos.Process.HandleTable
import Cofuos.Process.Spawn
import Cofuos.Process.UserStack

/-!
# What is left of a thread that is not created

`create_thread` reserves the pages of a stack, commits the highest one, spawns a thread and puts it
into the handle table, and each of these may fail. If the page cannot be committed, the pages are
released. After that nothing is undone: a process that has been stopped spawns no thread, and the
service relaxes a null pointer; and if the thread finds no handle, it runs all the same, and its
stack stays. The definitions follow `create_thread` of `kernel/interface/service.cpp`, `spawn` of
`kernel/process/process.cpp`, and `relax` and `manage` of `kernel/process/thread.cpp`.

Pages that are found above 4 GB are not those whose address is returned, and they are not released
either.
-/

namespace UOS

open Fault Service Stacks

/-! ### The call -/

/-- What `create_thread` works on. Threads are given by their numbers. -/
structure ThreadCaller where
  vspace : Vspace
  process : Process
  handles : HandleTable ℕ
  /-- The references to a thread. -/
  refs : ℕ → ℕ
  /-- What a thread starts with. -/
  args : ℕ → Option EntryArgs

/-- A call of `create_thread`. -/
structure ThreadRequest where
  /-- The build has assertions. -/
  debug : Bool
  entry : UInt64
  arg : UInt64
  stkSize : UInt32
  /-- `process::get_stack_preserve` -/
  stackPreserve : ℕ
  /-- The calling thread. -/
  self : ℕ
  /-- The number that `new_id` gives the new thread. -/
  id : ℕ
  /-- There is memory for a page of the handle table. -/
  room : Bool

/-- How a call ends. -/
inductive ThreadReply where
  | status (s : Status)
  | handle (h : ℕ)
  /-- A null pointer is dereferenced. -/
  | nullPointer
  deriving DecidableEq, Repr

namespace ThreadCaller

variable (s : ThreadCaller)

/-- `process::spawn`, with `thread::manage`, which notes a reference of the thread to itself and one
of the caller. -/
def spawn (self id : ℕ) (args : EntryArgs) : Option ThreadCaller :=
  if s.process.state = .stopped then none
  else some
    { s with
      process := (s.process.test self).insert self id
      refs := Function.update s.refs id 2
      args := Function.update s.args id (some args) }

/-- `thread::relax`. A thread without references is erased, and has to be stopped. -/
def relax (id : ℕ) : Except Fault ThreadCaller :=
  if s.refs id = 0 then .error (.bugcheck "relaxing %p without reference")
  else
    let refs := Function.update s.refs id (s.refs id - 1)
    if refs id ≠ 0 then .ok { s with refs := refs }
    else if s.process.has id (fun th => th.state == .stopped) = true then
      .ok { s with refs := refs, process := s.process.collect id }
    else .error (.bugcheck "deleting non-stop thread #%d @ %p")

end ThreadCaller

/-- The part of `create_thread` that makes the stack. The address of its pages is `0` if that
fails. -/
def makeStack (debug : Bool) (count : ℕ) (vs : Vspace) : Except Fault (ℕ × Vspace) := do
  let (stkBase, vs) ← vs.reserve debug 0 (count + 1)
  if stkBase = 0 then return (0, vs)
  else
    let (res, vs) ← vs.commit debug ((stkBase + count * Stacks.PAGE_SIZE) % 2 ^ 64) 1
    if res = false then
      let (_, vs) ← vs.release debug stkBase (count + 1)
      return (0, vs)
    else return (stkBase, vs)

namespace ThreadRequest

variable (q : ThreadRequest)

/-- The size of the stack. -/
def size : ℕ := stackSize q.stkSize.toNat q.stackPreserve

/-- `count` -/
def count : ℕ := stackPages q.size

/-- The part of `create_thread` that spawns the thread. -/
def startThread (stkBase : ℕ) (s : ThreadCaller) : Except Fault (ThreadReply × ThreadCaller) :=
  let args : EntryArgs :=
    { entry := q.entry.toNat
      arg := q.arg.toNat
      stkTop := (stkBase + (q.count + 1) * Stacks.PAGE_SIZE) % 2 ^ 64
      stkSize := q.size }
  match s.spawn q.self q.id args with
  | none => .ok (.nullPointer, s)
  | some s =>
      match s.handles.put q.room q.id with
      | none => .error .assertFailed
      | some (handle, handles) =>
          if handle ≠ 0 then .ok (.handle handle, { s with handles := handles })
          else do
            let s ← { s with handles := handles }.relax q.id
            return (.status .noResource, s)

/-- `service_provider::create_thread` -/
def createThread (s : ThreadCaller) : Except Fault (ThreadReply × ThreadCaller) :=
  if 2 ^ 47 ≤ q.entry.toNat then .ok (.status .badParam, s)
  else do
    let (stkBase, vs) ← makeStack q.debug q.count s.vspace
    if stkBase = 0 then return (.status .noResource, { s with vspace := vs })
    else q.startThread stkBase { s with vspace := vs }

/-! ### What is claimed of it -/

/-- The threads of a process that run or are ready to run. -/
def runnable (p : Process) : ℕ :=
  p.threads.countP fun th => th.state == .ready || th.state == .running

/-- The call returns without having used a null pointer, and if it returns an error, the process
has no more runnable threads and the same pages as before. -/
def AllOrNothing (s : ThreadCaller) : Except Fault (ThreadReply × ThreadCaller) → Prop
  | .error _ => False
  | .ok (reply, s') => reply ≠ .nullPointer ∧ ∀ st, reply = .status st →
      runnable s'.process ≤ runnable s.process ∧ s'.vspace.map = s.vspace.map

/-- There is room for the pages somewhere. -/
def Finds (vs : Vspace) : Prop := q.count + 1 ≤ 0x40000 ∧ vs.lookWhole (q.count + 1) = .room

/-- There is room for the pages below 4 GB. -/
def FindsBelow (vs : Vspace) : Prop := vs.lookBelow (q.count + 1) = .room

/-- The pages are reserved and the highest one is committed. -/
def Commits (vs : Vspace) : Prop :=
  ∃ stkBase vs₁ vs₂, vs.reserve q.debug 0 (q.count + 1) = .ok (stkBase, vs₁) ∧ stkBase ≠ 0 ∧
    vs₁.commit q.debug ((stkBase + q.count * Stacks.PAGE_SIZE) % 2 ^ 64) 1 = .ok (true, vs₂)

/-- There is no handle for the thread. -/
def PutFails (s : ThreadCaller) : Prop := ∃ t, s.handles.put q.room q.id = some (0, t)

/-- The request with which `create_thread` gives the pages back is allowed. -/
def Undoes (allowed : Vspace → Request → Prop) (vs : Vspace) : Prop :=
  ∀ stkBase vs₁ vs₂, vs.reserve q.debug 0 (q.count + 1) = .ok (stkBase, vs₁) →
    vs₁.commit q.debug ((stkBase + q.count * Stacks.PAGE_SIZE) % 2 ^ 64) 1 = .ok (false, vs₂) →
    allowed vs₂ (.release (UInt64.ofNat stkBase) (UInt32.ofNat (q.count + 1)))

end ThreadRequest

/-! ### The stack -/

namespace Vspace

variable {debug : Bool} {vs vs' : Vspace} {base n : ℕ} {allowed : Vspace → Request → Prop}

/-- Pages are reserved anywhere. -/
theorem Inv.reserve_any (h : vs.Inv debug) (hn : n < 2 ^ 32)
    (heq : vs.reserve debug 0 n = .ok (base, vs')) :
  vs'.Inv debug ∧ Placed n base
  := by
  obtain ⟨res, vs₁, hexec, hinv, -, hplaced⟩ := exec_place h (UInt32.ofNat n) UInt64.toNat_zero
  have htoNat : (UInt32.ofNat n).toNat = n := UInt32.toNat_ofNat_of_lt hn
  rw [Request.exec, UInt64.toNat_zero, htoNat, heq] at hexec
  cases hexec
  rw [htoNat] at hplaced
  exact ⟨hinv, hplaced⟩

/-- A page that is not committed leaves the space as it was. -/
theorem Inv.commit_one (h : vs.Inv debug) {addr : ℕ} (haddr : addr < 2 ^ 64) :
  ∃ res vs', vs.commit debug addr 1 = .ok (res, vs') ∧ vs'.Inv debug ∧
    (res = false → vs'.map = vs.map)
  := by
  obtain ⟨res, vs', hexec, hout⟩ := exec_commit h (UInt64.ofNat addr) 1
  have htoNat : (UInt64.ofNat addr).toNat = addr := UInt64.toNat_ofNat_of_lt haddr
  rw [Request.exec, htoNat] at hexec
  obtain ⟨⟨done, vs₁⟩, hcommit, hret⟩ := Except.bind_eq_ok_iff.mp hexec
  cases hret
  refine ⟨done, vs', hcommit, hout.inv, ?_⟩
  rintro rfl
  exact (hout.failure rfl).1

/-- Pages are released if all of them are reserved or committed, and other pages are as they
were. -/
theorem Inv.release_at (h : vs.Inv debug) (hbase : base < 2 ^ 64) (hn : n < 2 ^ 32)
    (hsafe : debug = true →
      (Request.release (UInt64.ofNat base) (UInt32.ofNat n)).Safe vs) :
  ∃ res vs', vs.release debug base n = .ok (res, vs') ∧
    (∀ p ∉ Run.mk (base / 0x1000) n, vs'.map p = vs.map p) ∧
    (commonCheck base n = true → (∀ p ∈ Run.mk (base / 0x1000) n, vs.map p = .reserved) →
      ∀ p ∈ Run.mk (base / 0x1000) n, vs'.map p = .free)
  := by
  have hbase' : (UInt64.ofNat base).toNat = base := UInt64.toNat_ofNat_of_lt hbase
  have hn' : (UInt32.ofNat n).toNat = n := UInt32.toNat_ofNat_of_lt hn
  obtain ⟨res, vs', hexec, hout, hdone⟩ := exec_release h hsafe
  have hpages : (Request.release (UInt64.ofNat base) (UInt32.ofNat n)).pages =
      ⟨base / 0x1000, n⟩ := by
    rw [Request.pages, Request.addr, Request.pageCount, hbase', hn']
  rw [Request.exec, hbase', hn'] at hexec
  obtain ⟨⟨done, vs₁⟩, hrelease, hret⟩ := Except.bind_eq_ok_iff.mp hexec
  cases hret
  refine ⟨done, vs', hrelease, ?_, ?_⟩
  · intro p hp
    cases done with
    | false => rw [(hout.failure rfl).1]
    | true =>
        obtain ⟨-, -, heffect⟩ := hout.success one_ne_zero
        rw [heffect p, hpages, if_neg hp]
  · intro hcheck hreserved p hp
    have haccepted : (Request.release (UInt64.ofNat base) (UInt32.ofNat n)).accepted = true := by
      change commonCheck (UInt64.ofNat base).toNat (UInt32.ofNat n).toNat = true
      rw [hbase', hn']
      exact hcheck
    have hpre : (Request.release (UInt64.ofNat base) (UInt32.ofNat n)).Pre vs.map := by
      rw [Request.Pre, hpages]
      exact fun p hp => .inl (hreserved p hp)
    obtain ⟨-, -, heffect⟩ := hout.success (hdone haccepted hpre)
    rw [heffect p, hpages, if_pos hp]

/-- A page that was free and is not any more. -/
theorem map_ne_of_taken (h : vs'.Inv debug) {p : ℕ} (hvacant : vs.Vacant p)
    (htaken : (vs'.entry p).isFree = false) :
  vs'.map p ≠ vs.map p
  := by
  rw [vacant_iff_map.mp hvacant, h.map_eq htaken]
  intro hfree
  rw [PTE.state_eq_free_iff, htaken] at hfree
  cases hfree

/-- The pages of an address below 4 GB. -/
theorem Placed.lt (h : Placed n base) (hbase : base ≠ 0) {p : ℕ}
    (hp : p ∈ Run.mk (base / 0x1000) n) :
  p < 0x100000
  := by
  obtain ⟨haligned, hend⟩ := h hbase
  rw [Run.mem_iff] at hp
  simp only at hp
  lia

/-- A reservation below 4 GB leaves other pages as they were. -/
theorem Reachable.map_of_below (h : Reachable debug allowed vs)
    (hallowed : debug = true → ∀ vs r, allowed vs r → r.Safe vs) (hle : n + 1 ≤ 0x40000)
    (hbelow : vs.lookBelow (n + 1) = .room)
    (heq : vs.reserve debug 0 (n + 1) = .ok (base, vs')) :
  base ≠ 0 ∧ ∀ p ∉ Run.mk (base / 0x1000) (n + 1), vs'.map p = vs.map p
  := by
  have hzero : ¬ vs.Vacant 0 := by
    rw [vacant_iff_map, h.map_zero hallowed]
    simp
  obtain ⟨res, vs₁, heq', -, hby, hroom, -⟩ :=
    reserve_looked (h.inv hallowed).orderly hzero (Nat.succ_ne_zero n) hle
  rw [heq] at heq'
  cases heq'
  obtain ⟨hbase, -, hentry⟩ := hroom hbelow
  refine ⟨hbase, ?_⟩
  intro p hp
  rw [map, map, hby, hentry, if_neg hp]

/-- Where there is no room below 4 GB, pages below it are as they were. -/
theorem Reachable.entry_of_above (h : Reachable debug allowed vs)
    (hallowed : debug = true → ∀ vs r, allowed vs r → r.Safe vs) (hle : n + 1 ≤ 0x40000)
    (hbelow : vs.lookBelow (n + 1) ≠ .room)
    (heq : vs.reserve debug 0 (n + 1) = .ok (base, vs')) {p : ℕ} (hp : p < 0x100000) :
  vs'.entry p = vs.entry p
  := by
  have hzero : ¬ vs.Vacant 0 := by
    rw [vacant_iff_map, h.map_zero hallowed]
    simp
  obtain ⟨res, vs₁, heq', -, -, -, hno⟩ :=
    reserve_looked (h.inv hallowed).orderly hzero (Nat.succ_ne_zero n) hle
  rw [heq] at heq'
  cases heq'
  exact hno hbelow p hp

end Vspace

namespace ThreadRequest

variable {q : ThreadRequest} {s : ThreadCaller} {vs vs' : Vspace} {stkBase : ℕ}
  {allowed : Vspace → Request → Prop}

theorem count_lt (q : ThreadRequest) : q.count + 1 < 2 ^ 32 := stackPages_lt _

/-- The pages have been found below 4 GB, and they are given back. -/
theorem release_below (h : Vspace.Reachable q.debug allowed vs)
    (hallowed : q.debug = true → ∀ vs r, allowed vs r → r.Safe vs) (hundo : q.Undoes allowed vs)
    (hle : q.count + 1 ≤ 0x40000) (hbelow : q.FindsBelow vs) {vs₁ vs₂ vs₃ : Vspace} {res : Bool}
    (hreserve : vs.reserve q.debug 0 (q.count + 1) = .ok (stkBase, vs₁)) (hbase : stkBase ≠ 0)
    (hcommit : vs₁.commit q.debug ((stkBase + q.count * Stacks.PAGE_SIZE) % 2 ^ 64) 1 = .ok (false, vs₂))
    (hrelease : vs₂.release q.debug stkBase (q.count + 1) = .ok (res, vs₃)) :
  vs₃.map = vs.map
  := by
  have hinv := h.inv hallowed
  obtain ⟨hinv₁, hplaced⟩ := hinv.reserve_any q.count_lt hreserve
  obtain ⟨haligned, hend⟩ := hplaced hbase
  obtain ⟨res₁, vs₁', hcommit', hinv₂, hsame⟩ := hinv₁.commit_one
    (Nat.mod_lt (stkBase + q.count * Stacks.PAGE_SIZE) (show 0 < 2 ^ 64 by decide))
  rw [hcommit] at hcommit'
  cases hcommit'
  have hat := (h.reservedAt_iff hallowed (Nat.le_add_left 1 _) hle hreserve hbase).mpr hbelow
  have hrest := (h.map_of_below hallowed hle hbelow hreserve).2
  obtain ⟨res₂, vs₂', hrelease', hother, hfree⟩ := hinv₂.release_at
    (show stkBase < 2 ^ 64 by lia) q.count_lt
    (fun hd => hallowed hd _ _ (hundo _ _ _ hreserve hcommit))
  rw [hrelease] at hrelease'
  cases hrelease'
  have hcheck : Vspace.commonCheck stkBase (q.count + 1) = true := by
    rw [Vspace.commonCheck, decide_eq_true_eq]
    lia
  have hpages : ∀ p ∈ Run.mk (stkBase / 0x1000) (q.count + 1), vs₂.map p = .reserved := by
    intro p hp
    rw [hsame rfl]
    exact ((hat.changed p).mpr hp).2
  funext p
  by_cases hp : p ∈ Run.mk (stkBase / 0x1000) (q.count + 1)
  · rw [hfree hcheck hpages p hp, hat.free p hp]
  · rw [hother p hp, hsame rfl]
    exact hrest p hp

/-- What becomes of the stack: there is no room for it, or it is made, or it is given back. -/
theorem makeStack_cases (h : Vspace.Reachable q.debug allowed vs)
    (hallowed : q.debug = true → ∀ vs r, allowed vs r → r.Safe vs)
    (hundo : q.Undoes allowed vs) :
  ∃ base vs', makeStack q.debug q.count vs = .ok (base, vs') ∧
    (base = 0 ∧ ¬ q.Finds vs ∧ ¬ q.Commits vs ∧ vs'.map = vs.map ∨
    base = 0 ∧ q.Finds vs ∧ ¬ q.Commits vs ∧ (vs'.map = vs.map ↔ q.FindsBelow vs) ∨
    base ≠ 0 ∧ q.Finds vs ∧ q.Commits vs)
  := by
  have hinv := h.inv hallowed
  by_cases hfinds : q.Finds vs
  · obtain ⟨hle, hroom⟩ := hfinds
    obtain ⟨stkBase, vs₁, hreserve, hfound, -⟩ :=
      Vspace.reserve_found hinv.orderly (Nat.succ_ne_zero q.count) hle
    obtain ⟨hinv₁, hplaced⟩ := hinv.reserve_any q.count_lt hreserve
    obtain ⟨p, hvacant, htaken⟩ := hfound hroom
    have hmap := Vspace.map_ne_of_taken hinv₁ hvacant htaken
    by_cases hbase : stkBase = 0
    · -- what has been found is not told
      refine ⟨0, vs₁, ?_, .inr (.inl ⟨rfl, ⟨hle, hroom⟩, ?_, ?_⟩)⟩
      · rw [makeStack, hreserve]
        simp only [Except.ok_bind]
        rw [if_pos hbase]
        rfl
      · rintro ⟨base, vs', -, hreserve', hne, -⟩
        rw [hreserve] at hreserve'
        cases hreserve'
        exact hne hbase
      · apply iff_of_false
        · intro hsame
          exact hmap (congrFun hsame p)
        · intro hbelow
          exact (h.map_of_below hallowed hle hbelow hreserve).1 hbase
    · obtain ⟨res, vs₂, hcommit, hinv₂, hsame⟩ := hinv₁.commit_one
        (Nat.mod_lt (stkBase + q.count * Stacks.PAGE_SIZE) (show 0 < 2 ^ 64 by decide))
      cases res with
      | true =>
          refine ⟨stkBase, vs₂, ?_, .inr (.inr ⟨hbase, ⟨hle, hroom⟩, ?_⟩)⟩
          · rw [makeStack, hreserve]
            simp only [Except.ok_bind]
            rw [if_neg hbase, hcommit]
            rfl
          · exact ⟨stkBase, vs₁, vs₂, hreserve, hbase, hcommit⟩
      | false =>
          have hlt : stkBase < 2 ^ 64 := by
            obtain ⟨-, hend⟩ := hplaced hbase
            lia
          obtain ⟨res, vs₃, hrelease, hother, -⟩ := hinv₂.release_at hlt q.count_lt
            (fun hd => hallowed hd _ _ (hundo _ _ _ hreserve hcommit))
          refine ⟨0, vs₃, ?_, .inr (.inl ⟨rfl, ⟨hle, hroom⟩, ?_, ?_⟩)⟩
          · rw [makeStack, hreserve]
            simp only [Except.ok_bind]
            rw [if_neg hbase, hcommit]
            simp only [Except.ok_bind, if_true]
            rw [hrelease]
            rfl
          · rintro ⟨base, vs', vs'', hreserve', -, hcommit'⟩
            rw [hreserve] at hreserve'
            cases hreserve'
            rw [hcommit] at hcommit'
            cases hcommit'
          · constructor
            · intro hgiven
              by_contra hbelow
              -- the page above 4 GB is not among those that are released
              have hhigh : ¬ p < 0x100000 := by
                intro hp
                rw [h.entry_of_above hallowed hle hbelow hreserve hp, hvacant.1] at htaken
                cases htaken
              have hp : p ∉ Run.mk (stkBase / 0x1000) (q.count + 1) :=
                fun hp => hhigh (hplaced.lt hbase hp)
              apply hmap
              rw [← congrFun (hsame rfl) p, ← hother p hp, hgiven]
            · intro hbelow
              exact release_below h hallowed hundo hle hbelow hreserve hbase hcommit hrelease
  · have hnone : ∃ vs₁, vs.reserve q.debug 0 (q.count + 1) = .ok (0, vs₁) ∧ vs₁.map = vs.map := by
      by_cases hle : q.count + 1 ≤ 0x40000
      · obtain ⟨stkBase, vs₁, hreserve, -, hno⟩ :=
          Vspace.reserve_found hinv.orderly (Nat.succ_ne_zero q.count) hle
        obtain ⟨rfl, hsame⟩ := hno (fun hroom => hfinds ⟨hle, hroom⟩)
        exact ⟨vs₁, hreserve, hsame⟩
      · refine ⟨vs, ?_, rfl⟩
        rw [Vspace.reserve, if_neg (by simp), if_pos (.inr (Nat.lt_of_not_le hle))]
    obtain ⟨vs₁, hreserve, hsame⟩ := hnone
    refine ⟨0, vs₁, ?_, .inl ⟨rfl, hfinds, ?_, hsame⟩⟩
    · rw [makeStack, hreserve]
      simp only [Except.ok_bind, if_true]
      rfl
    · rintro ⟨base, vs', -, hreserve', hne, -⟩
      rw [hreserve] at hreserve'
      cases hreserve'
      exact hne rfl

/-! ### The thread -/

/-- `put` stays within the array of pages. -/
theorem put_returns (t : HandleTable ℕ) (room : Bool) (obj : ℕ) :
  ∃ handle t', t.put room obj = some (handle, t')
  := by
  rw [HandleTable.put]
  by_cases hindex : t.putIndex ≤ HandleTable.limit
  · rcases HandleTable.putFrom_spec t room obj (Nat.add_sub_cancel' hindex) with
      heq | ⟨handle, pg, heq, -⟩
    · exact ⟨0, t, heq⟩
    · exact ⟨handle, _, heq⟩
  · rw [Nat.sub_eq_zero_of_le (Nat.le_of_not_le hindex)]
    exact ⟨0, t, rfl⟩

/-- A thread that has been spawned is ready to run. -/
theorem runnable_insert (p : Process) (self id : ℕ) :
  runnable ((p.test self).insert self id) = runnable p + 1
  := by
  have hthreads : (p.test self).threads = p.threads := by
    rw [Process.test]
    split_ifs
    · rfl
    · rfl
  rw [runnable, Process.insert, hthreads, List.countP_cons, runnable]
  rfl

/-- Once there is a stack, the call does what is claimed exactly if the thread is spawned and finds
a handle. -/
theorem startThread_iff (stkBase : ℕ) {s s' : ThreadCaller} (hprocess : s'.process = s.process)
    (hhandles : s'.handles = s.handles) :
  AllOrNothing s (q.startThread stkBase s') ↔
    s.process.state ≠ .stopped ∧ ¬ q.PutFails s
  := by
  rw [startThread, ThreadCaller.spawn, hprocess]
  by_cases hstopped : s.process.state = .stopped
  · rw [if_pos hstopped]
    exact iff_of_false (fun h => h.1 rfl) (fun h => h.1 hstopped)
  · rw [if_neg hstopped]
    dsimp only
    rw [hhandles]
    obtain ⟨handle, t, hput⟩ := put_returns s.handles q.room q.id
    rw [hput]
    dsimp only
    by_cases hhandle : handle = 0
    · -- the thread stays, with one reference less
      rw [if_neg (not_not.mpr hhandle), ThreadCaller.relax]
      simp only [Function.update_self, OfNat.ofNat_ne_zero, if_false, ne_eq, Nat.reduceSub,
        one_ne_zero, not_false_eq_true, if_true]
      apply iff_of_false
      · intro h
        have hmore := (h.2 _ rfl).1
        change runnable ((s.process.test q.self).insert q.self q.id) ≤ _ at hmore
        rw [runnable_insert] at hmore
        omega
      · rintro ⟨-, hfound⟩
        rw [hhandle] at hput
        exact hfound ⟨t, hput⟩
    · rw [if_pos hhandle]
      apply iff_of_true
      · refine ⟨by simp, ?_⟩
        intro st hst
        cases hst
      · refine ⟨hstopped, ?_⟩
        rintro ⟨t', hput'⟩
        rw [hput] at hput'
        cases hput'
        exact hhandle rfl

/-- A call that has not come to the thread. -/
theorem allOrNothing_status_iff {st : Status} :
  AllOrNothing s (.ok (.status st, { s with vspace := vs' })) ↔ vs'.map = s.vspace.map
  := by
  constructor
  · intro h
    exact (h.2 st rfl).2
  · intro h
    exact ⟨by simp, fun _ _ => ⟨le_refl _, h⟩⟩

/-- In every run, `create_thread` is all or nothing exactly if it comes to nothing before it spawns
the thread and the pages that it has found are below 4 GB, or if the process is not stopped and
there is a handle for the thread. -/
theorem allOrNothing_iff (h : Vspace.Reachable q.debug allowed s.vspace)
    (hallowed : q.debug = true → ∀ vs r, allowed vs r → r.Safe vs)
    (hundo : q.Undoes allowed s.vspace) :
  AllOrNothing s (q.createThread s) ↔
    2 ^ 47 ≤ q.entry.toNat ∨ ¬ q.Finds s.vspace ∨
      ¬ q.Commits s.vspace ∧ q.FindsBelow s.vspace ∨
      q.Commits s.vspace ∧ s.process.state ≠ .stopped ∧ ¬ q.PutFails s
  := by
  rw [createThread]
  by_cases hentry : 2 ^ 47 ≤ q.entry.toNat
  · rw [if_pos hentry]
    exact iff_of_true (allOrNothing_status_iff.mpr rfl) (.inl hentry)
  rw [if_neg hentry]
  obtain ⟨base, vs', hstack, hcases⟩ := makeStack_cases h hallowed hundo
  rw [hstack]
  simp only [Except.ok_bind]
  rcases hcases with ⟨hbase, hfinds, hcommits, hmap⟩ | ⟨hbase, hfinds, hcommits, hmap⟩ |
    ⟨hbase, hfinds, hcommits⟩
  · rw [if_pos hbase]
    exact iff_of_true (allOrNothing_status_iff.mpr hmap) (.inr (.inl hfinds))
  · rw [if_pos hbase]
    change AllOrNothing s (.ok (.status .noResource, { s with vspace := vs' })) ↔ _
    rw [allOrNothing_status_iff, hmap]
    simp only [hentry, hfinds, hcommits, not_true_eq_false, not_false_eq_true, false_or, true_and,
      false_and, or_false]
  · rw [if_neg hbase, startThread_iff]
    · simp only [hentry, hfinds, hcommits, not_true_eq_false, false_or, true_and, false_and]
    · rfl
    · rfl

/-- A call for a stack of one page. -/
def onePageStack : ThreadRequest where
  debug := false
  entry := 0x400000
  arg := 0
  stkSize := 0x1000
  stackPreserve := 0x10000
  self := 0
  id := 1
  room := true

/-- A caller whose process is being stopped: it dies at the end of the call. -/
def stoppedCaller : ThreadCaller where
  vspace := Vspace.create Vspace.pool
  process := Process.killOthers
    { Process.new 0 with threads := [{ id := 0, state := .running, critical := true }] } none
  handles := {}
  refs := Function.update (fun _ => 0) 0 2
  args := fun _ => none

/-- For a process that is stopped, the stack is made, and is lost if that has succeeded. -/
theorem allOrNothing_iff_stopped :
  AllOrNothing stoppedCaller (onePageStack.createThread stoppedCaller) ↔
    2 ^ 47 ≤ onePageStack.entry.toNat ∨ ¬ onePageStack.Finds stoppedCaller.vspace ∨
      ¬ onePageStack.Commits stoppedCaller.vspace ∧
        onePageStack.FindsBelow stoppedCaller.vspace ∨
      onePageStack.Commits stoppedCaller.vspace ∧ stoppedCaller.process.state ≠ .stopped ∧
        ¬ onePageStack.PutFails stoppedCaller
  := by
  have hreachable : Vspace.Reachable false (fun _ _ => True) stoppedCaller.vspace :=
    Vspace.Reachable.create Vspace.pool
  exact allOrNothing_iff hreachable (fun hd => absurd hd (by decide)) (fun _ _ _ _ _ => trivial)

/-- A null pointer is dereferenced. -/
theorem stoppedCaller_null :
  ¬ AllOrNothing stoppedCaller (onePageStack.createThread stoppedCaller)
  := by
  have hnull : (onePageStack.createThread stoppedCaller).toOption.any
      (fun r => r.1 = .nullPointer) = true := by
    decide +kernel
  cases hcall : onePageStack.createThread stoppedCaller with
  | error f => exact fun h => h
  | ok r =>
      rw [hcall] at hnull
      intro h
      exact h.1 (of_decide_eq_true hnull)

end ThreadRequest

end UOS
