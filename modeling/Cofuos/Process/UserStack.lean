import Cofuos.Lib.Align
import Cofuos.Memory.Reachable

/-!
# User stacks

The stack of a user thread is reserved by `create_thread` of `kernel/interface/service.cpp`. Its
highest page is committed at once, the pages below it are committed by `check_guard_page` of
`kernel/exception/exception.cpp` as the thread touches them, and the destructor of the thread
releases it. The last two find the pages from two fields of the thread, which are set by
`user_entry` of `kernel/interface/bridge.cpp` when the thread starts to run.
-/

namespace UOS

/-- The fields of `thread` that describe its stacks. -/
structure Stacks where
  krnlStkTop : ℕ
  krnlStkReserved : ℕ
  userStkTop : ℕ := 0
  userStkReserved : ℕ := 0

namespace Stacks

/-- `PAGE_SIZE` -/
def PAGE_SIZE : ℕ := 0x1000

/-- `IS_HIGHADDR` -/
def isHighaddr (va : ℕ) : Bool := 0xFFFF800000000000 ≤ va

/-- A difference of two `qword`s. -/
def sub (a b : ℕ) : ℕ := (a + 2 ^ 64 - b) % 2 ^ 64

/-! ### Making a stack -/

/-- The size of the stack that `create_thread` makes. It is a `dword`, and so is the default of the
image after it has been assigned to it. -/
def stackSize (stkSize stackPreserve : ℕ) : ℕ :=
  if stkSize = 0 then stackPreserve % 2 ^ 32 else stkSize

/-- The number of pages in which the thread is to find its stack. One more is reserved. -/
def stackPages (size : ℕ) : ℕ := max 1 (alignUp 32 size PAGE_SIZE / PAGE_SIZE)

/-- The arguments of `user_entry`. -/
structure EntryArgs where
  entry : ℕ
  arg : ℕ
  stkTop : ℕ
  stkSize : ℕ
  deriving DecidableEq, Repr

/-- `create_thread` up to the point at which the thread is spawned. The space has answered
`stkBase` when the pages were to be reserved, and `committed` when the highest one was to be
committed; if that fails, the pages are released again. -/
def createThread (stkBase : ℕ) (committed : Bool) (entry arg stkSize stackPreserve : ℕ) :
    Option EntryArgs :=
  if 2 ^ 47 ≤ entry then none
  else
    let size := stackSize stkSize stackPreserve
    if stkBase = 0 then none
    else if committed = false then none
    else some
      { entry := entry
        arg := arg
        stkTop := (stkBase + (stackPages size + 1) * PAGE_SIZE) % 2 ^ 64
        stkSize := size }

/-- The fields as `user_entry` sets them. -/
def userEntry (th : Stacks) (args : EntryArgs) : Stacks :=
  { th with userStkTop := args.stkTop, userStkReserved := args.stkSize }

/-! ### Using a stack -/

/-- The range in which `check_guard_page` lets the stack of an address grow, if there is one that
the address lies in. -/
def growRange (th : Stacks) (va : ℕ) : Option (ℕ × ℕ) :=
  let top := if isHighaddr va then th.krnlStkTop else th.userStkTop
  let bot := sub top (if isHighaddr va then th.krnlStkReserved else th.userStkReserved)
  if top = 0 ∨ top % PAGE_SIZE ≠ 0 ∨ bot % PAGE_SIZE ≠ 0 ∨ top = bot then none
  else
    let top := sub top PAGE_SIZE
    if isHighaddr va ≠ isHighaddr top then none
    else
      let bot := if isHighaddr va then bot else sub bot PAGE_SIZE
      if top ≤ va ∨ va < bot then none else some (bot, top)

/-- The entry of a page, as `peek` reads it. -/
def peek (vs : Vspace) (va : ℕ) : PTE := vs.entry (va / PAGE_SIZE)

/-- `check_guard_page`, where the address belongs to the space. -/
def checkGuardPage (debug : Bool) (vs : Vspace) (th : Stacks) (va : ℕ) :
    Except Fault (ℕ × Vspace) :=
  match th.growRange va with
  | none => .ok (0, vs)
  | some (bot, _) => do
      let pt := peek vs (va + PAGE_SIZE)
      if pt.present = false ∨ pt.write = false ∨ pt.xd = false then
        return (0, vs)
      let page := alignDown va PAGE_SIZE
      let (res, vs) ← vs.commit debug page 1
      if res = false then
        return (0, vs)
      if isHighaddr va = false ∧ page = bot then
        return (0x80, vs)
      return (1, vs)

/-- The address and the number of pages that the destructor of a thread passes to `release`, if
the thread has a user stack. The number is a `dword`. -/
def releaseRange (th : Stacks) : Option (ℕ × ℕ) :=
  if th.userStkTop ≠ 0 then
    some (sub (sub th.userStkTop th.userStkReserved) PAGE_SIZE,
      (1 + th.userStkReserved / PAGE_SIZE) % 2 ^ 32)
  else none

/-! ### The pages of a stack -/

/-- The stack that has been made in the pages from `stkBase` on is the one that is used: the thread
releases these pages, and the stack grows in all of them but the highest. -/
structure OneExtent (th : Stacks) (stkBase pages : ℕ) : Prop where
  released : th.releaseRange = some (stkBase, pages + 1)
  grows : ∀ va < 2 ^ 64, isHighaddr va = false →
    ((th.growRange va).isSome ↔ stkBase ≤ va ∧ va < stkBase + pages * PAGE_SIZE)

variable {debug committed : Bool} {vs vs' : Vspace} {th : Stacks} {args : EntryArgs}
  {entry arg stkSize stackPreserve stkBase pages : ℕ}

theorem stackSize_lt (stackPreserve : ℕ) (h : stkSize < 2 ^ 32) :
  stackSize stkSize stackPreserve < 2 ^ 32
  := by
  rw [stackSize]
  split_ifs
  · apply Nat.mod_lt _ (by decide)
  · exact h

theorem stackPages_eq (size : ℕ) : stackPages size = max 1 ((size + 0xFFF) % 2 ^ 32 / 0x1000) := by
  rw [stackPages, PAGE_SIZE, alignUp_div (by decide)]
  rfl

/-- A size in whole pages is not rounded. -/
theorem stackPages_of_whole {size : ℕ} (hlt : size < 2 ^ 32) (hne : size ≠ 0)
    (hmod : size % PAGE_SIZE = 0) :
  stackPages size * PAGE_SIZE = size
  := by
  rw [stackPages_eq]
  rw [PAGE_SIZE] at hmod ⊢
  lia

/-- The number of pages fits into a `dword`, with the page above them. -/
theorem stackPages_lt (size : ℕ) : stackPages size + 1 < 2 ^ 32 := by
  rw [stackPages_eq]
  lia

/-- Where a space in order puts pages that are reserved anywhere. -/
theorem placed_of_reserve (h : vs.Inv debug) {n : ℕ} (hn : n < 2 ^ 32)
    (hres : vs.reserve debug 0 n = .ok (stkBase, vs')) :
  Vspace.Placed n stkBase
  := by
  obtain ⟨res, vs'', heq, -, -, hplaced⟩ := Vspace.exec_place h (UInt32.ofNat n) UInt64.toNat_zero
  have htoNat : (UInt32.ofNat n).toNat = n := UInt32.toNat_ofNat_of_lt hn
  rw [Request.exec, htoNat] at heq
  rw [htoNat] at hplaced
  have hsame : (Except.ok (stkBase, vs') : Except Fault (ℕ × Vspace)) = .ok (res, vs'') :=
    hres.symm.trans heq
  cases hsame
  exact hplaced

/-- What `create_thread` passes to `user_entry`. -/
theorem createThread_eq
    (h : createThread stkBase committed entry arg stkSize stackPreserve = some args) :
  stkBase ≠ 0 ∧ args.stkSize = stackSize stkSize stackPreserve ∧
    args.stkTop = (stkBase + (stackPages (stackSize stkSize stackPreserve) + 1) * PAGE_SIZE) % 2 ^ 64
  := by
  rw [createThread] at h
  split_ifs at h with hentry hbase hcommit
  cases h
  exact ⟨hbase, rfl, rfl⟩

theorem createThread_of_ne (h : stkBase ≠ 0) (entry arg stkSize stackPreserve : ℕ)
    (hentry : entry < 2 ^ 47) :
  ∃ args, createThread stkBase true entry arg stkSize stackPreserve = some args
  := by
  rw [createThread, if_neg (Nat.not_le.mpr hentry)]
  simp only [if_neg h, Bool.true_eq_false, if_false, Option.some.injEq, exists_eq']

theorem sub_eq {a b : ℕ} (h : b ≤ a) (ha : a < 2 ^ 64) : sub a b = a - b := by
  rw [sub]
  lia

theorem isHighaddr_eq_false {va : ℕ} (h : va < 2 ^ 47) : isHighaddr va = false := by
  rw [isHighaddr, decide_eq_false_iff_not]
  omega

/-- The fields of a thread whose stack has the pages from `stkBase` on, with their number. -/
structure Whole (th : Stacks) (stkBase pages : ℕ) : Prop where
  base_ne : stkBase ≠ 0
  aligned : stkBase % PAGE_SIZE = 0
  pages_ne : pages ≠ 0
  le : stkBase + (pages + 1) * PAGE_SIZE ≤ 2 ^ 32
  top : th.userStkTop = stkBase + (pages + 1) * PAGE_SIZE
  reserved : th.userStkReserved = pages * PAGE_SIZE

/-- The range in which such a stack may grow. -/
theorem Whole.growRange_eq (h : th.Whole stkBase pages) {va : ℕ} (hva : isHighaddr va = false) :
  th.growRange va =
    if stkBase ≤ va ∧ va < stkBase + pages * PAGE_SIZE then
      some (stkBase, stkBase + pages * PAGE_SIZE)
    else none
  := by
  obtain ⟨hbase, haligned, hpages, hle, htop, hreserved⟩ := h
  have hbot : sub th.userStkTop th.userStkReserved = stkBase + PAGE_SIZE := by
    rw [htop, hreserved, PAGE_SIZE] at *
    rw [sub_eq (by lia) (by lia)]
    lia
  have htop' : sub th.userStkTop PAGE_SIZE = stkBase + pages * PAGE_SIZE := by
    rw [htop, PAGE_SIZE] at *
    rw [sub_eq (by lia) (by lia)]
    lia
  have hbot' : sub (stkBase + PAGE_SIZE) PAGE_SIZE = stkBase := by
    rw [PAGE_SIZE] at *
    rw [sub_eq (by lia) (by lia)]
    lia
  have hlow : isHighaddr (stkBase + pages * PAGE_SIZE) = false := by
    apply isHighaddr_eq_false
    rw [PAGE_SIZE] at hle ⊢
    lia
  have hvalid : ¬ (th.userStkTop = 0 ∨ th.userStkTop % PAGE_SIZE ≠ 0 ∨
      (stkBase + PAGE_SIZE) % PAGE_SIZE ≠ 0 ∨ th.userStkTop = stkBase + PAGE_SIZE) := by
    rw [htop]
    rw [PAGE_SIZE] at *
    lia
  simp only [growRange, hva, Bool.false_eq_true, if_false, hbot, if_neg hvalid, htop', hlow,
    ne_eq, not_true_eq_false, hbot']
  split_ifs
  · lia
  · rfl
  · rfl
  · lia

/-- Such a stack is used as it has been made. -/
theorem Whole.oneExtent (h : th.Whole stkBase pages) : th.OneExtent stkBase pages := by
  constructor
  · obtain ⟨hbase, haligned, hpages, hle, htop, hreserved⟩ := h
    have hne : th.userStkTop ≠ 0 := by lia
    have hbot : sub th.userStkTop th.userStkReserved = stkBase + PAGE_SIZE := by
      rw [htop, hreserved, PAGE_SIZE] at *
      rw [sub_eq (by lia) (by lia)]
      lia
    have hbot' : sub (stkBase + PAGE_SIZE) PAGE_SIZE = stkBase := by
      rw [PAGE_SIZE] at *
      rw [sub_eq (by lia) (by lia)]
      lia
    have hcount : (1 + th.userStkReserved / PAGE_SIZE) % 2 ^ 32 = pages + 1 := by
      rw [hreserved]
      rw [PAGE_SIZE] at *
      lia
    rw [releaseRange, if_pos hne, hbot, hbot', hcount]
  · intro va _ hva
    rw [h.growRange_eq hva]
    split_ifs with hin
    · exact ⟨fun _ => hin, fun _ => rfl⟩
    · exact ⟨fun hsome => absurd hsome Bool.false_ne_true, fun hand => absurd hand hin⟩

/-- In every space that can be reached, the stack that `create_thread` makes is the one that the
thread uses and releases exactly if its size is a number of whole pages other than zero and the
thread starts to run before it is destroyed. -/
theorem one_extent_iff {allowed : Vspace → Request → Prop} (h : Vspace.Reachable debug allowed vs)
    (hallowed : debug = true → ∀ vs r, allowed vs r → r.Safe vs) (hth : th.userStkTop = 0)
    (hsize : stkSize < 2 ^ 32)
    (hres : vs.reserve debug 0 (stackPages (stackSize stkSize stackPreserve) + 1) =
      .ok (stkBase, vs'))
    (hmade : createThread stkBase committed entry arg stkSize stackPreserve = some args)
    (started : Bool) :
  OneExtent (if started = true then th.userEntry args else th) stkBase
      (stackPages (stackSize stkSize stackPreserve)) ↔
    started = true ∧ stackSize stkSize stackPreserve ≠ 0 ∧
      stackSize stkSize stackPreserve % PAGE_SIZE = 0
  := by
  have hplaced := placed_of_reserve (h.inv hallowed) (stackPages_lt _) hres
  obtain ⟨hbase, hargs, htop⟩ := createThread_eq hmade
  have hlt := stackSize_lt stackPreserve hsize
  obtain ⟨size, hs⟩ : ∃ size, stackSize stkSize stackPreserve = size := ⟨_, rfl⟩
  rw [hs] at hplaced hargs htop hlt ⊢
  obtain ⟨haligned, hle⟩ := hplaced hbase
  have hle' : stkBase + (stackPages size + 1) * PAGE_SIZE ≤ 2 ^ 32 := hle
  rw [Nat.mod_eq_of_lt (by omega)] at htop
  have hpages : 1 ≤ stackPages size := Nat.le_max_left _ _
  constructor
  · intro hone
    cases started with
    | false =>
        -- a thread that has not run has no user stack to release
        have hreleased := hone.released
        simp only [Bool.false_eq_true, if_false, releaseRange, hth, ne_eq,
          not_true_eq_false] at hreleased
        cases hreleased
    | true =>
        have hreleased := hone.released
        have hne : args.stkTop ≠ 0 := by omega
        simp only [if_true, releaseRange, userEntry, if_pos hne, Option.some.injEq,
          Prod.mk.injEq] at hreleased
        rw [htop, hargs] at hreleased
        have hfrom := hreleased.1
        rw [sub, sub] at hfrom
        rw [PAGE_SIZE] at hfrom hle' ⊢
        refine ⟨rfl, ?_, ?_⟩
        · omega
        · omega
  · rintro ⟨rfl, hne, hmod⟩
    have hwhole := stackPages_of_whole hlt hne hmod
    apply Whole.oneExtent
    exact ⟨hbase, haligned, by omega, hle', htop, hargs.trans hwhole.symm⟩

/-- A stack of two pages in a new space. -/
theorem one_extent_iff_two :
  ∃ stkBase vs' args, (Vspace.create Vspace.pool).reserve false 0 3 = .ok (stkBase, vs') ∧
    createThread stkBase true 0x400000 0 0x2000 0 = some args ∧
    (OneExtent (userEntry { krnlStkTop := 0, krnlStkReserved := 0 } args) stkBase 2 ↔
      true = true ∧ 0x2000 ≠ 0 ∧ 0x2000 % PAGE_SIZE = 0)
  := by
  obtain ⟨stkBase, vs', hne, hres⟩ := Vspace.reserve_create (show 3 ≠ 0 by decide) (by decide)
  obtain ⟨args, hargs⟩ := createThread_of_ne hne 0x400000 0 0x2000 0 (by decide)
  have hreachable : Vspace.Reachable false (fun _ _ => True) (Vspace.create Vspace.pool) :=
    Vspace.Reachable.create Vspace.pool
  have hreserved : (Vspace.create Vspace.pool).reserve false 0 (stackPages (stackSize 0x2000 0) + 1) =
      .ok (stkBase, vs') := hres
  exact ⟨stkBase, vs', args, hres, hargs,
    one_extent_iff hreachable (by simp) rfl (by decide) hreserved hargs true⟩

/-- The size of a stack is not rounded when it is stored: of a stack of one page and a half, two
pages and another one are reserved, but they are not released. -/
theorem unrounded_size :
  ∃ stkBase vs' args, (Vspace.create Vspace.pool).reserve false 0 3 = .ok (stkBase, vs') ∧
    createThread stkBase true 0x400000 0 0x1800 0 = some args ∧
    ¬ OneExtent (userEntry { krnlStkTop := 0, krnlStkReserved := 0 } args) stkBase
      (stackPages (stackSize 0x1800 0))
  := by
  obtain ⟨stkBase, vs', hne, hres⟩ := Vspace.reserve_create (show 3 ≠ 0 by decide) (by decide)
  obtain ⟨args, hargs⟩ := createThread_of_ne hne 0x400000 0 0x1800 0 (by decide)
  refine ⟨stkBase, vs', args, hres, hargs, ?_⟩
  intro hone
  obtain ⟨-, hle⟩ := placed_of_reserve (Vspace.inv_create false Vspace.pool) (by decide) hres hne
  obtain ⟨-, hsize, htop⟩ := createThread_eq hargs
  have hpages : stackPages (stackSize 0x1800 0) = 2 := by decide
  have hsize' : args.stkSize = 0x1800 := hsize
  rw [hpages, PAGE_SIZE, Nat.mod_eq_of_lt (by omega)] at htop
  have hreleased := hone.released
  rw [releaseRange] at hreleased
  simp only [userEntry, hsize', htop, hpages] at hreleased
  rw [if_pos (by omega), Option.some.injEq, Prod.mk.injEq] at hreleased
  have hcount := hreleased.2
  rw [PAGE_SIZE] at hcount
  omega

/-! ### What the space does -/

/-- A stack that is used as it has been made is released completely. -/
theorem Whole.release (h : vs.Inv debug) (hw : th.Whole stkBase pages)
    (hmap : ∀ p ∈ Run.mk (stkBase / PAGE_SIZE) (pages + 1),
      vs.map p = .reserved ∨ ∃ f a, vs.map p = .committed f a)
    (hsafe : debug = true →
      (Request.release (UInt64.ofNat stkBase) (UInt32.ofNat (pages + 1))).Safe vs) :
  ∃ addr n vs', th.releaseRange = some (addr, n) ∧ vs.release debug addr n = .ok (true, vs') ∧
    ∀ p, vs'.map p = if p ∈ Run.mk (stkBase / PAGE_SIZE) (pages + 1) then .free else vs.map p
  := by
  refine ⟨stkBase, pages + 1, ?_⟩
  have hle := hw.le
  have haligned := hw.aligned
  have hbase := hw.base_ne
  rw [PAGE_SIZE] at hle haligned hmap ⊢
  have haddr : (UInt64.ofNat stkBase).toNat = stkBase := by
    rw [UInt64.toNat_ofNat', Nat.mod_eq_of_lt (by lia)]
  have hn : (UInt32.ofNat (pages + 1)).toNat = pages + 1 := by
    rw [UInt32.toNat_ofNat', Nat.mod_eq_of_lt (by lia)]
  obtain ⟨res, vs', heq, hout, hres⟩ := Vspace.exec_release h hsafe
  have hpages : (Request.release (UInt64.ofNat stkBase) (UInt32.ofNat (pages + 1))).pages =
      ⟨stkBase / 0x1000, pages + 1⟩ := by
    rw [Request.pages, Request.addr, Request.pageCount, haddr, hn]
  have hacc : (Request.release (UInt64.ofNat stkBase) (UInt32.ofNat (pages + 1))).accepted =
      true := by
    change Vspace.commonCheck (UInt64.ofNat stkBase).toNat (UInt32.ofNat (pages + 1)).toNat = true
    rw [haddr, hn, Vspace.commonCheck, decide_eq_true_eq]
    lia
  have hpre : (Request.release (UInt64.ofNat stkBase) (UInt32.ofNat (pages + 1))).Pre vs.map := by
    rw [Request.Pre, hpages]
    exact hmap
  have hne := hres hacc hpre
  obtain ⟨-, -, heffect⟩ := hout.success hne
  rw [Request.Effect, hpages] at heffect
  rw [Request.exec, haddr, hn] at heq
  obtain ⟨⟨done, vs''⟩, hrel, hret⟩ := Except.bind_eq_ok_iff.mp heq
  cases hret
  cases done with
  | true => exact ⟨vs', hw.oneExtent.released, hrel, heffect⟩
  | false => exact absurd rfl hne

/-- A stack that is used as it has been made grows by the page below the lowest one that is
committed, unless there is no frame for it. -/
theorem Whole.grow (h : vs.Inv debug) (hw : th.Whole stkBase pages) {va : ℕ}
    (hlow : stkBase ≤ va) (hhigh : va < stkBase + pages * PAGE_SIZE)
    (hmap : vs.map (va / PAGE_SIZE) = .reserved) {f : ℕ} {a : Attributes}
    (habove : vs.map (va / PAGE_SIZE + 1) = .committed f a) (hwrite : a.write = true)
    (hxd : a.xd = true) :
  ∃ res vs', checkGuardPage debug vs th va = .ok (res, vs') ∧
    (res ≠ 0 → (∃ f a, vs'.map (va / PAGE_SIZE) = .committed f a) ∧
      ∀ p, p ≠ va / PAGE_SIZE → vs'.map p = vs.map p) ∧
    (res = 0 → vs'.map = vs.map ∧ vs.pm.refusals < vs'.pm.refusals)
  := by
  have hle := hw.le
  have hbase := hw.base_ne
  have haligned := hw.aligned
  have hva : isHighaddr va = false := by
    apply isHighaddr_eq_false
    rw [PAGE_SIZE] at hle hhigh
    lia
  have hrange := hw.growRange_eq hva
  rw [if_pos ⟨hlow, hhigh⟩] at hrange
  rw [PAGE_SIZE] at hle hhigh hmap habove haligned ⊢
  obtain ⟨pt, hpt⟩ : ∃ pt, peek vs (va + PAGE_SIZE) = pt := ⟨_, rfl⟩
  have hpresent : pt.present = true ∧ pt.write = true ∧ pt.xd = true := by
    rw [h.map_eq_iff (by simp) (by simp)] at habove
    have hentry : vs.entry (va / 0x1000 + 1) = pt := by
      rw [← hpt, peek, PAGE_SIZE, Nat.add_div_right va (by decide)]
    rw [hentry, PTE.state] at habove
    split_ifs at habove with hp
    cases habove
    exact ⟨hp, hwrite, hxd⟩
  have hcond : ¬ (pt.present = false ∨ pt.write = false ∨ pt.xd = false) := by
    rw [hpresent.1, hpresent.2.1, hpresent.2.2]
    simp
  have haddr : (UInt64.ofNat (alignDown va 0x1000)).toNat = va / 0x1000 * 0x1000 := by
    rw [UInt64.toNat_ofNat', Nat.mod_eq_of_lt]
    · rfl
    · rw [alignDown]
      lia
  obtain ⟨res, vs', heq, hout⟩ := Vspace.exec_commit h (UInt64.ofNat (alignDown va 0x1000)) 1
  have hpages : (Request.commit (UInt64.ofNat (alignDown va 0x1000)) 1).pages =
      ⟨va / 0x1000, 1⟩ := by
    rw [Request.pages, Request.addr, Request.pageCount, haddr, Nat.mul_div_cancel _ (by decide)]
    rfl
  have hmem : ∀ p, p ∈ Run.mk (va / 0x1000) 1 ↔ p = va / 0x1000 := by
    intro p
    rw [Run.mem_iff]
    simp only
    lia
  rw [Request.exec, haddr] at heq
  obtain ⟨⟨done, vs''⟩, hcommit, hret⟩ := Except.bind_eq_ok_iff.mp heq
  cases hret
  have hcheck : checkGuardPage debug vs th va =
      .ok (if done = false then 0
        else if isHighaddr va = false ∧ alignDown va PAGE_SIZE = stkBase then 0x80 else 1, vs') := by
    rw [checkGuardPage, hrange]
    simp only [hpt]
    rw [if_neg hcond]
    have hcommit' : vs.commit debug (alignDown va PAGE_SIZE) 1 = .ok (done, vs') := hcommit
    rw [hcommit']
    cases done with
    | false => rfl
    | true =>
        simp only [Except.ok_bind, Bool.true_eq_false, if_false]
        split_ifs
        · rfl
        · rfl
  refine ⟨_, vs', hcheck, ?_, ?_⟩
  · intro hne
    have hdone : done = true := by
      cases done with
      | true => rfl
      | false => exact absurd rfl hne
    obtain ⟨-, -, hothers, frame, hframe, -⟩ := hout.success (by rw [hdone]; decide)
    rw [hpages] at hothers hframe
    obtain ⟨-, a', hcommitted⟩ := hframe (va / 0x1000) ((hmem _).mpr rfl)
    exact ⟨⟨_, a', hcommitted⟩, fun p hp => hothers p (fun hin => hp ((hmem p).mp hin))⟩
  · intro hzero
    have hdone : done = false := by
      by_contra hne
      rw [if_neg hne] at hzero
      split_ifs at hzero
    obtain ⟨hsame, hwhy⟩ := hout.failure (by rw [hdone]; rfl)
    refine ⟨hsame, ?_⟩
    rcases hwhy with hacc | hpre | href
    · have hacc' : Vspace.commonCheck (UInt64.ofNat (alignDown va 0x1000)).toNat 1 = false := hacc
      rw [haddr, Vspace.commonCheck, decide_eq_false_iff_not] at hacc'
      lia
    · rw [Request.Pre, hpages] at hpre
      exfalso
      apply hpre
      intro p hp
      rw [(hmem p).mp hp]
      exact hmap
    · exact href

end Stacks

end UOS
