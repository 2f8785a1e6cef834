import Cofuos.Memory.PageMap

/-!
# Runs of an address space

The spaces that can be reached from a new one by requests. Between two requests the physical
memory manager may serve others, which does not touch the frames of the space. In every such
space every request does what the page map says, with the assertions compiled out. With the
assertions there are requests that bring the kernel down, and as long as none of these is made,
every request returns.
-/

namespace UOS

open Fault

/-! ### What brings the kernel down -/

/-- A debug build takes the third entry of a free run for the third of four. -/
theorem BLOCK.get_third {table : Table} {r : Run} {p n : Option Run}
    (h : Records true table p r n) (hr : MaximalRun table r) (h3 : 3 ≤ r.size) (h4 : r.size ≠ 4)
    (block : BLOCK) :
  BLOCK.get true table (r.self + 2) block = .error .assertFailed
  := by
  obtain ⟨b, hget, hrec⟩ := h.get_self hr {}
  obtain ⟨s, -, hread⟩ := Except.bind_eq_ok_iff.mp hget
  obtain rfl : s = r.self := by
    rw [← hrec.self_eq, BLOCK.read_self hread]
  have hfree : ∀ k < 3, ¬ (r.self + k = 0x200 ∨ (table (r.self + k)).isFree = false) := by
    intro k hk
    rw [not_or]
    constructor
    · have := hr.le
      lia
    · rw [Bool.not_eq_false]
      apply hr.free
      rw [Run.mem_iff]
      lia
  have hdata := BLOCK.read_size hread (hfree 1 (by omega)) (hfree 2 (by omega))
  rw [hrec.size_eq] at hdata
  have htag : (table (r.self + 2)).type = .SIZE ∧ (table (r.self + 2)).valid = true := by
    simp only [BLOCK.read, Except.bind_eq_ok_iff] at hread
    obtain ⟨-, -, -, -, hread⟩ := hread
    rw [if_neg (hfree 1 (by omega))] at hread
    simp only [Except.bind_eq_ok_iff] at hread
    obtain ⟨-, -, hread⟩ := hread
    rw [if_neg (hfree 2 (by omega))] at hread
    simp only [Except.bind_eq_ok_iff] at hread
    obtain ⟨u, htag, -⟩ := hread
    apply assert_eq_ok_iff.mp htag rfl
  have hfirst : BLOCK.first true table (r.self + 2) = .error .assertFailed := by
    have hne : ¬ ((table (r.self + 2)).data = 3 ∧ r.self + 2 ≥ 2) := by
      rintro ⟨h, -⟩
      omega
    rw [BLOCK.first]
    simp only [htag.1, htag.2]
    rw [assert_eq_ok (fun _ => by simpa using (not_or.mp (hfree 2 (by omega))).2)]
    simp only [Except.ok_bind, assert_eq_ok (fun _ => trivial)]
    rw [assert, if_pos ⟨rfl, hne⟩]
    rfl
  rw [BLOCK.get, hfirst]
  rfl

/-- A debug build does not survive a reservation from the third entry of a free run on, unless
the run has four entries. -/
theorem impReserveFixed_third {pdt : PDTE} {table : Table} (h : WellFormed true pdt table)
    {r : Run} (hr : MaximalRun table r) (h3 : 3 ≤ r.size) (h4 : r.size ≠ 4) (locked : Bool)
    (count : ℕ) :
  impReserveFixed true locked pdt table (r.self + 2) count = .error .assertFailed
  := by
  obtain ⟨l, hchain, hall⟩ := h
  obtain ⟨l₁, l₂, rfl⟩ := List.append_of_mem (hall r hr)
  have hfree : (table (r.self + 2)).isFree = true := by
    apply hr.free
    rw [Run.mem_iff]
    omega
  have hget := BLOCK.get_third hchain.records hr h3 h4 {}
  rw [impReserveFixed]
  apply assert_bind_assertFailed
  apply assert_bind_assertFailed
  apply assert_bind_assertFailed
  rw [hfree, if_neg (by simp), hget]
  rfl

namespace Vspace

variable {debug : Bool} {vs vs' : Vspace}

/-! ### Every request returns -/

/-- Reserving pages anywhere. -/
theorem exec_place (h : Inv debug vs) {addr : UInt64} (n : UInt32) (haddr : addr.toNat = 0) :
  ∃ res vs', (Request.reserve addr n).exec debug vs = .ok (res, vs') ∧ Inv debug vs' ∧
    Balanced vs vs' ∧ Placed n.toNat res
  := by
  rw [Request.exec, reserve, if_neg (by simpa using haddr)]
  by_cases hn : n.toNat = 0 ∨ n.toNat > 0x40000
  · rw [if_pos hn]
    exact ⟨0, vs, rfl, h, Balanced.refl vs, placed_zero _⟩
  rw [if_neg hn]
  rw [not_or] at hn
  have hplace : ∃ res vs', (if n.toNat < 0x200 then reserveAny debug { vs with locked := true } n.toNat
      else reserveBig debug { vs with locked := true } n.toNat) = .ok (res, vs') ∧
      Kept debug { vs with locked := true } vs' ∧ Placed n.toNat res := by
    split_ifs with hsmall
    · rw [reserveAny, assert_eq_ok (fun _ => rfl), assert_eq_ok (fun _ => by omega)]
      apply reserveAnyTables_eq hn.1 _ _ _ (h.lock true) (fun _ => rfl) (le_refl _)
    · rw [reserveBig, assert_eq_ok (fun _ => rfl)]
      apply reserveBigDirectories_eq hn.1 _ _ _ (h.lock true) (fun _ => rfl) (le_refl _)
  obtain ⟨res, vs₁, heq, hkept, hp⟩ := hplace
  refine ⟨res, { vs₁ with locked := false }, ?_, hkept.inv.lock false, hkept.balance.lock, hp⟩
  rw [withLock, heq]
  rfl

/-- Every request returns and keeps the space in order. -/
theorem exec_inv (h : Inv debug vs) (r : Request) (hsafe : debug = true → r.Safe vs) :
  ∃ res vs', r.exec debug vs = .ok (res, vs') ∧ Inv debug vs' ∧ Balanced vs vs'
  := by
  have hinv : (∃ res vs', r.exec debug vs = .ok (res, vs') ∧ Outcome debug vs r res vs') →
      ∃ res vs', r.exec debug vs = .ok (res, vs') ∧ Inv debug vs' ∧ Balanced vs vs' := by
    rintro ⟨res, vs', heq, ho⟩
    exact ⟨res, vs', heq, ho.inv, ho.balance⟩
  cases r with
  | reserve addr n =>
      by_cases haddr : addr.toNat = 0
      · obtain ⟨res, vs', heq, hinv, hbal, -⟩ := exec_place h n haddr
        exact ⟨res, vs', heq, hinv, hbal⟩
      · apply hinv (exec_reserve h haddr hsafe)
  | commit addr n => apply hinv (exec_commit h addr n)
  | protect addr n attrib =>
      obtain ⟨res, vs', heq, ho, -⟩ := exec_protect h addr n attrib
      exact ⟨res, vs', heq, ho.inv, ho.balance⟩
  | release addr n =>
      obtain ⟨res, vs', heq, ho, -⟩ := exec_release h hsafe
      exact ⟨res, vs', heq, ho.inv, ho.balance⟩

/-- A request with an address does what the page map says. -/
theorem exec_outcome (h : Inv debug vs) (r : Request) (haddr : r.addr ≠ 0)
    (hsafe : debug = true → r.Safe vs) :
  ∃ res vs', r.exec debug vs = .ok (res, vs') ∧ Outcome debug vs r res vs'
  := by
  cases r with
  | reserve addr n => apply exec_reserve h haddr hsafe
  | commit addr n => apply exec_commit h addr n
  | protect addr n attrib =>
      obtain ⟨res, vs', heq, ho, -⟩ := exec_protect h addr n attrib
      exact ⟨res, vs', heq, ho⟩
  | release addr n =>
      obtain ⟨res, vs', heq, ho, -⟩ := exec_release h hsafe
      exact ⟨res, vs', heq, ho⟩

/-! ### New spaces -/

theorem hasTable_create (pm : FramePool) (t : ℕ) : (create pm).hasTable t = false := by
  by_cases ht : t = 0
  · subst ht
    rfl
  · simp [hasTable, create, Function.update_of_ne ht]

theorem entry_create (pm : FramePool) (q : ℕ) : (create pm).entry q = {} :=
  entry_of_not_hasTable (hasTable_create pm _)

/-- The frames of a new space. -/
theorem frameOf_create (pm : FramePool) (o : Owner) :
  (create pm).frameOf o =
    if o = .directory 0 then some ((create pm).pdpt 0).pdtAddr
    else if o = .pl4te then some (create pm).pl4te
    else if o = .cr3 then some (create pm).cr3
    else none
  := by
  cases o with
  | cr3 => simp [frameOf]
  | pl4te => simp [frameOf]
  | directory i =>
      by_cases hi : i = 0
      · subst hi
        rfl
      · simp [frameOf, create, hi]
  | table t => simp [frameOf, hasTable_create]
  | page q =>
      rw [frameOf, entry_create]
      rfl

/-- An allocation that must succeed hands out a frame that is not in use. -/
theorem allocate_must (pm : FramePool) :
  (pm.allocate .MUST_SUCCEED).1 ∉ pm.used ∧
    (pm.allocate .MUST_SUCCEED).2.used = Insert.insert (pm.allocate .MUST_SUCCEED).1 pm.used
  := by
  rcases pm.allocate_spec .MUST_SUCCEED with ⟨hmode, -⟩ | ⟨hnew, -, hused, -⟩
  · cases hmode
  · exact ⟨hnew, hused⟩

/-- A new space has frames of its own. -/
theorem owned_create (pm : FramePool) : Owned (create pm).frameOf (create pm).pm.used := by
  -- the frames are handed out one after the other
  obtain ⟨hnew₁, hused₁⟩ := allocate_must pm
  obtain ⟨hnew₂, hused₂⟩ := allocate_must (pm.allocate .MUST_SUCCEED).2
  obtain ⟨hnew₃, hused₃⟩ := allocate_must ((pm.allocate .MUST_SUCCEED).2.allocate .MUST_SUCCEED).2
  have h₀ : Owned (fun _ => none) pm.used := by
    constructor
    · simp
    · simp
  have h₁ : Owned (fun o => if o = .cr3 then some (create pm).cr3 else none)
      (pm.allocate .MUST_SUCCEED).2.used := by
    rw [hused₁]
    apply h₀.insert hnew₁ (o := .cr3)
    · rfl
    · intro o ho
      rw [if_neg ho]
  have h₂ : Owned (fun o => if o = .pl4te then some (create pm).pl4te
      else if o = .cr3 then some (create pm).cr3 else none)
      ((pm.allocate .MUST_SUCCEED).2.allocate .MUST_SUCCEED).2.used := by
    rw [hused₂]
    apply h₁.insert hnew₂ (o := .pl4te)
    · rfl
    · intro o ho
      rw [if_neg ho]
  have hpool : (create pm).pm.used = Insert.insert ((create pm).pdpt 0).pdtAddr
      ((pm.allocate .MUST_SUCCEED).2.allocate .MUST_SUCCEED).2.used := hused₃
  rw [hpool]
  apply h₂.insert hnew₃ (o := .directory 0)
  · rfl
  · intro o ho
    rw [frameOf_create, if_neg ho]

/-- A new space is in order. -/
theorem inv_create (debug : Bool) (pm : FramePool) : Inv debug (create pm) := by
  constructor
  · intro t ht
    rw [hasTable_create] at ht
    cases ht
  · intro q
    rw [entry_create]
    constructor
    · rfl
    · simp
  · intro t _
    apply hasTable_create
  · apply owned_create

/-- A physical memory manager all of whose frames are still free. -/
def pool : FramePool := { used := ∅, answers := fun i => i + 1 }

/-! ### Runs -/

/-- The spaces that can be reached from a new one by requests that are allowed. Between two
requests the physical memory manager may serve others, whatever it answers. -/
inductive Reachable (debug : Bool) (allowed : Vspace → Request → Prop) : Vspace → Prop
  | create (pm : FramePool) : Reachable debug allowed (create pm)
  | request {vs vs' : Vspace} {res : ℕ} (r : Request) : Reachable debug allowed vs →
      allowed vs r → r.exec debug vs = .ok (res, vs') → Reachable debug allowed vs'
  | others {vs : Vspace} (pm : FramePool) : Reachable debug allowed vs →
      (∀ o f, vs.frameOf o = some f → f ∈ pm.used) → Reachable debug allowed { vs with pm := pm }

/-- A run keeps the space in order, if in a debug build it is allowed to. -/
theorem Reachable.inv {allowed : Vspace → Request → Prop} (h : Reachable debug allowed vs)
    (hallowed : debug = true → ∀ vs r, allowed vs r → r.Safe vs) :
  Inv debug vs
  := by
  induction h with
  | create pm => apply inv_create
  | request r _ hr heq ih =>
      obtain ⟨res', vs₁, heq', hinv, -⟩ := exec_inv ih r (fun hd => hallowed hd _ r hr)
      rw [heq'] at heq
      cases heq
      apply hinv
  | others pm _ hpm ih => exact ⟨ih.table, ih.entry, ih.bypass, hpm, ih.owned.distinct⟩

/-- In every run of a release build, a request with an address refines the request to the page
map: it succeeds only if the pages are as they have to be, and then it has exactly its effect,
and if it fails the map is as before. It fails only because of its arguments, the pages, or a
refusal of the physical memory manager. -/
theorem Reachable.refines_pageMap (h : Reachable false (fun _ _ => True) vs) (r : Request)
    (haddr : r.addr ≠ 0) :
  ∃ res vs', r.exec false vs = .ok (res, vs') ∧
    (res ≠ 0 → r.accepted = true ∧ r.Pre vs.map ∧ r.Effect vs.pm.used vs.map vs'.map) ∧
    (res = 0 → vs'.map = vs.map ∧
      (r.accepted = false ∨ ¬ r.Pre vs.map ∨ vs.pm.refusals < vs'.pm.refusals))
  := by
  have hinv : Inv false vs := h.inv (by simp)
  obtain ⟨res, vs', heq, ho⟩ := exec_outcome hinv r haddr (by simp)
  exact ⟨res, vs', heq, ho.success, ho.failure⟩

/-- The first table of a new space is created when it is entered. -/
theorem enterPt_create (debug : Bool) {vs : Vspace} (hvs : { create pool with locked := true } = vs) :
  ∃ pdt table, initPt debug 4 = .ok (pdt, table) ∧ WellFormed debug pdt table ∧
    (∀ i, (table i).untagged = {}) ∧ enterPt debug vs 1 = .ok (true, { vs.setTable 1 pdt table with
      usedPages := vs.usedPages + 1, pm := (vs.pm.allocate .NONE).2 })
  := by
  obtain ⟨pdt, table, hinit, hw, hclear, -⟩ := initPt_eq debug 4
  refine ⟨pdt, table, hinit, hw, hclear, ?_⟩
  have halloc : (vs.pm.allocate .NONE).1 = 4 := by
    rw [← hvs]
    decide
  have hpdt : (vs.pdt 1).present = false ∧ (vs.pdt 1).bypass = false := by
    rw [← hvs]
    decide
  rw [enterPt, hpdt.1, if_neg (by simp), newPt, assert_eq_ok (fun _ => hpdt), Except.ok_bind]
  simp only [Bool.false_eq_true, if_false, halloc]
  rw [if_neg (by omega), hinit]
  rfl

/-- In a new space the pages of the first table can be reserved at their address. -/
theorem reserve_at_create (n : UInt32) (hn : n.toNat ≠ 0) (hle : n.toNat ≤ 0x200) :
  ∃ vs', (Request.reserve 0x200000 n).exec false (create pool) = .ok (0x200000, vs') ∧
    Outcome false (create pool) (.reserve 0x200000 n) 0x200000 vs' ∧ vs'.pm.answer ≠ 0
  := by
  obtain ⟨res, vs', hexec, hout⟩ := exec_reserve (inv_create false pool)
    (show (0x200000 : UInt64).toNat ≠ 0 by decide)
    (show false = true → (Request.reserve 0x200000 n).Safe (create pool) by simp)
  suffices hserved : ∃ vs', (create pool).reserve false 0x200000 n.toNat = .ok (0x200000, vs') ∧
      vs'.pm.answer ≠ 0 by
    obtain ⟨vs₁, heq, hanswer⟩ := hserved
    have hsame : Except.ok (res, vs') = Except.ok (0x200000, vs₁) := hexec.symm.trans heq
    cases hsame
    exact ⟨vs', hexec, hout, hanswer⟩
  generalize n.toNat = n at hn hle
  obtain ⟨vs, hvs⟩ : ∃ vs, { create pool with locked := true } = vs := ⟨_, rfl⟩
  obtain ⟨pdt, table, -, hw, hclear, hpt⟩ := enterPt_create false hvs
  obtain ⟨vs₁, hvs₁⟩ : ∃ vs₁, { vs.setTable 1 pdt table with
      usedPages := vs.usedPages + 1, pm := (vs.pm.allocate .NONE).2 } = vs₁ := ⟨_, rfl⟩
  rw [hvs₁] at hpt
  have hnew : vs₁.pdt 1 = pdt ∧ vs₁.pt 1 = table := by
    rw [← hvs₁]
    simp only [setTable, Function.update_self, and_self]
  have hanswer : vs₁.pm.answer ≠ 0 := by
    have hfifth : (vs.pm.allocate .NONE).2.answer ≠ 0 := by
      rw [← hvs]
      decide
    rw [← hvs₁]
    exact hfifth
  have hpdt : enterPdt false vs (1 / 0x200) = .ok (true, vs) := by
    rw [← hvs]
    rfl
  have hbypass : (vs.pdt 1).bypass = false := by
    rw [← hvs]
    rfl
  have hfree : ∀ i, (table i).isFree = true := by
    intro i
    have hfree : (table i).untagged.isFree = true := by
      rw [hclear]
      rfl
    exact hfree
  obtain ⟨pdt', table', hfixed⟩ : ∃ pdt' table',
      impReserveFixed false vs₁.locked pdt table 0 n = .ok (true, pdt', table') := by
    rcases impReserveFixed_eq hw hn (show 0 + n ≤ 0x200 by lia)
      (show false = true → vs₁.locked = true by simp) (by simp) (by simp) with ⟨-, i, -, hi⟩ | ⟨pdt', table', heq, -⟩
    · rw [hfree] at hi
      cases hi
    · exact ⟨pdt', table', heq⟩
  have htables : ∀ tables, reserveTables false n (tables + 2) 1 0x200000 0 vs =
      .ok (n, vs₁.setTable 1 pdt' table') := by
    intro tables
    rw [reserveTables, if_pos (by lia), hpdt]
    simp only [Except.ok_bind]
    rw [if_neg (by simp), hbypass, if_neg (by simp), hpt]
    simp only [Except.ok_bind]
    rw [if_neg (by simp), hnew.1, hnew.2]
    simp only [show 0x200000 / 0x1000 % 0x200 = 0 from rfl,
      show min (n - 0) (0x200 - 0) = n by lia, hfixed, Except.ok_bind]
    rw [if_neg (by simp), reserveTables, if_neg (by lia), Nat.zero_add]
    rfl
  refine ⟨{ vs₁.setTable 1 pdt' table' with locked := false }, ?_, hanswer⟩
  have hcheck : commonCheck 0x200000 n = true := by
    simp only [commonCheck, Bool.decide_and, Bool.and_eq_true, decide_eq_true_eq]
    lia
  have hreserve : reserveFixed false vs 0x200000 n = .ok (true, vs₁.setTable 1 pdt' table') := by
    rw [reserveFixed, assert_release, assert_release, assert_release]
    simp only [Except.ok_bind]
    rw [if_neg (by decide), show 0x200000 / 0x200000 = 1 from rfl,
      show 0x40000 - 1 = 0x3fffd + 2 from rfl, htables]
    simp only [Except.ok_bind, if_true]
    rfl
  rw [reserve, if_pos (by decide), hcheck, if_neg (by simp), withLock, hvs, hreserve]
  rfl

/-- A reservation in a new space succeeds, and reserves its pages in the page map. -/
theorem refines_pageMap_create :
  ∃ vs', (Request.reserve 0x200000 5).exec false (create pool) = .ok (0x200000, vs') ∧
    ∀ p, vs'.map p = if p ∈ Run.mk 0x200 5 then .reserved else (create pool).map p
  := by
  obtain ⟨res, vs', heq, hyes, -⟩ :=
    (Reachable.create pool).refines_pageMap (.reserve 0x200000 5) (by decide)
  obtain ⟨vs₁, heq₁, -⟩ := reserve_at_create 5 (by decide) (by decide)
  rw [heq₁] at heq
  cases heq
  obtain ⟨-, -, heffect⟩ := hyes (by decide)
  exact ⟨vs', heq₁, heffect⟩

/-- In a new space two pages are committed, and the page after them is only reserved. -/
theorem commit_create :
  ∃ vs vs', (Request.reserve 0x200000 3).exec false (create pool) = .ok (0x200000, vs) ∧
    (Request.commit 0x200000 2).exec false vs = .ok (1, vs') ∧ Inv false vs' ∧
    (∀ p ∈ Run.mk 0x200 2, ∃ pt f, vs'.entry p = PTE.committed pt f) ∧ vs'.map 0x202 = .reserved
  := by
  obtain ⟨vs, heq, hout, hanswer⟩ := reserve_at_create 3 (by decide) (by decide)
  obtain ⟨-, -, heffect⟩ := hout.success (by decide)
  have hmap : ∀ p, vs.map p = if p ∈ Run.mk 0x200 3 then .reserved else (create pool).map p := heffect
  have hreserved : ∀ p ∈ Run.mk 0x200 2, vs.map p = .reserved := by
    intro p hp
    rw [Run.mem_iff] at hp
    rw [hmap, if_pos]
    rw [Run.mem_iff]
    lia
  obtain ⟨vs', heq', hout', hentry⟩ := exec_commit_of_answer hout.inv
    (show commonCheck (0x200000 : UInt64).toNat (2 : UInt32).toNat = true by decide)
    hreserved hanswer
  obtain ⟨-, -, hsame, -⟩ := hout'.success (by decide)
  refine ⟨vs, vs', heq, heq', hout'.inv, ?_, ?_⟩
  · intro p hp
    obtain ⟨f, hf⟩ := hentry p hp
    exact ⟨_, f, hf⟩
  · rw [hsame 0x202 (by decide), hmap, if_pos (by decide)]

/-- In every run of a debug build whose requests are safe, every safe request returns. -/
theorem Reachable.returns_of_safe (h : Reachable true (fun vs r => r.Safe vs) vs) (r : Request)
    (hr : r.Safe vs) :
  ∃ res vs', r.exec true vs = .ok (res, vs')
  := by
  have hinv : Inv true vs := h.inv (fun _ vs r hsafe => hsafe)
  obtain ⟨res, vs', heq, -⟩ := exec_inv hinv r (fun _ => hr)
  exact ⟨res, vs', heq⟩

/-- The fourth page of a new table can be reserved. -/
theorem returns_of_safe_create :
  ∃ res vs', (Request.reserve 0x203000 1).exec true (create pool) = .ok (res, vs')
  := by
  apply (Reachable.create pool).returns_of_safe
  intro _ _
  constructor
  · constructor
    · intro _ x hx hself _
      -- the run would start at the second page of the table, but the first one is free
      have hself' : x.self = 1 := by
        have : (0x203000 : UInt64).toNat / 0x1000 % 0x200 = 3 := rfl
        omega
      have := hx.before (by omega)
      rw [view, entry_create] at this
      cases this
    · intro t _ _ _ _
      use 0, by omega
      rw [view, entry_create]
      rfl
  · intro hlt
    apply absurd hlt (by decide)

/-- The third page of a new table cannot: a debug build fails in an assertion. -/
theorem reserve_third_fails :
  Reachable true (fun _ _ => True) (create pool) ∧
    (Request.reserve 0x202000 1).exec true (create pool) = .error .assertFailed
  := by
  use Reachable.create pool
  obtain ⟨vs, hvs⟩ : ∃ vs, { create pool with locked := true } = vs := ⟨_, rfl⟩
  have hnew : ∃ vs', enterPt true vs 1 = .ok (true, vs') ∧
      WellFormed true (vs'.pdt 1) (vs'.pt 1) ∧ MaximalRun (vs'.pt 1) ⟨0, 0x200⟩ := by
    obtain ⟨pdt, table, -, hw, hclear, hpt⟩ := enterPt_create true hvs
    refine ⟨_, hpt, ?_, ?_⟩
    · simpa only [setTable, Function.update_self] using hw
    · simp only [setTable, Function.update_self]
      constructor
      · simp
      · simp
      · intro i _
        have hfree : (table i).untagged.isFree = true := by
          rw [hclear]
          rfl
        apply hfree
      · simp
      · simp
  obtain ⟨vs', hpt, hw, hmax⟩ := hnew
  have hpdt : enterPdt true vs (1 / 0x200) = .ok (true, vs) := by
    rw [← hvs]
    rfl
  have hbypass : (vs.pdt 1).bypass = false := by
    rw [← hvs]
    rfl
  have hfixed := impReserveFixed_third hw hmax (by simp) (by simp) vs'.locked 1
  have htables : ∀ tables, reserveTables true 1 (tables + 1) 1 0x202000 0 vs
      = .error .assertFailed := by
    intro tables
    rw [reserveTables, if_pos (by omega), hpdt]
    simp only [Except.ok_bind]
    rw [if_neg (by simp), hbypass, if_neg (by simp), hpt]
    simp only [Except.ok_bind]
    rw [if_neg (by simp)]
    simp only [show 0x202000 / 0x1000 % 0x200 = 0 + 2 from rfl,
      show min (1 - 0) (0x200 - (0 + 2)) = 1 from rfl, hfixed]
    rfl
  have hreserve : reserveFixed true vs 0x202000 1 = .error .assertFailed := by
    rw [reserveFixed]
    apply assert_bind_assertFailed
    apply assert_bind_assertFailed
    apply assert_bind_assertFailed
    rw [if_neg (by decide)]
    obtain ⟨tables, htable⟩ : ∃ tables, 0x40000 - 0x202000 / 0x200000 = tables + 1 :=
      ⟨0x3fffe, rfl⟩
    dsimp only
    rw [htable, show 0x202000 / 0x200000 = 1 from rfl, htables]
    rfl
  have haddr : (0x202000 : UInt64).toNat = 0x202000 := rfl
  have hcount : (1 : UInt32).toNat = 1 := rfl
  rw [Request.exec, haddr, hcount, reserve, if_pos (by omega), if_neg (by decide), withLock, hvs,
    hreserve]
  rfl

/-- In a new space pages that fit into a table can be reserved anywhere. -/
theorem reserve_create {n : ℕ} (hn : n ≠ 0) (hlt : n < 0x200) :
  ∃ res vs', res ≠ 0 ∧ (create pool).reserve false 0 n = .ok (res, vs')
  := by
  obtain ⟨vs, hvs⟩ : ∃ vs, { create pool with locked := true } = vs := ⟨_, rfl⟩
  obtain ⟨pdt, table, hinit, hw, -, hpt⟩ := enterPt_create false hvs
  have hsize : getMaxSize pdt = 0x200 := by
    have hall : (initPt false 4).toOption.all (fun r => getMaxSize r.1 = 0x200) = true := by
      decide +kernel
    rw [hinit] at hall
    exact of_decide_eq_true hall
  have hpdt₀ : enterPdt false vs (0 / 0x200) = .ok (true, vs) := by
    rw [← hvs]
    rfl
  have hbypass₀ : (vs.pdt 0).bypass = true := by
    rw [← hvs]
    rfl
  have hpdt : enterPdt false vs ((0 + 1) / 0x200) = .ok (true, vs) := by
    rw [← hvs]
    rfl
  have hbypass : (vs.pdt (0 + 1)).bypass = false := by
    rw [← hvs]
    rfl
  obtain ⟨vs₁, hvs₁⟩ : ∃ vs₁, { vs.setTable 1 pdt table with
      usedPages := vs.usedPages + 1, pm := (vs.pm.allocate .NONE).2 } = vs₁ := ⟨_, rfl⟩
  rw [hvs₁] at hpt
  have hnew : vs₁.pdt (0 + 1) = pdt ∧ vs₁.pt (0 + 1) = table := by
    rw [← hvs₁]
    simp only [setTable, Function.update_self, zero_add, and_self]
  have htables : ∀ tables, ∃ res vs', res ≠ 0 ∧
      reserveAnyTables false n (tables + 2) 0 vs = .ok (res, vs') := by
    intro tables
    rw [reserveAnyTables, hpdt₀]
    simp only [Except.ok_bind]
    rw [if_neg (by simp), if_pos hbypass₀, reserveAnyTables, hpdt]
    simp only [Except.ok_bind]
    rw [if_neg (by simp), if_neg (by simp [hbypass]), hpt]
    simp only [Except.ok_bind]
    rw [if_neg (by simp), hnew.1, hnew.2]
    rcases impReserveAny_eq hw ((0 + 1) * 0x200000 % 2 ^ 32) hn
      (show false = true → vs₁.locked = true by simp)
      (by simp) with ⟨-, hsmall⟩ | ⟨index, pdt', table', heq, -, hle, -⟩
    · lia
    · rw [heq]
      simp only [Except.ok_bind]
      rw [if_pos (by lia)]
      exact ⟨_, _, by lia, rfl⟩
  obtain ⟨res, vs', hne, heq⟩ := htables 0x3fffe
  refine ⟨res, { vs' with locked := false }, hne, ?_⟩
  have hany : reserveAny false vs n = .ok (res, vs') := by
    rw [reserveAny, assert_release, assert_release]
    exact heq
  rw [reserve, if_neg (by simp), if_neg (by lia), withLock, hvs, if_pos hlt, hany]
  rfl

end Vspace

end UOS
