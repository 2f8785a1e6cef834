import Cofuos.Memory.SpaceRelease
import Cofuos.Memory.Granted

/-!
# The requests to an address space

Each request returns, keeps the space in order and changes the entries of the pages of its
range or nothing at all. A request that fails does so because of its arguments, because of the
state of a page of its range, or because the physical memory manager refused a frame.

In a debug build the assertions about the third entry of a run and about full tables rule out
some requests, which `ReserveSafe`, `RollbackSafe` and `ThreeBefore` describe in terms of the
entries of pages, and of what the physical memory manager will answer.
-/

namespace UOS

open Fault

/-- A vacant page that is reserved and released is what it was. -/
theorem PTE.released_reserved {pt : PTE} (h : pt.isFree = true) : pt.reserved.released = pt := by
  simp only [PTE.isFree, Bool.and_eq_true, Bool.not_eq_true'] at h
  obtain ⟨hp, hr⟩ := h
  cases pt
  simp only at hp hr
  subst hp hr
  rfl

/-- A table stays well formed when an entry that is not free becomes another one. -/
theorem WellFormed.update {debug : Bool} {pdt : PDTE} {table : Table} (h : WellFormed debug pdt table) {i : ℕ}
    {pt : PTE} (hold : (table i).isFree = false) (hnew : pt.isFree = false) :
  WellFormed debug pdt (Function.update table i pt)
  := by
  obtain ⟨l, hchain, hl⟩ := h
  have hfree : ∀ j, (Function.update table i pt j).isFree = (table j).isFree := by
    intro j
    by_cases hj : j = i
    · subst hj
      rw [Function.update_self, hold, hnew]
    · rw [Function.update_of_ne hj]
  have hchain' : FreeChain debug pdt (Function.update table i pt) l := by
    apply hchain.congr
    · intro x hx j hj
      rw [Function.update_of_ne]
      rintro rfl
      have := (hchain.maximal x hx).free j hj
      rw [hold] at this
      cases this
    · intro x hx
      have hmax := hchain.maximal x hx
      apply hmax.of_isFree
      · intro j hj
        rw [hfree, hmax.free j hj]
      · intro hne
        rw [hfree, hmax.before hne]
      · intro hne
        rw [hfree, hmax.after hne]
  apply hchain'.wellFormed
  intro j hj hfj
  rw [hfree] at hfj
  obtain ⟨x, hx, hjx⟩ := MaximalRun.exists_of_free hj hfj
  exact ⟨x, hl x hx, hjx⟩

namespace Vspace

variable {debug : Bool} {vs vs' vs'' : Vspace} {t q n : ℕ} {c : Run}

/-! ### Reserving at a fixed address -/

/-- In the table of the page `q`, the free run that ends before `q` has three pages. -/
def ThreeBefore (vs : Vspace) (q : ℕ) : Prop :=
  3 ≤ q % 0x200 ∧ (vs.entry (q - 1)).isFree = true ∧ (vs.entry (q - 2)).isFree = true ∧
    (vs.entry (q - 3)).isFree = true ∧ (q % 0x200 ≠ 3 → (vs.entry (q - 4)).isFree = false)

theorem releaseSafe_of_not_threeBefore (h : ¬ ThreeBefore vs q) : ReleaseSafe vs q := by
  intro x hx hend h3
  apply h
  have hfree : ∀ k, 0 < k → k ≤ 3 → (vs.entry (q - k)).isFree = true := by
    intro k hk hk3
    rw [← show q / 0x200 * 0x200 + (q % 0x200 - k) = q - k by lia]
    apply hx.free
    rw [Run.mem_iff]
    lia
  refine ⟨by lia, hfree 1 (by lia) (by lia), hfree 2 (by lia) (by lia),
    hfree 3 (by omega) (by omega), ?_⟩
  intro hne
  have hbefore := hx.before (by lia)
  rw [view] at hbefore
  rwa [show q / 0x200 * 0x200 + (x.self - 1) = q - 4 by lia] at hbefore

/-- Only the pages before `q` matter. -/
theorem ThreeBefore.congr (h : ThreeBefore vs q)
    (heq : ∀ p, p < q → (vs'.entry p).isFree = (vs.entry p).isFree) :
  ThreeBefore vs' q
  := by
  obtain ⟨hle, h1, h2, h3, h4⟩ := h
  rw [← heq _ (by lia)] at h1 h2 h3
  refine ⟨hle, h1, h2, h3, ?_⟩
  intro hne
  rw [heq _ (by lia)]
  apply h4 hne

/-- What a debug build asserts of the rollback of a reservation of `n` pages from `q` on: if
three free pages come before `q`, the reservation does not fail after its first table. It fails
at the first one, because of a page or because the physical memory manager refuses that table,
or it does not fail at all. -/
def RollbackSafe (vs : Vspace) (q n : ℕ) : Prop :=
  0x200 < q % 0x200 + n → ThreeBefore vs q →
    (∃ p ∈ Run.mk q (0x200 - q % 0x200), ¬ vs.Vacant p) ∨
    ¬ vs.Granted (q / 0x200) (q / 0x200) ∨
    ((∀ p ∈ Run.mk q n, vs.Vacant p) ∧ vs.Granted (q / 0x200) ((q + n - 1) / 0x200))

/-- Releasing what has been reserved leaves the space with its old contents. -/
theorem Reserved.rollback (h : Reserved debug vs vs' c) (h' : Released debug vs' vs'' c) :
  Grown debug vs vs''
  := by
  constructor
  · apply h'.inv
  · funext p
    rw [h'.entry, h.entry]
    by_cases hp : p ∈ c
    · rw [if_pos hp, if_pos hp, PTE.released_reserved (h.vacant p hp).1]
    · rw [if_neg hp, if_neg hp]
  · rw [h'.bypassed, h.bypassed]
  · rw [h'.locked, h.locked]
  · rw [h'.refusals]
    apply h.refusals
  · apply h.balance.trans h'.balance

/-- `reserve_fixed` reserves all pages of the range, or leaves the contents of the space as
they were. -/
theorem reserveFixed_eq (h : Inv debug vs) (hq : q ≠ 0) (hn : n ≠ 0) (hle : q + n ≤ 0x8000000)
    (hlocked : debug = true → vs.locked = true) (hsafe : debug = true → ReserveSafe vs q n)
    (hback : debug = true → RollbackSafe vs q n) :
  ∃ res vs', reserveFixed debug vs (q * 0x1000) n = .ok (res, vs') ∧
    (res = true → Reserved debug vs vs' ⟨q, n⟩) ∧
    (res = false → Grown debug vs vs' ∧
      ((∃ p ∈ Run.mk q n, ¬ vs.Vacant p) ∨ vs.pm.refusals < vs'.pm.refusals))
  := by
  have ht : q * 0x1000 / 0x200000 = q / 0x200 := by lia
  have hcover : covers (q * 0x1000) = true := by
    rw [covers, decide_eq_true_eq]
    lia
  obtain ⟨k, vs₁, heq, hk, hcross, hres, hfail⟩ := reserveTables_eq n (0x40000 - q / 0x200)
    (q / 0x200) q 0 n vs h hlocked (by lia) (by lia) hle (fun hd _ => hsafe hd)
  rw [reserveFixed, assert_eq_ok hlocked, assert_eq_ok (fun _ => by lia),
    assert_eq_ok (fun _ => by lia)]
  simp only [Except.ok_bind, hcover, ht]
  rw [if_neg (by simp), heq]
  simp only [Except.ok_bind, Nat.zero_add]
  by_cases hkn : k = n
  · subst hkn
    rw [if_pos rfl]
    exact ⟨true, vs₁, rfl, fun _ => hres, by simp⟩
  rw [if_neg hkn]
  by_cases hk0 : k = 0
  · subst hk0
    rw [if_neg (by simp)]
    refine ⟨false, vs₁, rfl, by simp, fun _ => ⟨?_, hfail (by lia)⟩⟩
    constructor
    · apply hres.inv
    · funext p
      rw [hres.entry, if_neg]
      simp only [Run.mem_iff]
      lia
    · apply hres.bypassed
    · apply hres.locked
    · apply hres.refusals
    · apply hres.balance
  · -- the reservation failed after its first table
    rw [if_pos hk0]
    have hlocked₁ : debug = true → vs₁.locked = true := by
      rw [hres.locked]
      apply hlocked
    have hnf : ∀ p ∈ Run.mk q k, (vs₁.entry p).isFree = false := by
      intro p hp
      rw [hres.entry, if_pos hp, PTE.isFree_reserved]
    have hthree : debug = true → ¬ ThreeBefore vs q := by
      intro hd h3
      rcases hback hd (by have := hcross hk0; lia) h3 with ⟨p, hp, hnv⟩ | hrefused | ⟨hall, hgranted⟩
      · apply hnv
        apply hres.vacant
        have := hcross hk0
        simp only [Run.mem_iff] at hp ⊢
        lia
      · apply hrefused
        apply granted_of_reserveTables heq
        lia
      · have hsame := reserveTables_granted n (0x40000 - q / 0x200) (q / 0x200) q 0 n (0 + k) vs vs₁
          heq (by lia) (fun _ => ⟨rfl, hgranted⟩)
        rcases hfail (by lia) with ⟨p, hp, hnv⟩ | hlt
        · apply hnv (hall p hp)
        · rw [hsame] at hlt
          apply absurd hlt (lt_irrefl _)
    have hsafe₁ : debug = true → ReleaseSafe vs₁ q := by
      intro hd
      apply releaseSafe_of_not_threeBefore
      intro h3
      apply hthree hd
      apply h3.congr
      intro p hp
      rw [hres.entry, if_neg]
      simp only [Run.mem_iff]
      lia
    obtain ⟨vs₂, heq₂, hrel⟩ := safeRelease_eq hres.inv hq hk0 (by lia) hlocked₁ hnf hsafe₁
    rw [heq₂]
    refine ⟨false, vs₂, rfl, by simp, fun _ => ⟨hres.rollback hrel, ?_⟩⟩
    rw [hrel.refusals]
    apply hfail (by omega)

/-! ### Visiting pages -/

/-- Looking at the entries from `q` on ends before the first one that does not pass. -/
theorem iteratePages_check (h : Inv debug vs) {p : PTE → Bool}
    (hp : ∀ pt, p pt.untagged = p pt) (hclear : p {} = false) :
    ∀ n q, q + n ≤ 0x8000000 →
      ∃ k, iteratePages (check p) n q vs = .ok (k, vs) ∧ k ≤ n ∧
        (∀ j < k, p (vs.entry (q + j)) = true) ∧ (k < n → p (vs.entry (q + k)) = false)
  | 0, q, _ => ⟨0, rfl, le_refl _, by simp, by simp⟩
  | n + 1, q, hle => by
      rw [iteratePages]
      dsimp only
      rw [if_neg (by omega)]
      have hstop : vs.hasTable (q / 0x200) = false → p (vs.entry (q + 0)) = false := by
        intro hno
        rw [Nat.add_zero, entry_of_not_hasTable hno, hclear]
      by_cases hdir : (vs.pdpt (q / 0x200 / 0x200)).present = false
      · rw [if_pos hdir]
        exact ⟨0, rfl, by omega, by simp, fun _ => hstop (by rw [hasTable, hdir, Bool.false_and])⟩
      rw [if_neg hdir]
      rw [Bool.not_eq_false] at hdir
      by_cases htab : (vs.pdt (q / 0x200)).bypass = true ∨ (vs.pdt (q / 0x200)).present = false
      · rw [if_pos htab]
        refine ⟨0, rfl, by omega, by simp, fun _ => hstop ?_⟩
        rcases htab with hb | hno
        · apply h.bypass
          rw [bypassed, hdir, hb, Bool.and_self]
        · rw [hasTable, hno, Bool.and_false]
      rw [if_neg htab]
      rw [not_or, Bool.not_eq_false] at htab
      have hentry : p (vs.entry q) = p (vs.pt (q / 0x200) (q % 0x200)) := by
        rw [entry_eq (by rw [hasTable, hdir, htab.2, Bool.and_self]), hp]
      simp only [check, Except.ok_bind, Function.update_eq_self]
      by_cases hpq : p (vs.pt (q / 0x200) (q % 0x200)) = false
      · rw [if_pos hpq]
        refine ⟨0, rfl, by omega, by simp, fun _ => ?_⟩
        rw [Nat.add_zero, hentry, hpq]
      · rw [if_neg hpq]
        obtain ⟨k, heq, hk, hall, hend⟩ := iteratePages_check h hp hclear n (q + 1) (by omega)
        rw [heq]
        refine ⟨k + 1, rfl, by omega, ?_, ?_⟩
        · intro j hj
          cases j with
          | zero =>
              rw [Nat.add_zero, hentry]
              simpa using hpq
          | succ j =>
              rw [show q + (j + 1) = q + 1 + j by omega]
              apply hall j (by omega)
        · intro hlt
          rw [show q + (k + 1) = q + 1 + k by omega]
          apply hend (by omega)

/-- The visit to the pages of a range, when the arguments are as they should be. -/
theorem impIterate_eq (hq : q ≠ 0) (hn : n ≠ 0) (hle : q + n ≤ 0x8000000)
    (hlocked : debug = true → vs.locked = true) (callback : Callback) :
  impIterate debug vs (q * 0x1000) n callback = iteratePages callback n q vs
  := by
  have hcover : covers (q * 0x1000) = true := by
    rw [covers, decide_eq_true_eq]
    lia
  rw [impIterate, assert_eq_ok hlocked, assert_eq_ok (fun _ => hn),
    assert_eq_ok (fun _ => by lia)]
  simp only [Except.ok_bind, hcover]
  rw [if_neg (by simp), show q * 0x1000 / 0x1000 = q by lia]

/-- All pages of a range are visited exactly when all of their entries pass. -/
theorem impIterate_check (h : Inv debug vs) {p : PTE → Bool} (hp : ∀ pt, p pt.untagged = p pt)
    (hclear : p {} = false) (hq : q ≠ 0) (hn : n ≠ 0) (hle : q + n ≤ 0x8000000)
    (hlocked : debug = true → vs.locked = true) :
  ∃ k, impIterate debug vs (q * 0x1000) n (check p) = .ok (k, vs) ∧
    (k = n ↔ ∀ x ∈ Run.mk q n, p (vs.entry x) = true)
  := by
  obtain ⟨k, heq, hk, hall, hend⟩ := iteratePages_check h hp hclear n q hle
  refine ⟨k, ?_, ?_⟩
  · rw [impIterate_eq hq hn hle hlocked, heq]
  · constructor
    · rintro rfl x hx
      simp only [Run.mem_iff] at hx
      rw [show x = q + (x - q) by lia]
      apply hall _ (by omega)
    · intro hx
      by_contra hne
      have := hend (by lia)
      rw [hx (q + k) (by simp only [Run.mem_iff]; lia)] at this
      cases this

/-- The space after the entry of the page `q` has been changed. -/
def editPage (vs : Vspace) (q : ℕ) (pt : PTE) (pm : FramePool) : Vspace :=
  { vs with
    pt := Function.update vs.pt (q / 0x200)
      (Function.update (vs.pt (q / 0x200)) (q % 0x200) pt)
    pm := pm }

/-- Changing the entry of a page that is not free. -/
theorem editPage_spec (h : Inv debug vs) {pt : PTE} {pm : FramePool}
    (hold : (vs.entry q).isFree = false) (hnew : pt.isFree = false) (hin : pt.InOrder)
    (howned : Owned (fun o => if o = .page q then pt.frame else vs.frameOf o) pm.used) :
  Inv debug (vs.editPage q pt pm) ∧ (vs.editPage q pt pm).bypassed = vs.bypassed ∧
    (vs.editPage q pt pm).frameOf = (fun o => if o = .page q then pt.frame else vs.frameOf o) ∧
    ∀ p, (vs.editPage q pt pm).entry p = if p = q then pt.untagged else vs.entry p
  := by
  have hhas := hasTable_of_not_free hold
  have hentry : ∀ p, (vs.editPage q pt pm).entry p = if p = q then pt.untagged else vs.entry p := by
    intro p
    by_cases hp : p = q
    · subst hp
      rw [if_pos rfl, entry_eq (by exact hhas)]
      simp only [editPage, Function.update_self]
    · rw [if_neg hp]
      by_cases ht : p / 0x200 = q / 0x200
      · have hmod : p % 0x200 ≠ q % 0x200 := by lia
        rw [entry_eq (by rw [ht]; exact hhas), entry_eq (by rw [ht]; exact hhas), ht]
        simp only [editPage, Function.update_self, Function.update_of_ne hmod]
      · rw [entry, entry]
        simp only [editPage, Function.update_of_ne ht]
        rfl
  rw [entry_eq hhas, PTE.isFree_untagged] at hold
  have hframe : (vs.editPage q pt pm).frameOf
      = fun o => if o = .page q then pt.frame else vs.frameOf o := by
    funext o
    cases o with
    | cr3 => rfl
    | pl4te => rfl
    | directory i => rfl
    | table t => rfl
    | page p =>
        simp only [frameOf, hentry, Owner.page.injEq]
        split_ifs
        · rfl
        · rfl
  refine ⟨?_, rfl, hframe, hentry⟩
  constructor
  · intro t ht
    by_cases hq : t = q / 0x200
    · subst hq
      simp only [editPage, Function.update_self]
      apply WellFormed.update (h.table _ hhas) hold hnew
    · simp only [editPage, Function.update_of_ne hq]
      apply h.table t ht
  · intro p
    rw [hentry]
    split_ifs
    · exact ⟨hin.bypass, hin.mapped⟩
    · apply h.entry
  · apply h.bypass
  · rw [hframe]
    apply howned

/-- A visit to a page of a table that is present. -/
theorem iteratePages_succ (h : Inv debug vs) (hhas : vs.hasTable (q / 0x200) = true)
    (hq : q < 0x8000000) {callback : Callback} {pt : PTE} {pm : FramePool}
    (hcall : callback (vs.pt (q / 0x200) (q % 0x200)) vs.pm = .ok (true, pt, pm)) (n : ℕ) :
  iteratePages callback (n + 1) q vs = (do
    let (count, vs) ← iteratePages callback n (q + 1) (vs.editPage q pt pm)
    return (count + 1, vs))
  := by
  have hboth := hhas
  rw [hasTable, Bool.and_eq_true] at hboth
  have hb : ¬ ((vs.pdt (q / 0x200)).bypass = true ∨ (vs.pdt (q / 0x200)).present = false) := by
    rintro (hb | hb)
    · have := h.bypass (q / 0x200) (by rw [bypassed, hboth.1, hb, Bool.and_self])
      rw [hhas] at this
      cases this
    · rw [hboth.2] at hb
      cases hb
  rw [iteratePages]
  dsimp only
  rw [if_neg (by lia), if_neg (by rw [hboth.1]; simp), if_neg hb, hcall]
  simp only [Except.ok_bind]
  rw [if_neg (by simp)]
  rfl

end Vspace

namespace PTE

/-- An entry at which a frame has been mapped. -/
def committed (pt : PTE) (frame : ℕ) : PTE :=
  { pt with
    pageAddr := frame, xd := true, pat := false, user := true, write := true, present := true }

/-- An entry whose attributes have been changed. -/
def withAttrib (pt : PTE) (attrib : UInt64) : PTE :=
  { pt with
    xd := attrib &&& Vspace.PAGE_XD ≠ 0
    global := attrib &&& Vspace.PAGE_GLOBAL ≠ 0
    cd := attrib &&& Vspace.PAGE_CD ≠ 0
    wt := attrib &&& Vspace.PAGE_WT ≠ 0
    write := attrib &&& Vspace.PAGE_WRITE ≠ 0 }

end PTE

namespace Vspace

variable {debug : Bool} {vs vs' vs'' : Vspace} {t q n : ℕ} {c : Run}

/-- The pages of `c` have got frames that were not in use. Other pages are as they were. -/
structure Committed (debug : Bool) (vs vs' : Vspace) (c : Run) : Prop where
  inv : Inv debug vs'
  bypassed : vs'.bypassed = vs.bypassed
  refusals : vs'.pm.refusals = vs.pm.refusals
  used : vs.pm.used ⊆ vs'.pm.used
  entry : ∀ p ∈ c, ∃ f, f ∉ vs.pm.used ∧ vs'.entry p = (vs.entry p).committed f
  others : ∀ p, p ∉ c → vs'.entry p = vs.entry p
  foreign : vs'.foreign = vs.foreign
  pdpt : vs'.pdpt = vs.pdpt
  card : vs'.pm.used.card = vs.pm.used.card + c.size
  usedPages : vs'.usedPages = vs.usedPages

/-- The loop of `commit`. -/
theorem iteratePages_commit :
    ∀ (n q : ℕ) (vs : Vspace), Inv debug vs → q + n ≤ 0x8000000 →
      (∀ p ∈ Run.mk q n, commitCheck (vs.entry p) = true) →
      ∃ vs', iteratePages (commitEntry debug) n q vs = .ok (n, vs') ∧ Committed debug vs vs' ⟨q, n⟩
  | 0, q, vs, h, hle, hall => by
      refine ⟨vs, rfl, h, rfl, rfl, Finset.Subset.refl _, ?_, fun _ _ => rfl, rfl, rfl, rfl, rfl⟩
      intro p hp
      simp only [Run.mem_iff] at hp
      omega
  | n + 1, q, vs, h, hle, hall => by
      have hq := hall q (by simp only [Run.mem_iff]; omega)
      have hord := h.entry q
      have hold : (vs.entry q).isFree = false := by
        simp only [commitCheck, Bool.and_eq_true] at hq
        simp [PTE.isFree, hq.1.1]
      have hnone : vs.frameOf (.page q) = none := by
        simp only [commitCheck, Bool.and_eq_true, Bool.not_eq_true'] at hq
        simp [frameOf, PTE.frame, hq.2]
      have hhas := hasTable_of_not_free hold
      have hentry := entry_eq hhas
      obtain ⟨pt, hpt⟩ : ∃ pt, vs.pt (q / 0x200) (q % 0x200) = pt := ⟨_, rfl⟩
      rw [hpt] at hentry
      obtain ⟨f, hf⟩ : ∃ f, (vs.pm.allocate .TAKE).1 = f := ⟨_, rfl⟩
      obtain ⟨hnew, hused, href, h0⟩ : f ∉ vs.pm.used ∧
          (vs.pm.allocate .TAKE).2.used = Insert.insert f vs.pm.used ∧
          (vs.pm.allocate .TAKE).2.refusals = vs.pm.refusals ∧ f ≠ 0 := by
        rcases vs.pm.allocate_spec .TAKE with ⟨hmode, -⟩ | ⟨hnew, h0, hused, href⟩
        · cases hmode
        · rw [hf] at hnew h0 hused
          exact ⟨hnew, hused, href, h0⟩
      have hcall : commitEntry debug pt vs.pm
          = .ok (true, pt.committed f, (vs.pm.allocate .TAKE).2) := by
        rw [commitEntry, assert_eq_ok (fun _ => by rw [hentry] at hq; exact hq), ← hf]
        rfl
      have hin : (pt.committed f).InOrder := by
        rw [hentry] at hq hord
        simp only [commitCheck, Bool.and_eq_true] at hq
        exact ⟨hord.bypass, fun _ => ⟨hq.1.1, rfl, h0⟩⟩
      have howned : Owned (fun o => if o = .page q then (pt.committed f).frame else vs.frameOf o)
          (vs.pm.allocate .TAKE).2.used := by
        rw [hused]
        apply h.owned.insert hnew (o := .page q)
        · rw [if_pos rfl]
          simp [PTE.frame, PTE.committed, h0]
        · intro o ho
          rw [if_neg ho]
      obtain ⟨hinv₁, hby₁, hframe₁, hentry₁⟩ := editPage_spec h hold
        (by simp [PTE.isFree, PTE.committed]) hin howned
      obtain ⟨vs₁, hvs₁⟩ : ∃ vs₁, vs.editPage q (pt.committed f) (vs.pm.allocate .TAKE).2 = vs₁ :=
        ⟨_, rfl⟩
      have hused₁ : vs₁.pm.used = Insert.insert f vs.pm.used := by
        rw [← hvs₁]
        apply hused
      have href₁ : vs₁.pm.refusals = vs.pm.refusals := by
        rw [← hvs₁]
        apply href
      have hpages₁ : vs₁.usedPages = vs.usedPages := by
        rw [← hvs₁]
        rfl
      have hpdpt₁ : vs₁.pdpt = vs.pdpt := by
        rw [← hvs₁]
        rfl
      rw [iteratePages_succ h hhas (by omega) (by rw [hpt]; exact hcall)]
      rw [hvs₁] at hinv₁ hby₁ hframe₁ hentry₁ ⊢
      have hforeign₁ : vs₁.foreign = vs.foreign := by
        apply foreign_insert hnew hnone _ _ hused₁
        · rw [hframe₁]
          simp [PTE.frame, PTE.committed, h0]
        · intro o ho
          rw [hframe₁]
          exact if_neg ho
      obtain ⟨vs₂, heq₂, hcom⟩ := iteratePages_commit n (q + 1) vs₁ hinv₁ (by omega) (by
        intro p hp
        have hpq : p ≠ q ∧ p ∈ Run.mk q (n + 1) := by
          simp only [Run.mem_iff] at hp ⊢
          lia
        rw [hentry₁, if_neg hpq.1]
        apply hall p hpq.2)
      rw [heq₂]
      have hsub : vs.pm.used ⊆ vs₁.pm.used := by
        rw [hused₁]
        apply Finset.subset_insert
      refine ⟨vs₂, rfl, hcom.inv, by rw [hcom.bypassed, hby₁], by rw [hcom.refusals, href₁],
        hsub.trans hcom.used, ?_, ?_, by rw [hcom.foreign, hforeign₁],
        by rw [hcom.pdpt, hpdpt₁], ?_, by rw [hcom.usedPages, hpages₁]⟩
      · intro p hp
        by_cases hpq : p = q
        · subst hpq
          refine ⟨f, hnew, ?_⟩
          rw [hcom.others p (by simp only [Run.mem_iff]; omega), hentry₁, if_pos rfl, hentry]
          rfl
        · obtain ⟨g, hg, heq⟩ := hcom.entry p (by simp only [Run.mem_iff] at hp ⊢; lia)
          refine ⟨g, fun hmem => hg (hsub hmem), ?_⟩
          rw [heq, hentry₁, if_neg hpq]
      · intro p hp
        have hpq : p ≠ q ∧ p ∉ Run.mk (q + 1) n := by
          simp only [Run.mem_iff] at hp ⊢
          lia
        rw [hcom.others p hpq.2, hentry₁, if_neg hpq.1]
      · rw [hcom.card, hused₁, Finset.card_insert_of_notMem hnew]
        dsimp only
        lia

/-- The attributes of the pages of `c` have been changed. Other pages are as they were. -/
structure Protected (debug : Bool) (vs vs' : Vspace) (c : Run) (attrib : UInt64) : Prop where
  inv : Inv debug vs'
  bypassed : vs'.bypassed = vs.bypassed
  pm : vs'.pm = vs.pm
  entry : ∀ p, vs'.entry p = if p ∈ c then (vs.entry p).withAttrib attrib else vs.entry p
  balance : Balanced vs vs'

/-- The loop of `protect`. -/
theorem iteratePages_protect (attrib : UInt64) :
    ∀ (n q : ℕ) (vs : Vspace), Inv debug vs → q + n ≤ 0x8000000 →
      (∀ p ∈ Run.mk q n, protectCheck (vs.entry p) = true) →
      ∃ vs', iteratePages (protectEntry debug attrib) n q vs = .ok (n, vs') ∧
        Protected debug vs vs' ⟨q, n⟩ attrib
  | 0, q, vs, h, hle, hall => by
      refine ⟨vs, rfl, h, rfl, rfl, ?_, Balanced.refl vs⟩
      intro p
      rw [if_neg]
      simp only [Run.mem_iff]
      omega
  | n + 1, q, vs, h, hle, hall => by
      have hq := hall q (by simp only [Run.mem_iff]; omega)
      have hord := h.entry q
      have hpresent : (vs.entry q).present = true := by
        simp only [protectCheck, Bool.and_eq_true] at hq
        apply hq.1.1.1
      have hold : (vs.entry q).isFree = false := by
        simp [PTE.isFree, hpresent]
      have hhas := hasTable_of_not_free hold
      have hentry := entry_eq hhas
      obtain ⟨pt, hpt⟩ : ∃ pt, vs.pt (q / 0x200) (q % 0x200) = pt := ⟨_, rfl⟩
      rw [hpt] at hentry
      have hcall : protectEntry debug attrib pt vs.pm
          = .ok (true, pt.withAttrib attrib, vs.pm) := by
        rw [protectEntry, assert_eq_ok (fun _ => by rw [hentry] at hq; exact hq)]
        rfl
      have hin : (pt.withAttrib attrib).InOrder := by
        rw [hentry] at hord
        exact ⟨hord.bypass, hord.mapped⟩
      have hnew : (pt.withAttrib attrib).isFree = false := by
        rw [hentry] at hpresent
        have hp : pt.present = true := hpresent
        simp [PTE.isFree, PTE.withAttrib, hp]
      have hframe : (fun o => if o = .page q then (pt.withAttrib attrib).frame
          else vs.frameOf o) = vs.frameOf := by
        funext o
        split_ifs with ho
        · subst ho
          rw [frameOf, hentry]
          rfl
        · rfl
      have howned : Owned
          (fun o => if o = .page q then (pt.withAttrib attrib).frame else vs.frameOf o)
          vs.pm.used := by
        rw [hframe]
        apply h.owned
      obtain ⟨hinv₁, hby₁, hframe₁, hentry₁⟩ := editPage_spec h hold hnew hin howned
      obtain ⟨vs₁, hvs₁⟩ : ∃ vs₁, vs.editPage q (pt.withAttrib attrib) vs.pm = vs₁ := ⟨_, rfl⟩
      have hpm₁ : vs₁.pm = vs.pm := by
        rw [← hvs₁]
        rfl
      have hpages₁ : vs₁.usedPages = vs.usedPages := by
        rw [← hvs₁]
        rfl
      have hpdpt₁ : vs₁.pdpt = vs.pdpt := by
        rw [← hvs₁]
        rfl
      rw [iteratePages_succ h hhas (by omega) (by rw [hpt]; exact hcall)]
      rw [hvs₁] at hinv₁ hby₁ hframe₁ hentry₁ ⊢
      have hbalance₁ : Balanced vs vs₁ :=
        Balanced.of_eq (hframe₁.trans hframe) (by rw [hpm₁]) hpages₁ hpdpt₁
      obtain ⟨vs₂, heq₂, hpro⟩ := iteratePages_protect attrib n (q + 1) vs₁ hinv₁ (by omega) (by
        intro p hp
        have hpq : p ≠ q ∧ p ∈ Run.mk q (n + 1) := by
          simp only [Run.mem_iff] at hp ⊢
          lia
        rw [hentry₁, if_neg hpq.1]
        apply hall p hpq.2)
      rw [heq₂]
      refine ⟨vs₂, rfl, hpro.inv, by rw [hpro.bypassed, hby₁], by rw [hpro.pm, hpm₁], ?_,
        hbalance₁.trans hpro.balance⟩
      intro p
      rw [hpro.entry, hentry₁]
      by_cases hpq : p = q
      · subst hpq
        have hp : p ∉ Run.mk (p + 1) n ∧ p ∈ Run.mk p (n + 1) := by
          simp only [Run.mem_iff]
          lia
        rw [if_neg hp.1, if_pos rfl, if_pos hp.2, hentry]
        rfl
      · have hiff : p ∈ Run.mk (q + 1) n ↔ p ∈ Run.mk q (n + 1) := by
          simp only [Run.mem_iff]
          lia
        rw [if_neg hpq, if_congr hiff rfl rfl]

end Vspace

end UOS
