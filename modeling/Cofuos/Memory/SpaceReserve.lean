import Cofuos.Memory.Space

/-!
# Reserving pages of an address space

A reservation at a fixed address goes from table to table and reserves the part of the range
that lies in each. What it has reserved is recorded by `Reserved`, which composes along
adjacent ranges.
-/

namespace UOS

open Fault

namespace Vspace

variable {debug : Bool} {vs vs' vs'' : Vspace} {t q : ℕ} {c : Run}

/-- A page that can be reserved. -/
def Vacant (vs : Vspace) (q : ℕ) : Prop :=
  (vs.entry q).isFree = true ∧ vs.bypassed (q / 0x200) = false

/-- The pages of `c` were vacant in `vs` and are reserved in `vs'`. Other pages are as they
were. -/
structure Reserved (debug : Bool) (vs vs' : Vspace) (c : Run) : Prop where
  inv : Inv debug vs'
  bypassed : vs'.bypassed = vs.bypassed
  locked : vs'.locked = vs.locked
  refusals : vs.pm.refusals ≤ vs'.pm.refusals
  vacant : ∀ p ∈ c, vs.Vacant p
  entry : ∀ p, vs'.entry p = if p ∈ c then (vs.entry p).reserved else vs.entry p
  balance : Balanced vs vs'

theorem Grown.vacant_iff (h : Grown debug vs vs') (p : ℕ) :
  vs'.Vacant p ↔ vs.Vacant p
  := by
  rw [Vacant, Vacant, h.entry, h.bypassed]

namespace Reserved

/-- A space that has grown has reserved nothing. -/
theorem of_grown (h : Grown debug vs vs') (q : ℕ) : Reserved debug vs vs' ⟨q, 0⟩ := by
  have hnot : ∀ p, p ∉ Run.mk q 0 := by
    intro p hp
    simp only [Run.mem_iff] at hp
    omega
  constructor
  · apply h.inv
  · apply h.bypassed
  · apply h.locked
  · apply h.refusals
  · intro p hp
    apply absurd hp (hnot p)
  · intro p
    rw [if_neg (hnot p), h.entry]
  · apply h.balance

/-- Adjacent ranges are reserved one after the other. -/
theorem trans {n m : ℕ} (h : Reserved debug vs vs' ⟨q, n⟩)
    (h' : Reserved debug vs' vs'' ⟨q + n, m⟩) :
  Reserved debug vs vs'' ⟨q, n + m⟩
  := by
  constructor
  · apply h'.inv
  · rw [h'.bypassed, h.bypassed]
  · rw [h'.locked, h.locked]
  · apply h.refusals.trans h'.refusals
  · intro p hp
    by_cases hn : p ∈ Run.mk q n
    · apply h.vacant p hn
    · have hm : p ∈ Run.mk (q + n) m := by
        simp only [Run.mem_iff] at hp hn ⊢
        lia
      have := h'.vacant p hm
      rw [Vacant, h.entry p, if_neg hn, h.bypassed] at this
      apply this
  · intro p
    rw [h'.entry, h.entry]
    by_cases hn : p ∈ Run.mk q n
    · have hm : p ∉ Run.mk (q + n) m := by
        simp only [Run.mem_iff] at hn ⊢
        omega
      have hnm : p ∈ Run.mk q (n + m) := by
        simp only [Run.mem_iff] at hn ⊢
        omega
      rw [if_pos hn, if_neg hm, if_pos hnm]
    · rw [if_neg hn]
      have hiff : p ∈ Run.mk (q + n) m ↔ p ∈ Run.mk q (n + m) := by
        simp only [Run.mem_iff] at hn ⊢
        lia
      rw [if_congr hiff rfl rfl]
  · apply h.balance.trans h'.balance

/-- Pages outside of the range are vacant when they were. -/
theorem vacant_iff (h : Reserved debug vs vs' c) {p : ℕ} (hp : p ∉ c) :
  vs'.Vacant p ↔ vs.Vacant p
  := by
  rw [Vacant, Vacant, h.entry, if_neg hp, h.bypassed]

end Reserved

theorem setTable_self (vs : Vspace) (t : ℕ) : vs.setTable t (vs.pdt t) (vs.pt t) = vs := by
  simp [setTable]

/-- The part of a range in a table that is present is reserved, or has a page that is not
vacant. -/
theorem reserveTable_eq (h : Inv debug vs) (ht : vs.hasTable t = true) {off size : ℕ}
    (hsize : size ≠ 0) (hle : off + size ≤ 0x200) (hlocked : debug = true → vs.locked = true)
    (hfull : debug = true → ∃ i < 0x200, (vs.view t i).isFree = true)
    (h2 : debug = true → ∀ x, MaximalRun (vs.view t) x → off = x.self + 2 → off ∈ x →
      x.size = 4) :
  ∃ res pdt table, impReserveFixed debug vs.locked (vs.pdt t) (vs.pt t) off size
      = .ok (res, pdt, table) ∧
    (res = false → vs.setTable t pdt table = vs ∧
      ∃ p ∈ Run.mk (t * 0x200 + off) size, ¬ vs.Vacant p) ∧
    (res = true → Reserved debug vs (vs.setTable t pdt table) ⟨t * 0x200 + off, size⟩)
  := by
  have hby : vs.bypassed t = false := by
    by_contra hne
    rw [Bool.not_eq_false] at hne
    rw [h.bypass t hne] at ht
    cases ht
  have hw := h.table t ht
  have hpdt : debug = true → (vs.pdt t).present = true ∧ (vs.pdt t).bypass = false ∧
      getMaxSize (vs.pdt t) > 0 := by
    intro hd
    rw [hasTable, Bool.and_eq_true] at ht
    rw [bypassed, ht.1, Bool.true_and] at hby
    refine ⟨ht.2, hby, ?_⟩
    obtain ⟨l, hchain, hl⟩ := hw
    obtain ⟨i, hi, hfree⟩ := hfull hd
    rw [view_eq (by rw [hasTable, ht.1, ht.2, Bool.and_self]) hi, PTE.isFree_untagged] at hfree
    obtain ⟨x, hx, -⟩ := MaximalRun.exists_of_free hi hfree
    have hne : getMaxSize (vs.pdt t) ≠ 0 := by
      rw [Ne, hchain.getMaxSize_eq_zero_iff]
      rintro rfl
      apply absurd (hl x hx)
      simp
    lia
  have hentry : ∀ i < 0x200, (vs.entry (t * 0x200 + i)).isFree = (vs.pt t i).isFree := by
    intro i hi
    have := view_eq ht hi
    rw [view] at this
    rw [this, PTE.isFree_untagged]
  rcases impReserveFixed_eq hw hsize hle hlocked hpdt
      (fun hd x hx => h2 hd x ((maximalRun_view ht).mpr hx))
    with ⟨heq, i, hi, hnot⟩ | ⟨pdt, table, heq, hw', hfree, hed, hu⟩
  · refine ⟨false, vs.pdt t, vs.pt t, heq, fun _ => ⟨setTable_self vs t, ?_⟩, by simp⟩
    simp only [Run.mem_iff] at hi
    use t * 0x200 + i, by simp only [Run.mem_iff]; lia
    rintro ⟨hv, -⟩
    rw [hentry i (by omega), hnot] at hv
    cases hv
  · refine ⟨true, pdt, table, heq, by simp, fun _ => ?_⟩
    constructor
    · apply h.setTable_reserved ht hu hw' hed hle hfree
    · funext t'
      apply bypassed_setTable hu
    · rfl
    · apply le_refl
    · intro p hp
      have hp' : p / 0x200 = t ∧ p % 0x200 ∈ Run.mk off size ∧ p = t * 0x200 + p % 0x200 := by
        simp only [Run.mem_iff] at hp ⊢
        lia
      constructor
      · rw [hp'.2.2, hentry _ (by lia)]
        apply hfree _ hp'.2.1
      · rw [hp'.1, hby]
    · apply entry_setTable ht hu PTE.untagged_reserved hed hle
    · apply Balanced.of_eq (frameOf_setTable_reserved ht hu hed hle) rfl rfl rfl

/-- What a debug build asserts of a reservation of `n` pages from `q` on: the first page is not
the third one of a free run whose length is not four, and the reservation does not come to a
table without a free page. -/
structure ReserveSafe (vs : Vspace) (q n : ℕ) : Prop where
  third : vs.bypassed (q / 0x200) = false → ∀ x, MaximalRun (vs.view (q / 0x200)) x →
    q % 0x200 = x.self + 2 → q % 0x200 ∈ x → x.size = 4
  full : ∀ t, q / 0x200 ≤ t → t * 0x200 < q + n → vs.bypassed t = false →
    (∀ p, q ≤ p → p < t * 0x200 → vs.Vacant p) → ∃ i < 0x200, (vs.view t i).isFree = true

theorem Grown.reserveSafe (h : Grown debug vs vs') {n : ℕ} (hs : ReserveSafe vs q n) :
  ReserveSafe vs' q n
  := by
  have hview : vs'.view = vs.view := by
    funext t i
    rw [view, view, h.entry]
  constructor
  · rw [h.bypassed, hview]
    apply hs.third
  · intro t ht hlt hb hv
    rw [hview]
    rw [h.bypassed] at hb
    apply hs.full t ht hlt hb
    intro p hp hpt
    rw [← h.vacant_iff]
    apply hv p hp hpt

/-- After the pages up to the end of a table were reserved, the rest of the range starts at
the next table. -/
theorem Reserved.reserveSafe {n m : ℕ} (h : Reserved debug vs vs' ⟨q, n⟩)
    (hs : ReserveSafe vs q (n + m)) (hend : (q + n) % 0x200 = 0) :
  ReserveSafe vs' (q + n) m
  := by
  constructor
  · intro _ x _ heq
    lia
  · intro t ht hlt hb hv
    rw [h.bypassed] at hb
    obtain ⟨i, hi, hfree⟩ := hs.full t (by lia) (by lia) hb (by
      intro p hp hpt
      by_cases hpn : p ∈ Run.mk q n
      · apply h.vacant p hpn
      · rw [← h.vacant_iff hpn]
        apply hv p _ hpt
        simp only [Run.mem_iff] at hpn
        lia)
    use i, hi
    rw [view] at hfree ⊢
    rw [h.entry, if_neg, hfree]
    simp only [Run.mem_iff]
    lia

/-- The loop of `reserve_fixed`, from the page `q` on with `m` pages to go. It reserves a part
of them from `q` on, and all of them unless one is not vacant or a table cannot be created. -/
theorem reserveTables_eq (pageCount : ℕ) :
    ∀ (tables t q count m : ℕ) (vs : Vspace), Inv debug vs →
      (debug = true → vs.locked = true) → count + m = pageCount →
      (m ≠ 0 → t = q / 0x200 ∧ tables + t = 0x40000) → q + m ≤ 0x8000000 →
      (debug = true → m ≠ 0 → ReserveSafe vs q m) →
      ∃ n vs', reserveTables debug pageCount tables t (q * 0x1000) count vs = .ok (count + n, vs') ∧
        n ≤ m ∧ (n ≠ 0 → min m (0x200 - q % 0x200) ≤ n) ∧ Reserved debug vs vs' ⟨q, n⟩ ∧
        (n < m → (∃ p ∈ Run.mk q m, ¬ vs.Vacant p) ∨ vs.pm.refusals < vs'.pm.refusals)
  | 0, t, q, count, m, vs, h, hlocked, hcount, htable, hle, hsafe => by
      have hm : m = 0 := by
        by_contra hne
        have := htable hne
        lia
      exact ⟨0, vs, rfl, by omega, by simp,
        Reserved.of_grown (Grown.refl h) q, by omega⟩
  | tables + 1, t, q, count, m, vs, h, hlocked, hcount, htable, hle, hsafe => by
      rw [reserveTables]
      by_cases hm : m = 0
      · rw [if_neg (by omega)]
        exact ⟨0, vs, rfl, by omega, by simp,
        Reserved.of_grown (Grown.refl h) q, by omega⟩
      obtain ⟨rfl, htab⟩ := htable hm
      rw [if_pos (by lia)]
      -- the directory
      obtain ⟨res, vs₁, heq₁, hg₁, href₁, hdir⟩ := enterPdt_eq h
        (show q / 0x200 / 0x200 < 0x200 by lia)
      rw [heq₁]
      simp only [Except.ok_bind]
      cases res with
      | false =>
          rw [if_pos rfl]
          exact ⟨0, vs₁, rfl, by omega, by simp, Reserved.of_grown hg₁ q, fun _ => .inr (href₁ rfl)⟩
      | true =>
      rw [if_neg (by simp)]
      by_cases hb : (vs₁.pdt (q / 0x200)).bypass = true
      · rw [if_pos hb]
        refine ⟨0, vs₁, rfl, by omega, by simp, Reserved.of_grown hg₁ q, fun _ => .inl ?_⟩
        refine ⟨q, by simp only [Run.mem_iff]; omega, ?_⟩
        rintro ⟨-, hv⟩
        rw [← hg₁.bypassed, bypassed, hdir rfl, hb] at hv
        cases hv
      rw [if_neg hb]
      rw [Bool.not_eq_true] at hb
      -- the table
      obtain ⟨res, vs₂, heq₂, hg₂, href₂, hhas⟩ := enterPt_eq hg₁.inv (hdir rfl) hb
      have hg := hg₁.trans hg₂
      rw [heq₂]
      simp only [Except.ok_bind]
      cases res with
      | false =>
          rw [if_pos rfl]
          refine ⟨0, vs₂, rfl, by omega, by simp, Reserved.of_grown hg q, fun _ => .inr ?_⟩
          have := href₂ rfl
          have := hg₁.refusals
          lia
      | true =>
      rw [if_neg (by simp)]
      have hoff : q * 0x1000 / 0x1000 % 0x200 = q % 0x200 := by lia
      have hsub : pageCount - count = m := by lia
      have hsafe₂ := fun hd => hg.reserveSafe (hsafe hd hm)
      have hby : vs₂.bypassed (q / 0x200) = false := by
        by_contra hne
        rw [Bool.not_eq_false] at hne
        have := hg₂.inv.bypass _ hne
        rw [hhas rfl] at this
        cases this
      have hstart : q / 0x200 * 0x200 + q % 0x200 = q := by lia
      obtain ⟨n, hn⟩ : ∃ n, min m (0x200 - q % 0x200) = n := ⟨_, rfl⟩
      have hn0 : n ≠ 0 := by lia
      have hle₂ : q % 0x200 + n ≤ 0x200 := by lia
      have hlocked₂ : debug = true → vs₂.locked = true := by
        rw [hg.locked]
        apply hlocked
      obtain ⟨res, pdt, table, heq₃, hno, hyes⟩ := reserveTable_eq hg₂.inv (hhas rfl) hn0 hle₂
        hlocked₂ (fun hd => (hsafe₂ hd).full _ (le_refl _) (by lia) hby (fun p _ _ => by lia))
        (fun hd => (hsafe₂ hd).third hby)
      rw [hstart] at hno hyes
      simp only [hoff, hsub, hn]
      rw [heq₃]
      simp only [Except.ok_bind]
      cases res with
      | false =>
          obtain ⟨hsame, p, hp, hnv⟩ := hno rfl
          rw [if_pos rfl, hsame]
          refine ⟨0, vs₂, rfl, by lia, by simp, Reserved.of_grown hg q, fun _ => .inl ⟨p, ?_, ?_⟩⟩
          · simp only [Run.mem_iff] at hp ⊢
            lia
          · rw [← hg.vacant_iff]
            apply hnv
      | true =>
      rw [if_neg (by simp)]
      have hres := hyes rfl
      have haddr : q * 0x1000 + 0x1000 * n = (q + n) * 0x1000 := by ring
      have hlocked₃ : debug = true → (vs₂.setTable (q / 0x200) pdt table).locked = true := by
        rw [hres.locked]
        apply hlocked₂
      have hcount₃ : count + n + (m - n) = pageCount := by lia
      have htable₃ : m - n ≠ 0 → q / 0x200 + 1 = (q + n) / 0x200 ∧
          tables + (q / 0x200 + 1) = 0x40000 := by lia
      have hsafe₃ : debug = true → m - n ≠ 0 →
          ReserveSafe (vs₂.setTable (q / 0x200) pdt table) (q + n) (m - n) := by
        intro hd hne
        apply hres.reserveSafe _ (by lia)
        rw [show n + (m - n) = m by lia]
        apply hsafe₂ hd
      obtain ⟨k, vs₄, heq₄, hk, -, hres₄, hfail⟩ := reserveTables_eq pageCount tables
        (q / 0x200 + 1) (q + n) (count + n) (m - n) _ hres.inv hlocked₃ hcount₃ htable₃ (by lia)
        hsafe₃
      rw [haddr]
      refine ⟨n + k, vs₄, by rw [heq₄, Nat.add_assoc], by lia, by lia, ?_, ?_⟩
      · have := (Reserved.of_grown hg q).trans (n := 0) (hres.trans hres₄)
        rwa [Nat.zero_add] at this
      · intro hlt
        rcases hfail (by lia) with ⟨p, hp, hnv⟩ | href
        · left
          refine ⟨p, ?_, ?_⟩
          · simp only [Run.mem_iff] at hp ⊢
            lia
          · rw [← hg.vacant_iff, ← hres.vacant_iff]
            · apply hnv
            · simp only [Run.mem_iff] at hp ⊢
              lia
        · right
          have := hg.refusals
          have := hres.refusals
          lia

end Vspace

end UOS
