import Cofuos.Memory.SpaceReserve

/-!
# Releasing pages of an address space

`safe_release` goes from table to table and releases the part of the range that lies in each.
The frames of the pages go back to the physical memory manager, in whose hands they are in use
until then because no two owners share a frame.
-/

namespace UOS

open Fault

/-- A released page has no frame. -/
theorem PTE.InOrder.frame_released {pt : PTE} (h : pt.InOrder) : pt.released.frame = none := by
  by_cases hp : pt.present = true
  · have := (h.mapped hp).2.2
    simp [PTE.released, PTE.frame, hp, this]
  · simp [PTE.released, PTE.frame, hp]

theorem PTE.InOrder.inOrder_released {pt : PTE} (h : pt.InOrder) : pt.released.InOrder := by
  by_cases hp : pt.present = true
  · have := (h.mapped hp).2.2
    constructor
    · simp [PTE.released, hp, this, h.bypass]
    · simp [PTE.released, hp, this]
  · constructor
    · simp [PTE.released, hp, h.bypass]
    · simp [PTE.released, hp]

namespace Vspace

variable {debug : Bool} {vs vs' vs'' : Vspace} {t q : ℕ} {c : Run}

/-- The pages of `c` are released in `vs'`. Other pages are as they were in `vs`. -/
structure Released (debug : Bool) (vs vs' : Vspace) (c : Run) : Prop where
  inv : Inv debug vs'
  bypassed : vs'.bypassed = vs.bypassed
  locked : vs'.locked = vs.locked
  refusals : vs'.pm.refusals = vs.pm.refusals
  entry : ∀ p, vs'.entry p = if p ∈ c then (vs.entry p).released else vs.entry p
  balance : Balanced vs vs'

namespace Released

theorem refl (h : Inv debug vs) (q : ℕ) : Released debug vs vs ⟨q, 0⟩ := by
  constructor
  · apply h
  · rfl
  · rfl
  · rfl
  · intro p
    rw [if_neg]
    simp only [Run.mem_iff]
    omega
  · apply Balanced.refl

/-- Adjacent ranges are released one after the other. -/
theorem trans {n m : ℕ} (h : Released debug vs vs' ⟨q, n⟩)
    (h' : Released debug vs' vs'' ⟨q + n, m⟩) :
  Released debug vs vs'' ⟨q, n + m⟩
  := by
  constructor
  · apply h'.inv
  · rw [h'.bypassed, h.bypassed]
  · rw [h'.locked, h.locked]
  · rw [h'.refusals, h.refusals]
  · intro p
    rw [h'.entry, h.entry]
    by_cases hn : p ∈ Run.mk q n
    · have hm : p ∉ Run.mk (q + n) m := by
        simp only [Run.mem_iff] at hn ⊢
        omega
      have hnm : p ∈ Run.mk q (n + m) := by
        simp only [Run.mem_iff] at hn ⊢
        omega
      rw [if_pos hn, if_neg hm, if_pos hnm]
    · rw [if_neg hn]
      have hiff : p ∈ Run.mk (q + n) m ↔ p ∈ Run.mk q (n + m) := by
        simp only [Run.mem_iff] at hn ⊢
        omega
      rw [if_congr hiff rfl rfl]
  · apply h.balance.trans h'.balance

end Released

/-- Frames that are in use are given back. -/
theorem releaseFrames_eq (vs : Vspace) {frames : List ℕ} (hnd : frames.Nodup)
    (hsub : ∀ f ∈ frames, f ∈ vs.pm.used) :
  vs.releaseFrames frames = .ok { vs with
    pm := { vs.pm with used := vs.pm.used \ frames.toFinset }
    usedPages := vs.usedPages - frames.length }
  := by
  induction frames generalizing vs with
  | nil => simp [releaseFrames, pure, Except.pure]
  | cons f frames ih =>
      obtain ⟨hf, hnd'⟩ := List.nodup_cons.mp hnd
      have hrel : vs.pm.release f = .ok { vs.pm with used := vs.pm.used.erase f } := by
        rw [FramePool.release, if_pos (hsub f (by simp))]
      have ih' := ih { vs with
        pm := { vs.pm with used := vs.pm.used.erase f }, usedPages := vs.usedPages - 1 } hnd' (by
          intro g hg
          simp only [Finset.mem_erase]
          refine ⟨?_, hsub g (by simp [hg])⟩
          rintro rfl
          apply hf hg)
      rw [releaseFrames] at ih' ⊢
      simp only [List.foldlM_cons, hrel, Except.ok_bind, pure, Except.pure] at ih' ⊢
      rw [ih']
      congr 2
      · rw [List.length_cons]
        lia
      · congr 1
        ext g
        simp only [Finset.mem_sdiff, Finset.mem_erase, List.toFinset_cons, Finset.mem_insert]
        tauto

/-- The frames of the pages of a table are in use and pairwise different. -/
theorem Inv.frames (h : Inv debug vs) (ht : vs.hasTable t = true) {off size : ℕ}
    (hle : off + size ≤ 0x200) :
  (∀ f, f ∈ ((List.range size).flatMap fun i => (vs.pt t (off + i)).frame.toList) ↔
    ∃ i < size, vs.frameOf (.page (t * 0x200 + (off + i))) = some f) ∧
  ((List.range size).flatMap fun i => (vs.pt t (off + i)).frame.toList).Nodup
  := by
  have hframe : ∀ i < size, vs.frameOf (.page (t * 0x200 + (off + i)))
      = (vs.pt t (off + i)).frame := by
    intro i hi
    have hview := view_eq ht (show off + i < 0x200 by omega)
    rw [view] at hview
    rw [frameOf, hview, PTE.frame_untagged]
  constructor
  · intro f
    simp only [List.mem_flatMap, List.mem_range, Option.mem_toList]
    constructor
    · rintro ⟨i, hi, hf⟩
      use i, hi
      rw [hframe i hi, hf]
    · rintro ⟨i, hi, hf⟩
      use i, hi
      rw [← hframe i hi, hf]
  · rw [List.nodup_flatMap]
    constructor
    · intro i _
      apply Option.toList_nodup
    · apply List.nodup_range.pairwise_of_forall_ne
      intro i hi j hj hne f hf hf'
      rw [List.mem_range] at hi hj
      rw [Option.mem_toList] at hf hf'
      rw [← hframe i hi] at hf
      rw [← hframe j hj] at hf'
      have := h.owned.distinct _ _ f hf hf'
      simp only [Owner.page.injEq] at this
      lia

/-- The part of a range in one table is released. In a debug build the free run before it must
not have three pages. -/
theorem releaseTable_eq (h : Inv debug vs) (ht : vs.hasTable t = true) {addr off size : ℕ}
    (hoff : addr / 0x1000 % 0x200 = off) (hsize : size ≠ 0) (hle : off + size ≤ 0x200)
    (hnf : ∀ p ∈ Run.mk (t * 0x200 + off) size, (vs.entry p).isFree = false)
    (hlocked : debug = true → vs.locked = true) (haddr : debug = true → addr ≠ 0)
    (h3 : debug = true → ∀ x, MaximalRun (vs.view t) x → x.self + x.size = off → x.size ≠ 3) :
  ∃ pdt table frames vs', impRelease debug vs.locked (vs.pdt t) (vs.pt t) addr size
      = .ok (pdt, table, frames) ∧
    (vs.setTable t pdt table).releaseFrames frames = .ok vs' ∧ vs'.pdpt = vs.pdpt ∧
    Released debug vs vs' ⟨t * 0x200 + off, size⟩
  := by
  have hview : ∀ i < 0x200, vs.entry (t * 0x200 + i) = (vs.pt t i).untagged := by
    intro i hi
    have := view_eq ht hi
    rwa [view] at this
  have hin : ∀ i ∈ Run.mk off size, (vs.pt t i).Releasable ∧ (vs.pt t i).bypass = false := by
    intro i hi
    have hi' : i < 0x200 := by
      simp only [Run.mem_iff] at hi
      lia
    have hord := h.entry (t * 0x200 + i)
    have hfree := hnf (t * 0x200 + i) (by simp only [Run.mem_iff] at hi ⊢; lia)
    rw [hview i hi'] at hord hfree
    exact ⟨(PTE.releasable_untagged _).mp (hord.releasable hfree), hord.bypass⟩
  have hpdt : debug = true → (vs.pdt t).present = true ∧ (vs.pdt t).bypass = false := by
    intro _
    rw [hasTable, Bool.and_eq_true] at ht
    use ht.2
    by_contra hne
    rw [Bool.not_eq_false] at hne
    have := h.bypass t (by rw [bypassed, ht.1, hne, Bool.and_self])
    rw [hasTable, ht.1, ht.2] at this
    cases this
  obtain ⟨pdt, table, heq, hw, hed, hu⟩ := impRelease_eq (h.table t ht) hoff hsize hle
    (fun i hi => (hin i hi).1) hlocked hpdt (fun _ i hi => (hin i hi).2)
    (fun hd x hx => h3 hd x ((maximalRun_view ht).mpr hx)) haddr
  obtain ⟨hmem, hnd⟩ := h.frames ht hle
  have hentry := entry_setTable ht hu PTE.untagged_released hed hle
  have hsub : ∀ o f, (vs.setTable t pdt table).frameOf o = some f → vs.frameOf o = some f := by
    intro o f hf
    cases o with
    | page p =>
        simp only [frameOf, hentry] at hf ⊢
        split_ifs at hf with hp
        · rw [(h.entry p).frame_released] at hf
          cases hf
        · apply hf
    | cr3 => rwa [frameOf_setTable hu (by simp)] at hf
    | pl4te => rwa [frameOf_setTable hu (by simp)] at hf
    | directory i => rwa [frameOf_setTable hu (by simp)] at hf
    | table t' => rwa [frameOf_setTable hu (by simp)] at hf
  have hkeep : ∀ o f, vs.frameOf o = some f →
      f ∉ ((List.range size).flatMap fun i => (vs.pt t (off + i)).frame.toList) →
      (vs.setTable t pdt table).frameOf o = some f := by
    intro o f hf hnot
    cases o with
    | page p =>
        simp only [frameOf, hentry] at hf ⊢
        split_ifs with hp
        · -- the frame of a page of the range is given back
          simp only [Run.mem_iff] at hp
          apply absurd _ hnot
          rw [hmem]
          use p - (t * 0x200 + off), by lia
          rw [show t * 0x200 + (off + (p - (t * 0x200 + off))) = p by lia]
          apply hf
        · apply hf
    | cr3 => rwa [frameOf_setTable hu (by simp)]
    | pl4te => rwa [frameOf_setTable hu (by simp)]
    | directory i => rwa [frameOf_setTable hu (by simp)]
    | table t' => rwa [frameOf_setTable hu (by simp)]
  have hused : ∀ f ∈ ((List.range size).flatMap fun i => (vs.pt t (off + i)).frame.toList),
      f ∈ vs.pm.used := by
    intro f hf
    obtain ⟨i, -, hfi⟩ := (hmem f).mp hf
    apply h.owned.used _ f hfi
  refine ⟨pdt, table, _, _, heq, releaseFrames_eq _ hnd hused, rfl, ?_⟩
  constructor
  · constructor
    · intro t' ht'
      have ht'' : (vs.setTable t pdt table).hasTable t' = true := ht'
      rw [hasTable_setTable hu] at ht''
      by_cases htt : t' = t
      · subst htt
        simp only [Vspace.setTable, Function.update_self]
        apply hw
      · simp only [Vspace.setTable, Function.update_of_ne htt]
        apply h.table t' ht''
    · intro p
      have hord : ((vs.setTable t pdt table).entry p).InOrder := by
        rw [hentry]
        split_ifs
        · apply (h.entry p).inOrder_released
        · apply h.entry p
      apply hord
    · intro t' ht'
      have ht'' : (vs.setTable t pdt table).bypassed t' = true := ht'
      rw [bypassed_setTable hu] at ht''
      have hhas : (vs.setTable t pdt table).hasTable t' = vs.hasTable t' :=
        hasTable_setTable hu t'
      rw [h.bypass t' ht''] at hhas
      apply hhas
    · apply h.owned.sdiff hsub
      intro f hf
      rw [List.mem_toFinset, hmem] at hf
      obtain ⟨i, hi, hfi⟩ := hf
      refine ⟨_, hfi, ?_⟩
      have hnone : (vs.setTable t pdt table).frameOf (.page (t * 0x200 + (off + i))) = none := by
        simp only [frameOf, hentry]
        rw [if_pos, (h.entry _).frame_released]
        simp only [Run.mem_iff]
        lia
      apply hnone
  · funext t'
    have hby : (vs.setTable t pdt table).bypassed t' = vs.bypassed t' := bypassed_setTable hu t'
    apply hby
  · rfl
  · rfl
  · apply hentry
  · have hin : ∀ f ∈ ((List.range size).flatMap fun i => (vs.pt t (off + i)).frame.toList).toFinset,
        ∃ i < size, vs.frameOf (.page (t * 0x200 + (off + i))) = some f := by
      intro f hf
      rw [List.mem_toFinset, hmem] at hf
      apply hf
    refine Balanced.sdiff h.owned (fun o f hf => hsub o f hf) ?_ ?_ rfl ?_ rfl
    · intro f hf
      obtain ⟨i, -, hfi⟩ := hin f hf
      exact ⟨_, hfi⟩
    · intro o f hf hnot
      rw [List.mem_toFinset] at hnot
      exact hkeep o f hf hnot
    · rw [List.toFinset_card_of_nodup hnd]
      rfl

/-- What a debug build asserts of a release from the page `q` on: the free run that ends there
does not have three pages. -/
def ReleaseSafe (vs : Vspace) (q : ℕ) : Prop :=
  ∀ x, MaximalRun (vs.view (q / 0x200)) x → x.self + x.size = q % 0x200 → x.size ≠ 3

/-- The loop of `safe_release`, from the page `q` on with `m` pages to go. -/
theorem releaseTables_eq (pageCount : ℕ) :
    ∀ (tables t q count m : ℕ) (vs : Vspace), Inv debug vs →
      (debug = true → vs.locked = true) → count + m = pageCount →
      (m ≠ 0 → t = q / 0x200 ∧ tables + t = 0x40000 ∧ q ≠ 0) → q + m ≤ 0x8000000 →
      (∀ p ∈ Run.mk q m, (vs.entry p).isFree = false) →
      (debug = true → m ≠ 0 → ReleaseSafe vs q) →
      ∃ vs', releaseTables debug pageCount tables t (q * 0x1000) count vs = .ok (pageCount, vs') ∧
        Released debug vs vs' ⟨q, m⟩
  | 0, t, q, count, m, vs, h, hlocked, hcount, htable, hle, hnf, hsafe => by
      have hm : m = 0 := by
        by_contra hne
        have := htable hne
        lia
      subst hm
      refine ⟨vs, ?_, Released.refl h q⟩
      rw [releaseTables, show count = pageCount by omega]
      rfl
  | tables + 1, t, q, count, m, vs, h, hlocked, hcount, htable, hle, hnf, hsafe => by
      rw [releaseTables]
      by_cases hm : m = 0
      · subst hm
        refine ⟨vs, ?_, Released.refl h q⟩
        rw [if_neg (by omega), show count = pageCount by omega]
        rfl
      obtain ⟨rfl, htab, hq0⟩ := htable hm
      have hhas : vs.hasTable (q / 0x200) = true := by
        apply hasTable_of_not_free
        apply hnf
        simp only [Run.mem_iff]
        lia
      have hboth := hhas
      rw [hasTable, Bool.and_eq_true] at hboth
      have hb : ¬ ((vs.pdt (q / 0x200)).bypass = true ∨
          (vs.pdt (q / 0x200)).present = false) := by
        rintro (hb | hb)
        · have := h.bypass (q / 0x200) (by rw [bypassed, hboth.1, hb, Bool.and_self])
          rw [hhas] at this
          cases this
        · rw [hboth.2] at hb
          cases hb
      rw [if_pos (by lia), if_neg (by rw [hboth.1]; simp), if_neg hb]
      have hoff : q * 0x1000 / 0x1000 % 0x200 = q % 0x200 := by lia
      have hsub : pageCount - count = m := by lia
      have hstart : q / 0x200 * 0x200 + q % 0x200 = q := by lia
      obtain ⟨n, hn⟩ : ∃ n, min m (0x200 - q % 0x200) = n := ⟨_, rfl⟩
      have hn0 : n ≠ 0 := by lia
      have hle₁ : q % 0x200 + n ≤ 0x200 := by lia
      have hnf₁ : ∀ p ∈ Run.mk (q / 0x200 * 0x200 + q % 0x200) n, (vs.entry p).isFree = false := by
        intro p hp
        apply hnf
        simp only [Run.mem_iff] at hp ⊢
        lia
      obtain ⟨pdt, table, frames, vs₁, heq₁, hframes, -, hrel⟩ := releaseTable_eq h hhas hoff hn0
        hle₁ hnf₁ hlocked (by lia) (fun hd => hsafe hd hm)
      rw [hstart] at hrel
      simp only [hoff, hsub, hn]
      rw [heq₁]
      simp only [Except.ok_bind, hframes]
      have haddr : q * 0x1000 + 0x1000 * n = (q + n) * 0x1000 := by ring
      have hlocked₂ : debug = true → vs₁.locked = true := by
        rw [hrel.locked]
        apply hlocked
      have hcount₂ : count + n + (m - n) = pageCount := by lia
      have htable₂ : m - n ≠ 0 → q / 0x200 + 1 = (q + n) / 0x200 ∧
          tables + (q / 0x200 + 1) = 0x40000 ∧ q + n ≠ 0 := by lia
      have hnf₂ : ∀ p ∈ Run.mk (q + n) (m - n), (vs₁.entry p).isFree = false := by
        intro p hp
        rw [hrel.entry, if_neg]
        · apply hnf
          simp only [Run.mem_iff] at hp ⊢
          lia
        · simp only [Run.mem_iff] at hp ⊢
          lia
      -- no free run ends at the first page of a table
      have hsafe₂ : debug = true → m - n ≠ 0 → ReleaseSafe vs₁ (q + n) := by
        intro _ hne x hx hend
        have := hx.pos
        lia
      obtain ⟨vs₂, heq₂, hrel₂⟩ := releaseTables_eq pageCount tables (q / 0x200 + 1) (q + n)
        (count + n) (m - n) vs₁ hrel.inv hlocked₂ hcount₂ htable₂ (by lia) hnf₂ hsafe₂
      rw [haddr, heq₂]
      refine ⟨vs₂, rfl, ?_⟩
      have := hrel.trans hrel₂
      rwa [show n + (m - n) = m by lia] at this

/-- `safe_release` releases pages none of which is free. -/
theorem safeRelease_eq (h : Inv debug vs) {q n : ℕ} (hq : q ≠ 0) (hn : n ≠ 0)
    (hle : q + n ≤ 0x8000000) (hlocked : debug = true → vs.locked = true)
    (hnf : ∀ p ∈ Run.mk q n, (vs.entry p).isFree = false)
    (hsafe : debug = true → ReleaseSafe vs q) :
  ∃ vs', safeRelease debug vs (q * 0x1000) n = .ok (true, vs') ∧ Released debug vs vs' ⟨q, n⟩
  := by
  have ht : q * 0x1000 / 0x200000 = q / 0x200 := by lia
  have hcover : covers (q * 0x1000) = true := by
    rw [covers, decide_eq_true_eq]
    lia
  obtain ⟨vs', heq, hrel⟩ := releaseTables_eq n (0x40000 - q / 0x200) (q / 0x200) q 0 n vs h hlocked (by lia) (by lia) hle hnf (fun hd _ => hsafe hd)
  refine ⟨vs', ?_, hrel⟩
  rw [safeRelease, assert_eq_ok hlocked, assert_eq_ok (fun _ => by lia),
    assert_eq_ok (fun _ => by lia)]
  simp only [Except.ok_bind, hcover, ht]
  rw [if_neg (by simp), heq]
  simp only [Except.ok_bind]
  rfl

end Vspace

end UOS
