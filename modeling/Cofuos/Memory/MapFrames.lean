import Cofuos.Lib.Refinement
import Cofuos.Memory.MapView

/-!
# Frames behind windows

What is written through a view goes to its frame, and a view shows what has been written to its frame
by any view, if no window is taken between the moment when another view clears its entry and that when
it makes the processor forget the translation: the windows are then the frames themselves. A view that
takes a window in between writes to the frame of the view that has left it.
-/

namespace UOS

namespace MapView

namespace Frames

variable {τ : Type} [DecidableEq τ] {r : Frames τ} {v : τ} {f : BitVec 64} {offset : BitVec 12} {b : UInt8}

theorem use_store (h : r.frame v = some f) (offset : BitVec 12) (b : UInt8) :
  r.use (.store v offset b) =
    some { r with mem := Function.update r.mem f (Function.update (r.mem f) offset b) }
  := by
  simp only [use, h]

theorem use_load (h : r.frame v = some f) (hb : r.mem f offset = b) :
  r.use (.load v offset b) = some r
  := by
  simp only [use, h, hb, if_true]

end Frames

namespace Windows

variable {τ : Type} [DecidableEq τ] {s s' : Windows τ} {v : τ} {p : Pc}

/-! ### What the processor remembers -/

omit [DecidableEq τ] in
theorem leaving_iff {t : Windows τ} {i : ℕ} (hpc : ∀ u, u ≠ v → t.pc u = s.pc u)
    (hs : ∀ next, s.pc v ≠ .flush i next) (ht : ∀ next, t.pc v ≠ .flush i next) :
  t.Leaving i ↔ s.Leaving i
  := by
  constructor
  · rintro ⟨u, next, hu⟩
    have huv : u ≠ v := by
      intro heq
      rw [heq] at hu
      exact ht next hu
    exact ⟨u, next, (hpc u huv).symm.trans hu⟩
  · rintro ⟨u, next, hu⟩
    have huv : u ≠ v := by
      intro heq
      rw [heq] at hu
      exact hs next hu
    exact ⟨u, next, (hpc u huv).trans hu⟩

omit [DecidableEq τ] in
/-- One window changes. -/
theorem Coherent.change (h : s.Coherent) {t : Windows τ} {i : ℕ}
    (htlb : ∀ j, j ≠ i → t.tlb j = s.tlb j) (htable : ∀ j, j ≠ i → t.table j = s.table j)
    (hleaving : ∀ j, j ≠ i → (t.Leaving j ↔ s.Leaving j))
    (hfound : ∀ f, t.tlb i = some f →
      isPresent (t.table i) = true ∧ f = translationOf (t.table i) ∨ t.Leaving i)
    (hclear : t.Leaving i → isPresent (t.table i) = false) :
  t.Coherent
  := by
  constructor
  · intro j f hf
    by_cases hj : j = i
    · rw [hj] at hf ⊢
      exact hfound f hf
    · rw [htlb j hj] at hf
      rw [htable j hj, hleaving j hj]
      exact h.tlb j f hf
  · intro j hl
    by_cases hj : j = i
    · rw [hj] at hl ⊢
      exact hclear hl
    · rw [htable j hj]
      exact h.leaving j ((hleaving j hj).mp hl)

theorem Inert.coherent (hs : s.Inert s') (h : s.Coherent) : s'.Coherent := by
  cases hs with
  | same => exact h
  | bugcheck b => exact ⟨h.tlb, h.leaving⟩
  | @goto v p hpc hp =>
      have hleaving : ∀ i, (s.goto v p).Leaving i ↔ s.Leaving i := by
        intro i
        apply leaving_iff (v := v)
        · exact fun u hu => goto_pc_of_ne s p hu
        · exact hpc i
        · simpa only [goto_pc] using hp i
      constructor
      · intro i f hf
        rw [hleaving i]
        exact h.tlb i f hf
      · intro i hl
        exact h.leaving i ((hleaving i).mp hl)

/-- A view does not take a window that another one is leaving. -/
def Undisturbed (s : Windows τ) : Action τ → Prop
  | .access v => ∀ a i originValue, s.pc v = .claim a i originValue → ¬ s.Leaving i
  | _ => True

omit [DecidableEq τ] in
theorem setTlb_tlb (s : Windows τ) (i : ℕ) (f : Option Translation) : (s.setTlb i f).tlb i = f := by
  simp only [setTlb, Function.update_self]

omit [DecidableEq τ] in
theorem setTlb_tlb_of_ne (s : Windows τ) (f : Option Translation) {i j : ℕ} (h : j ≠ i) :
  (s.setTlb i f).tlb j = s.tlb j
  := by
  simp only [setTlb, Function.update_of_ne h]

omit [DecidableEq τ] in
/-- The processor remembers a translation that is right. -/
theorem Coherent.setTlb (h : s.Coherent) {i : ℕ} {f : Option Translation}
    (hf : ∀ g, f = some g → isPresent (s.table i) = true ∧ g = translationOf (s.table i)) :
  (s.setTlb i f).Coherent
  := by
  apply h.change (i := i)
  · exact fun j hj => setTlb_tlb_of_ne s f hj
  · exact fun _ _ => rfl
  · exact fun _ _ => Iff.rfl
  · intro g hg
    rw [setTlb_tlb] at hg
    exact .inl (hf g hg)
  · exact h.leaving i

theorem Coherent.access (h : s.Coherent) {l : List (Use τ)} (hs : s.Access v l s')
    (ha : s.Undisturbed (.access v)) :
  s'.Coherent
  := by
  cases hs with
  | inert hs => exact hs.coherent h
  | @leave i next hpc hview howns =>
      apply h.change (i := i)
      · exact fun _ _ => rfl
      · exact fun j hj => setEntry_table_of_ne s 0 hj
      · intro j hj
        apply leaving_iff (v := v)
        · exact fun u hu => goto_pc_of_ne _ _ hu
        · simp [hpc]
        · simpa [goto_pc] using fun heq => absurd heq.symm hj
      · exact fun _ _ => .inr ⟨v, next, goto_pc _ _ _⟩
      · intro _
        exact congrArg isPresent (setEntry_table s i 0)
  | @left i next hpc =>
      have hout : ∀ j n, afterUnmap next ≠ .flush j n := by
        intro j n
        cases next with
        | none => simp [afterUnmap]
        | some a => simp [afterUnmap]
      apply h.change (i := i)
      · exact fun j hj => setTlb_tlb_of_ne s none hj
      · exact fun _ _ => rfl
      · intro j hj
        apply leaving_iff (v := v)
        · exact fun u hu => goto_pc_of_ne _ _ hu
        · simpa [hpc] using fun heq => absurd heq.symm hj
        · simpa only [goto_pc] using hout j
      · intro f hf
        have hnone : (s.setTlb i none).tlb i = some f := hf
        rw [setTlb_tlb] at hnone
        cases hnone
      · rintro ⟨u, n, hu⟩
        apply h.leaving i
        by_cases huv : u = v
        · exact ⟨v, next, hpc⟩
        · rw [goto_pc_of_ne _ _ huv] at hu
          exact ⟨u, n, hu⟩
  | @take a i originValue hpc hview hok hclear =>
      have hnot := ha a i originValue hpc
      have hleaving : ∀ j, (((s.setEntry i (a.attrib ||| a.pa ||| 1)).setView v (windowAt i)).goto v
          .out).Leaving j ↔ s.Leaving j := by
        intro j
        apply leaving_iff (v := v)
        · exact fun u hu => goto_pc_of_ne _ _ hu
        · simp [hpc]
        · simp [goto_pc]
      apply h.change (i := i)
      · exact fun _ _ => rfl
      · exact fun j hj => setEntry_table_of_ne s _ hj
      · exact fun j _ => hleaving j
      · intro f hf
        obtain ⟨hpresent, _⟩ | hl := h.tlb i f hf
        · rw [hclear] at hpresent
          cases hpresent
        · exact absurd hl hnot
      · intro hl
        exact absurd ((hleaving i).mp hl) hnot

/-! ### What views show -/

omit [DecidableEq τ] in
theorem frame_of_owns (h : s.owns v = true) {i : ℕ} (hview : s.view v = windowAt i) :
  s.frame v = some (frameOf (s.table i))
  := by
  rw [frame, if_pos h, hview, indexOf_windowAt]

omit [DecidableEq τ] in
theorem frame_eq_none (h : s.owns v = false) : s.frame v = none := by
  rw [frame, h]
  rfl

/-- A view that has taken a window shows its frame. -/
theorem frame_of_take {a : Args} {i : ℕ} (hok : attribOk a.attrib = true) {t : Windows τ}
    (ht : t = ((s.setEntry i (a.attrib ||| a.pa ||| 1)).setView v (windowAt i)).goto v .out) :
  t.view v = windowAt i ∧ t.usable v = true ∧ t.frame v = some (frameOf a.pa)
  := by
  have hview : t.view v = windowAt i := by
    rw [ht]
    exact setView_view (s.setEntry i _) v (windowAt i)
  have hpc : t.pc v = .out := by
    rw [ht, goto_pc]
  have husable : t.usable v = true := by
    rw [usable, hpc, hview]
    simpa using windowAt_ne_zero i
  have hentry : t.table i = a.attrib ||| a.pa ||| 1 := by
    rw [ht]
    exact setEntry_table s i _
  refine ⟨hview, husable, ?_⟩
  rw [frame_of_owns (owns_of_usable husable) hview, hentry, frameOf_entry hok]

theorem Inert.shows (hs : s.Inert s') : s'.shows = s.shows := by
  cases hs with
  | same => rfl
  | bugcheck b => rfl
  | @goto v p hpc hp =>
      have hframe : (s.goto v p).frame = s.frame := by
        funext u
        rw [frame, frame, goto_owns hpc hp]
        rfl
      rw [Windows.shows, Windows.shows, hframe]
      rfl

omit [DecidableEq τ] in
/-- Another view shows what it did, as its window is another one. -/
theorem frame_of_ne {t : Windows τ} (h : s.Inv) {i : ℕ} {u : τ} (hpc : t.pc u = s.pc u)
    (hview : t.view u = s.view u) (htable : ∀ j, j ≠ i → t.table j = s.table j)
    (hi : s.owns u = true → s.view u ≠ windowAt i) :
  t.frame u = s.frame u
  := by
  have howns : t.owns u = s.owns u := by
    rw [owns, owns, hpc, hview]
  cases hu : s.owns u with
  | false => rw [frame_eq_none hu, frame_eq_none (howns.trans hu)]
  | true =>
      obtain ⟨j, _, hj⟩ := h.place u (view_of_owns hu)
      have hji : j ≠ i := by
        intro heq
        rw [heq] at hj
        exact hi hu hj
      rw [frame_of_owns hu hj, frame_of_owns (howns.trans hu) (hview.trans hj), htable j hji]

/-- What an access does is what it shows. -/
theorem Access.shows (h : s.Inv) {l : List (Use τ)} (hs : s.Access v l s') :
  (frames τ).exec s.shows l = some s'.shows
  := by
  cases hs with
  | inert hs =>
      rw [hs.shows]
      rfl
  | @leave i next hpc hview howns =>
      have hframe := frame_of_owns howns hview
      have hself : ((s.setEntry i 0).goto v (.flush i next)).owns v = false := by
        rw [owns, goto_pc]
      have hnew : ((s.setEntry i 0).goto v (.flush i next)).frame = Function.update s.frame v none := by
        funext u
        by_cases huv : u = v
        · rw [huv, Function.update_self, frame_eq_none hself]
        · rw [Function.update_of_ne huv]
          apply frame_of_ne h (i := i)
          · exact goto_pc_of_ne (s.setEntry i 0) _ huv
          · rfl
          · exact fun j hj => setEntry_table_of_ne s 0 hj
          · intro hu hw
            exact huv (h.unique u v hu howns (hw.trans hview.symm))
      rw [Machine.exec_singleton]
      change (if s.frame v = none then none else some _) = _
      rw [hframe, if_neg (by simp), Windows.shows, Windows.shows, hnew]
      rfl
  | @left i next hpc =>
      have hnot : s.owns v = false := by
        rw [owns, hpc]
      obtain ⟨t, ht⟩ : ∃ t, t = ((s.setTlb i none).setView v 0).goto v (afterUnmap next) := ⟨_, rfl⟩
      have hself : t.owns v = false := by
        rw [Bool.eq_false_iff]
        intro ho
        apply view_of_owns ho
        rw [ht]
        exact setView_view (s.setTlb i none) v 0
      have hnew : t.frame = s.frame := by
        funext u
        by_cases huv : u = v
        · rw [huv, frame_eq_none hnot, frame_eq_none hself]
        · have hpcu : t.pc u = s.pc u := by
            rw [ht, goto_pc_of_ne _ _ huv]
            rfl
          have hviewu : t.view u = s.view u := by
            rw [ht]
            exact setView_view_of_ne (s.setTlb i none) 0 huv
          have htable : t.table = s.table := by
            rw [ht]
            rfl
          rw [frame, frame, owns, owns, hpcu, hviewu, htable]
      rw [← ht, Windows.shows, Windows.shows, hnew, ht]
      rfl
  | @take a i originValue hpc hview hok hclear =>
      obtain ⟨t, ht⟩ : ∃ t, t = ((s.setEntry i (a.attrib ||| a.pa ||| 1)).setView v (windowAt i)).goto v
          .out := ⟨_, rfl⟩
      have hnot : s.owns v = false := by
        rw [Bool.eq_false_iff]
        exact fun ho => view_of_owns ho hview
      obtain ⟨_, _, hframe⟩ := frame_of_take hok ht
      have hnew : t.frame = Function.update s.frame v (some (frameOf a.pa)) := by
        funext u
        by_cases huv : u = v
        · rw [huv, Function.update_self, hframe]
        · rw [Function.update_of_ne huv]
          apply frame_of_ne h (i := i)
          · rw [ht, goto_pc_of_ne _ _ huv]
            rfl
          · rw [ht]
            exact setView_view_of_ne (s.setEntry i _) (windowAt i) huv
          · intro j hj
            rw [ht]
            exact setEntry_table_of_ne s _ hj
          · intro hu hw
            have hpresent := (h.owned i).mpr ⟨u, hu, hw⟩
            rw [hclear] at hpresent
            cases hpresent
      rw [← ht, Machine.exec_singleton]
      change (if s.frame v = none then some _ else none) = _
      rw [frame_eq_none hnot, if_pos rfl, Windows.shows, Windows.shows, hnew, ht]
      rfl

omit [DecidableEq τ] in
/-- The processor finds the frame that a view shows. -/
theorem Coherent.found (hc : s.Coherent) (h : s.Inv) (hv : s.usable v = true) :
  ∃ i t, indexOf (s.view v) = i ∧ isPresent (s.table i) = true ∧ s.translate i = some t ∧
    t = translationOf (s.table i) ∧ s.frame v = some t.frame
  := by
  obtain ⟨i, t, hview, hindex, hpresent, hfound, ht⟩ := h.translate (owns_of_usable hv)
  have hright : t = translationOf (s.table i) := by
    cases htlb : s.tlb i with
    | none => exact ht htlb
    | some g =>
        rw [translate, htlb, Option.some.injEq] at hfound
        obtain ⟨_, hg⟩ | hl := hc.tlb i g htlb
        · rw [← hfound, hg]
        · rw [hc.leaving i hl] at hpresent
          cases hpresent
  refine ⟨i, t, hindex, hpresent, hfound, hright, ?_⟩
  rw [frame_of_owns (owns_of_usable hv) hview, hright]
  rfl

omit [DecidableEq τ] in
/-- The processor marks an entry: the translation is the same. -/
theorem Coherent.mark (hc : s.Coherent) {i : ℕ} (hi : isPresent (s.table i) = true) {x : BitVec 64}
    (hx : translationOf x = ⟨0, false⟩) :
  (s.setEntry i (s.table i ||| x)).Coherent ∧ (s.setEntry i (s.table i ||| x)).shows = s.shows
  := by
  have htranslation : ∀ j, translationOf ((s.setEntry i (s.table i ||| x)).table j) =
      translationOf (s.table j) := by
    intro j
    by_cases hj : j = i
    · rw [hj, setEntry_table, translationOf_or, hx]
      simp [translationOf]
    · rw [setEntry_table_of_ne s _ hj]
  constructor
  · apply hc.change (i := i)
    · exact fun _ _ => rfl
    · exact fun j hj => setEntry_table_of_ne s _ hj
    · exact fun _ _ => Iff.rfl
    · intro f hf
      rw [htranslation i, setEntry_table, isPresent_or, hi]
      obtain ⟨_, hright⟩ | hl := hc.tlb i f hf
      · exact .inl ⟨rfl, hright⟩
      · exact .inr hl
    · intro hl
      have hclear := hc.leaving i hl
      rw [hi] at hclear
      cases hclear
  · have hsame : (s.setEntry i (s.table i ||| x)).frame = s.frame := by
      funext u
      have hframe := congrArg Translation.frame (htranslation (indexOf (s.view u)))
      simp only [translationOf] at hframe
      rw [frame, frame, ← hframe]
      rfl
    rw [Windows.shows, Windows.shows, hsame]
    rfl

/-- What an action does is what it shows. -/
theorem Coherent.step (hc : s.Coherent) (h : s.Inv) {a : Action τ} (ha : s.Undisturbed a)
    (hs : s.step a = some s') :
  s'.Coherent ∧ (frames τ).exec s.shows (s.visible a) = some s'.shows
  := by
  unfold Windows.step at hs
  split_ifs at hs
  cases a with
  | map v a =>
      cases hpc : s.pc v with
      | out =>
          simp only [hpc, Option.some.injEq] at hs
          rw [← hs, (map_inert hpc a).shows]
          exact ⟨(map_inert hpc a).coherent hc, rfl⟩
      | _ => simp only [hpc, reduceCtorEq] at hs
  | unmap v =>
      cases hpc : s.pc v with
      | out =>
          simp only [hpc, Option.some.injEq] at hs
          rw [← hs, (unmap_inert hpc).shows]
          exact ⟨(unmap_inert hpc).coherent hc, rfl⟩
      | _ => simp only [hpc, reduceCtorEq] at hs
  | access v =>
      have haccess := (h.access hs).2
      exact ⟨hc.access haccess ha, haccess.shows h⟩
  | store v offset b =>
      simp only at hs
      split_ifs at hs with hv
      obtain ⟨i, t, hindex, hpresent, hfound, hright, hframe⟩ := hc.found h hv
      have hmay : s.writable v = t.write := by
        rw [writable, hindex, hfound]
      simp only [hindex, hfound] at hs
      simp only [visible, hmay]
      split_ifs at hs ⊢ with hwrite
      · rw [Option.some.injEq] at hs
        rw [← hs]
        have hset : (s.setTlb i (some t)).Coherent := by
          apply hc.setTlb
          intro g hg
          cases hg
          exact ⟨hpresent, hright⟩
        refine ⟨⟨hset.tlb, hset.leaving⟩, ?_⟩
        rw [Machine.exec_singleton]
        exact Frames.use_store hframe offset b
      · rw [Option.some.injEq] at hs
        rw [← hs]
        exact ⟨⟨hc.tlb, hc.leaving⟩, rfl⟩
  | load v offset b =>
      simp only at hs
      split_ifs at hs with hv
      obtain ⟨i, f, hindex, hpresent, hfound, hright, hframe⟩ := hc.found h hv
      simp only [hindex, hfound] at hs
      split_ifs at hs with hmem
      rw [Option.some.injEq] at hs
      rw [← hs]
      constructor
      · apply hc.setTlb
        intro g hg
        cases hg
        exact ⟨hpresent, hright⟩
      · rw [visible, Machine.exec_singleton]
        exact Frames.use_load hframe hmem
  | fill i =>
      simp only at hs
      split_ifs at hs with hi
      rw [Option.some.injEq] at hs
      rw [← hs]
      refine ⟨hc.setTlb ?_, rfl⟩
      intro g hg
      cases hg
      exact ⟨hi, rfl⟩
  | evict i =>
      simp only [Option.some.injEq] at hs
      rw [← hs]
      refine ⟨hc.setTlb ?_, rfl⟩
      intro g hg
      cases hg
  | mark i dirty =>
      simp only at hs
      split_ifs at hs with hi hdirty
      · rw [Option.some.injEq] at hs
        obtain ⟨hcoherent, hshows⟩ := hc.mark hi (show translationOf 0x60 = ⟨0, false⟩ from rfl)
        rw [← hs]
        exact ⟨hcoherent, congrArg some hshows.symm⟩
      · rw [Option.some.injEq] at hs
        obtain ⟨hcoherent, hshows⟩ := hc.mark hi (show translationOf 0x20 = ⟨0, false⟩ from rfl)
        rw [← hs]
        exact ⟨hcoherent, congrArg some hshows.symm⟩

theorem coherent_of_start (hs : (machine τ).Start s) : s.Coherent ∧ (frames τ).Start s.shows := by
  obtain ⟨_, htlb, hview, hpc, _⟩ := hs
  refine ⟨⟨?_, ?_⟩, ?_⟩
  · intro i f hf
    rw [htlb i] at hf
    cases hf
  · rintro i ⟨v, next, hv⟩
    rw [hpc v] at hv
    cases hv
  · intro v
    apply frame_eq_none
    rw [owns, hpc v, hview v]
    rfl

theorem refines :
  (machine τ).Refines (frames τ) Undisturbed visible fun s r => s.Inv ∧ s.Coherent ∧ r = s.shows
  := by
  rintro s a s' r ⟨h, hc, hr⟩ ha hs
  obtain ⟨hcoherent, hexec⟩ := hc.step h ha hs
  rw [hr]
  exact ⟨s'.shows, hexec, h.step hs, hcoherent, rfl⟩

/-- If no view takes a window that another one is leaving, views show their frames. -/
theorem views_transparent (hs : (machine τ).Start s) {l : List (Action τ)}
    (ha : (machine τ).Follows Undisturbed s l) (hl : (machine τ).exec s l = some s') :
  (frames τ).Start s.shows ∧ (frames τ).exec s.shows ((machine τ).trace visible s l) = some s'.shows
  := by
  obtain ⟨hc, hstart⟩ := coherent_of_start hs
  obtain ⟨r, hr, _, _, hshows⟩ := refines.exec ⟨inv_of_start hs, hc, rfl⟩ ha hl
  rw [hr, hshows]
  exact ⟨hstart, rfl⟩

/-- No view is at `invlpg` when another one takes a window. -/
def calm (s : Windows Bool) : Action Bool → Bool
  | .access v => match s.pc v, s.pc !v with
      | .claim _ _ _, .flush _ _ => false
      | _, _ => true
  | _ => true

theorem undisturbed_of_calm (s : Windows Bool) (a : Action Bool) (h : s.calm a = true) :
  s.Undisturbed a
  := by
  cases a with
  | access v =>
      rintro a i originValue hpc ⟨u, next, hu⟩
      have huv : u = !v := by
        rw [Bool.eq_not]
        rintro rfl
        rw [hpc] at hu
        cases hu
      rw [huv] at hu
      simp only [calm, hpc, hu, Bool.false_eq_true] at h
  | _ => trivial

/-- The table is clear, and no view has a window. -/
def initial : Windows Bool :=
  ⟨fun _ => 0, fun _ => none, fun _ _ => 0, fun _ => 0, fun _ => .out, none⟩

theorem start_initial : (machine Bool).Start initial :=
  ⟨fun _ => rfl, fun _ => rfl, fun _ => rfl, fun _ => rfl, rfl⟩

/-- What is written through one view is read through another view of the frame. The first view then
leaves its window, takes it again for another frame, and is written there. -/
def twoViews : List (Action Bool) :=
  [.map true ⟨0x1000, usualAttrib⟩, .access true, .access true, .store true 0 7,
    .map false ⟨0x1000, usualAttrib⟩, .access false, .access false, .access false, .load false 0 7,
    .unmap true, .access true, .access true, .map true ⟨0x2000, usualAttrib⟩, .access true,
    .access true, .store true 0 5, .load false 0 7]

theorem views_transparent_two :
  ∃ s : Windows Bool, (machine Bool).exec initial twoViews = some s ∧
    s.view true = windowAt 0 ∧ s.mem 0x1000 0 = 7 ∧ s.mem 0x2000 0 = 5 ∧
    (frames Bool).exec initial.shows [.map true 0x1000, .store true 0 7, .map false 0x1000,
      .load false 0 7, .unmap true, .map true 0x2000, .store true 0 5, .load false 0 7] = some s.shows
  := by
  have hexec : ((machine Bool).exec initial twoViews).any (fun s =>
      s.view true = windowAt 0 ∧ s.mem 0x1000 0 = 7 ∧ s.mem 0x2000 0 = 5) = true := by
    decide +kernel
  rw [Option.any_eq_true] at hexec
  obtain ⟨s, hs, hend⟩ := hexec
  obtain ⟨hview, hfirst, hsecond⟩ := of_decide_eq_true hend
  have hfollows : (machine Bool).Follows Undisturbed initial twoViews :=
    Machine.follows_of_checks undisturbed_of_calm (by decide +kernel)
  have htrace : (machine Bool).trace visible initial twoViews = [.map true 0x1000, .store true 0 7,
      .map false 0x1000, .load false 0 7, .unmap true, .map true 0x2000, .store true 0 5,
      .load false 0 7] := by
    decide +kernel
  have hshows := (views_transparent start_initial hfollows hs).2
  rw [htrace] at hshows
  exact ⟨s, hs, hview, hfirst, hsecond, hshows⟩

/-- A view that takes a window of which the processor remembers another frame, which may be written,
writes to that frame. -/
theorem view_stale (hs : (machine τ).Reachable Machine.anyStep s) (hbug : s.bug = none) {v : τ}
    {a : Args} {i : ℕ} {originValue : BitVec 64} {t : Translation}
    (hpc : s.pc v = .claim a i originValue) (hclear : isPresent (s.table i) = false)
    (htlb : s.tlb i = some t) (hwrite : t.write = true) (hf : frameOf a.pa ≠ t.frame)
    (offset : BitVec 12) (b : UInt8) :
  ∃ s', (machine τ).exec s [.access v, .store v offset b] = some s' ∧
    s'.frame v = some (frameOf a.pa) ∧ s'.mem t.frame offset = b ∧
    s'.mem (frameOf a.pa) = s.mem (frameOf a.pa)
  := by
  have h := reachable_inv hs
  obtain ⟨hview, hok, ⟨hpresent, _⟩ | ⟨_, _, haccess, hinv⟩⟩ := h.take hpc
  · rw [hclear] at hpresent
    cases hpresent
  obtain ⟨s₁, hs₁⟩ : ∃ s₁, s₁ = ((s.setEntry i (a.attrib ||| a.pa ||| 1)).setView v (windowAt i)).goto v
      .out := ⟨_, rfl⟩
  rw [← hs₁] at haccess
  obtain ⟨hview₁, husable, hframe⟩ := frame_of_take hok hs₁
  have hbug₁ : s₁.bug = none := by
    rw [hs₁]
    exact hbug
  have htlb₁ : s₁.tlb i = some t := by
    rw [hs₁]
    exact htlb
  have hmem₁ : s₁.mem = s.mem := by
    rw [hs₁]
    rfl
  have hfound : s₁.translate i = some t := by
    rw [translate, htlb₁]
  have hstep : (machine τ).step s (.access v) = some s₁ := by
    change Windows.step s (.access v) = some s₁
    unfold Windows.step
    simp only [hbug, Option.isSome_none, Bool.false_eq_true, if_false, haccess]
  have hstore : (machine τ).step s₁ (.store v offset b) =
      some ((s₁.setTlb i (some t)).poke t.frame offset b) := by
    change Windows.step s₁ (.store v offset b) = some _
    unfold Windows.step
    simp only [hbug₁, Option.isSome_none, Bool.false_eq_true, if_false, husable, if_true, hview₁,
      indexOf_windowAt, hfound, hwrite]
  refine ⟨(s₁.setTlb i (some t)).poke t.frame offset b, ?_, hframe, ?_, ?_⟩
  · rw [Machine.exec_cons hstep, Machine.exec_singleton, hstore]
  · simp only [poke, Function.update_self]
  · simp only [poke, Function.update_of_ne hf]
    exact congrFun hmem₁ _

/-- What the second view writes to the frame at 0x2000 goes to the one at 0x1000. -/
theorem view_stale_six :
  ∃ s s' : Windows Bool, (machine Bool).Reachable Machine.anyStep s ∧
    (machine Bool).exec s [.access false, .store false 0 6] = some s' ∧
    s'.frame false = some 0x2000 ∧ s'.mem 0x1000 0 = 6 ∧ s'.mem 0x2000 0 = 0
  := by
  have hexec : ∃ s, (machine Bool).exec initial [.map true ⟨0x1000, usualAttrib⟩, .access true,
      .access true, .fill 0, .unmap true, .access true, .map false ⟨0x2000, usualAttrib⟩,
      .access false] = some s ∧ s.bug = none ∧
      (∃ originValue, s.pc false = .claim ⟨0x2000, usualAttrib⟩ 0 originValue) ∧
      isPresent (s.table 0) = false ∧ s.tlb 0 = some ⟨0x1000, true⟩ ∧ s.mem 0x2000 0 = 0 :=
    ⟨_, rfl, rfl, ⟨_, rfl⟩, rfl, rfl, rfl⟩
  obtain ⟨s, hs, hbug, ⟨_, hpc⟩, hclear, htlb, hmem⟩ := hexec
  have hreachable := (Machine.Reachable.start start_initial).exec hs fun _ _ _ => trivial
  obtain ⟨s', hs', hframe, hwritten, hkept⟩ :=
    view_stale hreachable hbug hpc hclear htlb rfl (by decide) 0 6
  have hpa : frameOf (0x2000 : BitVec 64) = 0x2000 := rfl
  simp only [hpa] at hframe hkept
  refine ⟨s, s', hreachable, hs', hframe, hwritten, ?_⟩
  rw [hkept, hmem]

end Windows

end MapView

end UOS
