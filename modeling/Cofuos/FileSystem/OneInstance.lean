import Cofuos.FileSystem.InstanceTable

/-!
# Every file has one instance

We show that whatever is opened and given back, the table of a folder holds exactly the instances
of its children. So a name that is opened twice gives the same instance, and a folder outlives its
children.
-/

namespace UOS

open Exfat

namespace Instances

variable {debug : Bool} {s s' : Instances} {refs refs' : ℕ → ℕ} {i j p : ℕ}
  {f g : FileInstance} {str : Name} {mode : BitVec 8} {dir : List Record}

/-! ### The calls -/

/-- Instances that are still there are those of the same files. -/
structure Kept (s s' : Instances) : Prop where
  made : s.made ≤ s'.made
  same : ∀ j f', s'.inst j = some f' → j < s.made → ∃ f, s.inst j = some f ∧ Same f f'

theorem Kept.trans {s s' s'' : Instances} (h : Kept s s') (h' : Kept s' s'') : Kept s s'' := by
  constructor
  · apply h.made.trans h'.made
  · intro j f'' hj hlt
    obtain ⟨f', hf', hs'⟩ := h'.same j f'' hj (hlt.trans_le h.made)
    obtain ⟨f, hf, hs⟩ := h.same j f' hf' hlt
    exact ⟨f, hf, hs.trans hs'⟩

theorem kept_set (hi : s.inst i = some f) (hs : Same f g) : Kept s (s.set i g) := by
  constructor
  · apply le_rfl
  · intro j f' hj _
    by_cases hji : j = i
    · subst hji
      rw [set_inst_self] at hj
      cases hj
      exact ⟨f, hi, hs⟩
    · rw [set_inst_of_ne hji] at hj
      exact ⟨f', hj, Same.refl f'⟩

theorem kept_free : Kept s (s.free i) := by
  constructor
  · apply le_rfl
  · intro j f' hj _
    have hji : j ≠ i := by
      rintro rfl
      rw [free_inst_self] at hj
      cases hj
    rw [free_inst_of_ne hji] at hj
    exact ⟨f', hj, Same.refl f'⟩

/-- What a call returns with, for the references that have been given out after it. -/
structure Outcome (s s' : Instances) (refs' : ℕ → ℕ) : Prop where
  inv : Inv s' refs'
  positive : Positive s'
  kept : Kept s s'

/-- An instance without references is deleted, and so are the folders that have lost their last
reference with it. -/
theorem Inv.delete {n : ℕ} (h : Inv s refs) (hi : s.inst i = some f) (hzero : f.refCount = 0)
    (hpos : ∀ j g, s.inst j = some g → j ≠ i → 0 < g.refCount) (hn : i < n) :
  ∃ s', delete debug n s i = .ok s' ∧ Outcome s s' refs
  := by
  induction n generalizing s i f with
  | zero => lia
  | succ n ih =>
      have hcount := h.count i f hi
      rw [Instances.delete, deref_eq hi, Except.ok_bind, Fault.assert_eq_ok, Except.ok_bind,
        Fault.assert_eq_ok (fun _ => hzero), Except.ok_bind]
      · cases hparent : f.parent with
        | none =>
            -- the root always has a reference
            obtain rfl := h.orphan i f hi hparent
            have := h.root
            lia
        | some p =>
            obtain ⟨g, hp, -⟩ := h.listed i f p hi hparent
            have hfind := h.find_child hi hparent hp (nameEqual_refl f.name)
            obtain ⟨hinv, hgpos⟩ := h.remove hi hzero hparent hp
            have hpi : p < i := h.below i f p hi hparent
            dsimp only
            rw [deref_eq hp, Except.ok_bind, Fault.assert_eq_ok (fun _ => hfind), Except.ok_bind,
              if_neg (by rw [hfind]; apply Option.some_ne_none),
              Fault.assert_eq_ok (fun _ => hgpos.ne'), Except.ok_bind]
            obtain ⟨g', hg'⟩ : ∃ g' : FileInstance, g' = { g with
              fileTable := g.fileTable.erase (nameHash f.name).toNat (s.named f.name)
              refCount := g.refCount - 1 } := ⟨_, rfl⟩
            rw [← hg'] at hinv
            have hkept : Kept s ((s.set p g').free i) := by
              apply (kept_set hp _).trans kept_free
              rw [hg']
              exact ⟨rfl, rfl, rfl, rfl⟩
            have hp' : ((s.set p g').free i).inst p = some g' := by
              rw [free_inst_of_ne hpi.ne, set_inst_self]
            have hpos' : ∀ j f', ((s.set p g').free i).inst j = some f' → j ≠ p →
                0 < f'.refCount := by
              intro j f' hj hjp
              have hji : j ≠ i := by
                rintro rfl
                rw [free_inst_self] at hj
                cases hj
              rw [free_inst_of_ne hji, set_inst_of_ne hjp] at hj
              apply hpos j f' hj hji
            by_cases hlast : g.refCount - 1 = 0
            · rw [if_neg (not_not.2 hlast), ← hg']
              have hlast' : g'.refCount = 0 := by
                rw [hg', hlast]
              obtain ⟨s', hdel, hout⟩ := ih hinv hp' hlast' hpos' (by lia)
              exact ⟨s', hdel, hout.inv, hout.positive, hkept.trans hout.kept⟩
            · rw [if_pos hlast, ← hg']
              refine ⟨_, rfl, hinv, ?_, hkept⟩
              intro j f' hj
              by_cases hjp : j = p
              · subst hjp
                rw [hp'] at hj
                cases hj
                rw [hg']
                apply Nat.pos_of_ne_zero hlast
              · apply hpos' j f' hj hjp
      · intro _
        rw [(h.valid i f hi).count]
        lia

/-- Changing the count of an instance is changing the references to it. -/
theorem Inv.set_outcome {n : ℕ} (h : Inv s refs) (hpos : Positive s) (hi : s.inst i = some f)
    (hn : 0 < n) (heq : n + refs i = refs' i + f.refCount) (hroot : i = 0 → 0 < refs' i)
    (hrefs : ∀ j, j ≠ i → refs' j = refs j) :
  Outcome s (s.set i { f with refCount := n }) refs'
  := by
  have hcount := h.count i f hi
  refine ⟨?_, ?_, kept_set hi ⟨rfl, rfl, rfl, rfl⟩⟩
  · have hinv := h.set_refCount hi hroot
    rw [show refs' i + f.fileTable.entries.length = n by lia] at hinv
    have hupd : Function.update refs i (refs' i) = refs' := by
      ext1 j
      by_cases hji : j = i
      · rw [hji, Function.update_self]
      · rw [Function.update_of_ne hji, hrefs j hji]
    rw [hupd] at hinv
    apply hinv
  · intro j g hj
    by_cases hji : j = i
    · subst hji
      rw [set_inst_self] at hj
      cases hj
      apply hn
    · rw [set_inst_of_ne hji] at hj
      apply hpos j g hj

/-- A reference is given out. -/
theorem Inv.acquire (h : Inv s refs) (hpos : Positive s) (hi : s.inst i = some f)
    (heq : refs' i = refs i + 1) (hrefs : ∀ j, j ≠ i → refs' j = refs j) :
  ∃ s', s.acquire i = .ok s' ∧ Outcome s s' refs'
  := by
  refine ⟨_, by rw [Instances.acquire, deref_eq hi]; rfl, ?_⟩
  apply h.set_outcome hpos hi
  · apply Nat.succ_pos
  · lia
  · intro _
    omega
  · apply hrefs

/-- A reference is given back. -/
theorem Inv.relax (h : Inv s refs) (hpos : Positive s)
    (hi : (if i = 0 then 1 else 0) < refs i) :
  ∃ s', s.relax debug i = .ok s' ∧ Outcome s s' (Function.update refs i (refs i - 1))
  := by
  have hi₀ : 0 < refs i := by omega
  obtain ⟨f, hf⟩ := h.alive i hi₀
  have hcount := h.count i f hf
  have hroot : i = 0 → 0 < refs i - 1 := by
    intro h₀
    rw [if_pos h₀] at hi
    lia
  rw [Instances.relax, deref_eq hf, Except.ok_bind, Fault.assert_eq_ok, Except.ok_bind]
  · dsimp only
    by_cases hlast : f.refCount - 1 = 0
    · rw [if_neg (not_not.2 hlast)]
      have hinv := h.set_refCount hf hroot
      rw [show refs i - 1 + f.fileTable.entries.length = f.refCount - 1 by lia] at hinv
      have hpos' : ∀ j g, (s.set i { f with refCount := f.refCount - 1 }).inst j = some g → j ≠ i →
          0 < g.refCount := by
        intro j g hj hji
        rw [set_inst_of_ne hji] at hj
        apply hpos j g hj
      obtain ⟨s', hdel, hout⟩ : ∃ s', Instances.delete debug (i + 1) _ i = .ok s' ∧ Outcome _ s' _ :=
        hinv.delete set_inst_self hlast hpos' (Nat.lt_succ_self i)
      refine ⟨s', hdel, hout.inv, hout.positive, ?_⟩
      apply (kept_set hf _).trans hout.kept
      exact ⟨rfl, rfl, rfl, rfl⟩
    · rw [if_pos hlast]
      refine ⟨_, rfl, ?_⟩
      apply h.set_outcome hpos hf
      · apply Nat.pos_of_ne_zero hlast
      · rw [Function.update_self]
        lia
      · rw [Function.update_self]
        apply hroot
      · intro j hj
        apply Function.update_of_ne hj
  · intro _
    omega

/-- A name of a child opens the child, if the mode admits it. -/
theorem Inv.openChild_child (h : Inv s refs) (hpos : Positive s) (hi : s.inst i = some f)
    (hparent : f.parent = some p) (hname : nameEqual f.name str = true) :
  ∃ s', s.openChild p str mode dir = .ok (if allows mode f.isFolder = true then some i else none, s')
    ∧ Outcome s s' fun j => refs j +
      if (if allows mode f.isFolder = true then some i else none) = some j then 1 else 0
  := by
  obtain ⟨g, hp, -⟩ := h.listed i f p hi hparent
  rw [openChild, deref_eq hp, Except.ok_bind, h.find_child hi hparent hp hname]
  dsimp only
  rw [deref_eq hi, Except.ok_bind]
  by_cases hm : allows mode f.isFolder = true
  · rw [if_neg (by rw [hm]; decide), if_pos hm]
    obtain ⟨s', hacq, hout⟩ : ∃ s', s.acquire i = .ok s' ∧
        Outcome s s' fun j => refs j + if some i = some j then 1 else 0 := by
      apply h.acquire hpos hi
      · rw [if_pos rfl]
      · intro j hj
        rw [if_neg (by simpa using Ne.symm hj)]
        rfl
    rw [hacq]
    exact ⟨s', rfl, hout⟩
  · rw [if_pos (Bool.not_eq_true _ ▸ hm), if_neg hm]
    exact ⟨s, rfl, h, hpos, le_rfl, fun j f' hj _ => ⟨f', hj, Same.refl f'⟩⟩

/-- A name that is opened gives no instance, or that of a child that has the name. -/
theorem Inv.openChild (h : Inv s refs) (hpos : Positive s) (hp : s.inst p = some g) :
  ∃ res s', s.openChild p str mode dir = .ok (res, s')
    ∧ (Outcome s s' fun j => refs j + if res = some j then 1 else 0)
    ∧ ∀ i, res = some i → ∃ f, s'.inst i = some f ∧ f.parent = some p ∧
        nameEqual f.name str = true
  := by
  cases hfind : s.find g str with
  | some i =>
      obtain ⟨f, hi, hparent, hname⟩ := h.find_some hp hfind
      obtain ⟨s', hopen, hout⟩ := h.openChild_child hpos hi hparent hname
      refine ⟨_, s', hopen, hout, ?_⟩
      intro j hj
      split_ifs at hj with hm
      cases hj
      have hlive : 0 < refs i +
          if (if allows mode f.isFolder = true then some i else none) = some i then 1 else 0 := by
        rw [if_pos hm, if_pos rfl]
        apply Nat.succ_pos
      obtain ⟨f', hf'⟩ := hout.inv.alive i hlive
      obtain ⟨f₀, hf₀, hs⟩ := hout.kept.same i f' hf' (h.fresh i f hi)
      rw [hi] at hf₀
      cases hf₀
      exact ⟨f', hf', hs.parent.trans hparent, by rw [hs.name]; apply hname⟩
  | none =>
      have hnone : ∀ {t : Instances}, t = s → ∃ res s', (.ok (none, t) : Except Fault _) = .ok (res, s')
          ∧ (Outcome s s' fun j => refs j + if res = some j then 1 else 0)
          ∧ ∀ i, res = some i → ∃ f, s'.inst i = some f ∧ f.parent = some p ∧
              nameEqual f.name str = true := by
        rintro t rfl
        refine ⟨none, t, rfl, ⟨h, hpos, le_rfl, fun j f' hj _ => ⟨f', hj, Same.refl f'⟩⟩, ?_⟩
        intro i hi
        cases hi
      rw [Instances.openChild, deref_eq hp, Except.ok_bind, hfind]
      dsimp only
      cases hlook : lookUp dir str mode with
      | none => apply hnone rfl
      | some r =>
          dsimp only
          by_cases hr : r.intact = false
          · rw [if_pos hr]
            apply hnone rfl
          · rw [if_neg hr]
            rw [lookUp] at hlook
            have hname := List.find?_some hlook
            have hmem := List.mem_of_find?_eq_some hlook
            rw [List.mem_filter, Bool.and_eq_true, decide_eq_true_eq] at hmem
            refine ⟨_, _, rfl, ⟨h.add hp hfind hname hmem.2.2, ?_, ?_, ?_⟩, ?_⟩
            · intro j f' hj
              by_cases hjm : j = s.made
              · subst hjm
                rw [set_inst_self] at hj
                cases hj
                apply Nat.one_pos
              · rw [set_inst_of_ne hjm] at hj
                by_cases hjp : j = p
                · subst hjp
                  rw [set_inst_self] at hj
                  cases hj
                  apply Nat.succ_pos
                · rw [set_inst_of_ne hjp] at hj
                  apply hpos j f' hj
            · apply Nat.le_succ
            · intro j f' hj hlt
              rw [set_inst_of_ne hlt.ne] at hj
              by_cases hjp : j = p
              · subst hjp
                rw [set_inst_self] at hj
                cases hj
                exact ⟨g, hp, ⟨rfl, rfl, rfl, rfl⟩⟩
              · rw [set_inst_of_ne hjp] at hj
                exact ⟨f', hj, Same.refl f'⟩
            · intro i hi
              cases hi
              exact ⟨_, set_inst_self, rfl, hname⟩

/-! ### Runs -/

variable {x y : State}

/-- A call keeps the invariant, and the instances that it does not delete. -/
theorem Step.outcome (h : Step debug x y) (hinv : Inv x.all x.refs) (hpos : Positive x.all) :
  Outcome x.all y.all y.refs
  := by
  cases h with
  | opened folder str mode dir hfolder hopen =>
      obtain ⟨g, hg⟩ := hinv.alive folder hfolder
      obtain ⟨res, s', hopen', hout, -⟩ := hinv.openChild hpos hg
      rw [hopen] at hopen'
      cases hopen'
      apply hout
  | acquire i hi hacq =>
      obtain ⟨f, hf⟩ := hinv.alive i hi
      obtain ⟨s', hacq', hout⟩ := hinv.acquire hpos hf (Function.update_self ..)
        (fun j hj => Function.update_of_ne hj ..)
      rw [hacq] at hacq'
      cases hacq'
      apply hout
  | parent i p _ hi hparent hacq =>
      obtain ⟨g, hg, -⟩ := hinv.listed i _ p hi hparent
      obtain ⟨s', hacq', hout⟩ := hinv.acquire hpos hg (Function.update_self ..)
        (fun j hj => Function.update_of_ne hj ..)
      rw [hacq] at hacq'
      cases hacq'
      apply hout
  | relax i hi hrelax =>
      obtain ⟨s', hrelax', hout⟩ := hinv.relax hpos hi
      rw [hrelax] at hrelax'
      cases hrelax'
      apply hout

theorem inv_start : Inv start.all start.refs ∧ Positive start.all := by
  have hroot : ∀ {i f}, start.all.inst i = some f →
      i = 0 ∧ f = { parent := none, name := [], nameHash := 0, isFolder := true } := by
    intro i f hi
    rw [start] at hi
    dsimp only at hi
    split_ifs at hi with h₀
    cases hi
    exact ⟨h₀, rfl⟩
  constructor
  · constructor
    · decide
    · intro i hi
      rw [start] at hi ⊢
      dsimp only at hi ⊢
      split_ifs at hi ⊢
      · exact ⟨_, rfl⟩
      · omega
    · intro i f hi
      obtain ⟨rfl, -⟩ := hroot hi
      decide
    · intro i f hi _
      apply (hroot hi).1
    · intro i f p hi hp
      obtain ⟨-, rfl⟩ := hroot hi
      cases hp
    · intro i f p hi hp
      obtain ⟨-, rfl⟩ := hroot hi
      cases hp
    · intro p g h i hp hmem
      obtain ⟨-, rfl⟩ := hroot hp
      dsimp only at hmem
      rw [HashSet.entries_empty] at hmem
      cases hmem
    · intro p g hp
      obtain ⟨-, rfl⟩ := hroot hp
      dsimp only
      rw [HashSet.entries_empty]
      apply List.nodup_nil
    · intro i f hi
      obtain ⟨-, rfl⟩ := hroot hi
      apply HashSet.valid_empty
      decide
    · intro i f hi hp
      obtain ⟨-, rfl⟩ := hroot hi
      apply absurd rfl hp
    · intro i j f g hi hj _ _ _
      rw [(hroot hi).1, (hroot hj).1]
    · intro i f hi
      obtain ⟨rfl, rfl⟩ := hroot hi
      dsimp only
      rw [HashSet.entries_empty]
      rfl
  · intro i f hi
    obtain ⟨-, rfl⟩ := hroot hi
    apply Nat.one_pos

theorem Reachable.inv (h : Reachable debug x) : Inv x.all x.refs ∧ Positive x.all := by
  induction h with
  | refl => apply inv_start
  | tail _ hstep ih =>
      have hout := hstep.outcome ih.1 ih.2
      exact ⟨hout.inv, hout.positive⟩

/-- A run in which an instance has a reference in every state. -/
def WhileReferenced (debug : Bool) (i : ℕ) (x y : State) : Prop :=
  0 < x.refs i ∧ Relation.ReflTransGen (fun x y => Step debug x y ∧ 0 < y.refs i) x y

/-- An instance that has references throughout a run stays that of the same file. -/
theorem WhileReferenced.same (h : WhileReferenced debug i x y) (hinv : Inv x.all x.refs)
    (hpos : Positive x.all) (hi : x.all.inst i = some f) :
  Inv y.all y.refs ∧ Positive y.all ∧ ∃ f', y.all.inst i = some f' ∧ Same f f'
  := by
  obtain ⟨-, hrun⟩ := h
  induction hrun with
  | refl => exact ⟨hinv, hpos, f, hi, Same.refl f⟩
  | tail _ hstep ih =>
      obtain ⟨hinv', hpos', f', hf', hs⟩ := ih
      have hout := hstep.1.outcome hinv' hpos'
      obtain ⟨f'', hf''⟩ := hout.inv.alive i hstep.2
      obtain ⟨f₀, hf₀, hs'⟩ := hout.kept.same i f'' hf'' (hinv'.fresh i f' hf')
      rw [hf'] at hf₀
      cases hf₀
      exact ⟨hout.inv, hout.positive, f'', hf'', hs.trans hs'⟩

/-- The children of a folder. -/
def children (s : Instances) (p : ℕ) : Set ℕ := {i | ∃ f, s.inst i = some f ∧ f.parent = some p}

/-- The instances are in order: the table of a folder holds exactly its children, each once and
found by its own name, an instance counts the references to it and its children, and the folder
of an instance is there. The calls return. -/
structure InOrder (debug : Bool) (x : State) : Prop where
  table : ∀ p g, x.all.inst p = some g →
    (∀ i, i ∈ g.fileTable.entries.map Prod.snd ↔ i ∈ x.all.children p) ∧
      (g.fileTable.entries.map Prod.snd).Nodup
  found : ∀ i f p g, x.all.inst i = some f → f.parent = some p → x.all.inst p = some g →
    x.all.find g f.name = some i
  count : ∀ i f, x.all.inst i = some f →
    f.refCount = x.refs i + (x.all.children i).ncard ∧ 0 < f.refCount
  parent : ∀ i f p, x.all.inst i = some f → f.parent = some p → ∃ g, x.all.inst p = some g
  opens : ∀ folder str mode dir, 0 < x.refs folder →
    ∃ res, x.all.openChild folder str mode dir = .ok res
  relaxes : ∀ i, (if i = 0 then 1 else 0) < x.refs i → ∃ s', x.all.relax debug i = .ok s'

theorem Inv.inOrder (h : Inv x.all x.refs) (hpos : Positive x.all) : InOrder debug x := by
  have htable : ∀ p g, x.all.inst p = some g →
      ∀ i, i ∈ g.fileTable.entries.map Prod.snd ↔ i ∈ x.all.children p := by
    intro p g hp i
    constructor
    · intro hi
      obtain ⟨⟨hash, i⟩, hmem, rfl⟩ := List.mem_map.1 hi
      obtain ⟨f, hf, hparent, -⟩ := h.child p g hash i hp hmem
      exact ⟨f, hf, hparent⟩
    · rintro ⟨f, hf, hparent⟩
      obtain ⟨g', hg', hmem⟩ := h.listed i f p hf hparent
      rw [hp] at hg'
      cases hg'
      apply List.mem_map_of_mem hmem
  constructor
  · intro p g hp
    exact ⟨htable p g hp, h.nodup p g hp⟩
  · intro i f p g hi hparent hp
    apply h.find_child hi hparent hp (nameEqual_refl f.name)
  · intro i f hi
    refine ⟨?_, hpos i f hi⟩
    have hset : x.all.children i = ((f.fileTable.entries.map Prod.snd).toFinset : Set ℕ) := by
      ext j
      rw [List.coe_toFinset, Set.mem_ofPred_eq, htable i f hi]
    rw [hset, Set.ncard_coe_finset, List.toFinset_card_of_nodup (h.nodup i f hi), List.length_map]
    apply h.count i f hi
  · intro i f p hi hparent
    obtain ⟨g, hg, -⟩ := h.listed i f p hi hparent
    exact ⟨g, hg⟩
  · intro folder str mode dir hfolder
    obtain ⟨g, hg⟩ := h.alive folder hfolder
    obtain ⟨res, s', hopen, -⟩ := h.openChild hpos hg
    exact ⟨_, hopen⟩
  · intro i hi
    obtain ⟨s', hrelax, -⟩ := h.relax hpos hi
    exact ⟨s', hrelax⟩

/-- In every run the instances are in order, and two names that are the same up to the case of
their letters open the same instance as long as it has a reference. -/
theorem Reachable.one_instance (h : Reachable debug x) :
  InOrder debug x ∧
    ∀ folder str mode dir i s₁, 0 < x.refs folder →
      x.all.openChild folder str mode dir = .ok (some i, s₁) →
      ∀ y, WhileReferenced debug i
        { all := s₁, refs := fun j => x.refs j + if some i = some j then 1 else 0 } y →
      ∀ str' mode' dir', str.map upper = str'.map upper →
        ∃ f s₂, y.all.inst i = some f ∧ y.all.openChild folder str' mode' dir'
          = .ok (if allows mode' f.isFolder = true then some i else none, s₂)
  := by
  obtain ⟨hinv, hpos⟩ := h.inv
  refine ⟨hinv.inOrder hpos, ?_⟩
  intro folder str mode dir i s₁ hfolder hopen y hrun str' mode' dir' hstr
  obtain ⟨g, hg⟩ := hinv.alive folder hfolder
  obtain ⟨res, s', hopen', hout, hres⟩ := hinv.openChild hpos hg
  rw [hopen] at hopen'
  cases hopen'
  obtain ⟨f, hf, hparent, hname⟩ := hres i rfl
  obtain ⟨hinv', hpos', f', hf', hs⟩ := hrun.same hout.inv hout.positive hf
  have hname' : nameEqual f'.name str' = true := by
    rw [hs.name]
    apply nameEqual_trans hname (nameEqual_iff.2 hstr)
  obtain ⟨s₂, hopen₂, -⟩ := hinv'.openChild_child hpos' hf' (hs.parent.trans hparent) hname'
  exact ⟨f', s₂, hf', hopen₂⟩

/-- A folder with the file `a`. -/
def letterDir : List Record :=
  [{ name := [0x61], nameHash := nameHash [0x61], isFolder := false, validSize := 0,
     allocSize := 0 }]

/-- The file is opened as `a` and as `A`. -/
theorem one_instance_letter :
  ∃ s₁ f s₂, start.all.openChild 0 [0x61] ALLOW_FILE letterDir = .ok (some 1, s₁) ∧
    s₁.openChild 0 [0x41] ALLOW_FILE letterDir
      = .ok (if allows ALLOW_FILE f.isFolder = true then some 1 else none, s₂) ∧
    s₁.inst 1 = some f ∧ f.isFolder = false
  := by
  have hopen : ∃ s₁, start.all.openChild 0 [0x61] ALLOW_FILE letterDir = .ok (some 1, s₁) ∧
      (s₁.inst 1).map FileInstance.isFolder = some false := ⟨_, rfl, rfl⟩
  obtain ⟨s₁, h₁, hfile⟩ := hopen
  have hstart : Reachable true start := Relation.ReflTransGen.refl
  obtain ⟨f, s₂, hf, h₂⟩ := hstart.one_instance.2 0 [0x61] ALLOW_FILE letterDir 1 s₁ (by decide)
    h₁ _ ⟨Nat.succ_pos _, Relation.ReflTransGen.refl⟩ [0x41] ALLOW_FILE letterDir (by decide)
  refine ⟨s₁, f, s₂, h₁, h₂, hf, ?_⟩
  rw [hf] at hfile
  apply Option.some_injective _ hfile

end Instances

end UOS
