import Cofuos.FileSystem.OneInstance

/-!
# The tree of folders

The records of each folder of a volume, by the names that lead to it from the root. The instances
that are reached by opening children with these records are those of files in the tree: the names
from the root to an instance, as `imp_get_path` of `kernel/filesystem/instance.cpp` collects them,
lead to a record of its kind, and two instances do not have the same names.
-/

namespace UOS

open Exfat

namespace Instances

/-- The names that lead from the root to an instance, by `file_instance::imp_get_path`. -/
def pathUp (s : Instances) : ℕ → ℕ → List Name
  | 0, _ => []
  | n + 1, i =>
    match s.inst i with
    | none => []
    | some f =>
      match f.parent with
      | none => []
      | some p => pathUp s n p ++ [f.name]

/-- The names that lead to an instance. -/
def path (s : Instances) (i : ℕ) : List Name := s.pathUp (i + 1) i

/-- The records of the folders of a volume, by the names that lead to them. -/
abbrev Tree : Type := List Name → List Record

/-- A call with the records of a volume, without an empty name. Children are opened of folders. -/
inductive TreeStep (debug : Bool) (tree : Tree) (x : State) : State → Prop
  | opened (folder : ℕ) {f : FileInstance} (str : Name) (mode : BitVec 8) {res : Option ℕ}
      {s' : Instances} : 0 < x.refs folder → x.all.inst folder = some f → f.isFolder = true →
      str ≠ [] → x.all.openChild folder str mode (tree (x.all.path folder)) = .ok (res, s') →
      TreeStep debug tree x
        { all := s', refs := fun i => x.refs i + if res = some i then 1 else 0 }
  | acquire (i : ℕ) {s' : Instances} : 0 < x.refs i → x.all.acquire i = .ok s' →
      TreeStep debug tree x { all := s', refs := Function.update x.refs i (x.refs i + 1) }
  | parent (i p : ℕ) {f : FileInstance} {s' : Instances} : 0 < x.refs i → x.all.inst i = some f →
      f.parent = some p → x.all.acquire p = .ok s' →
      TreeStep debug tree x { all := s', refs := Function.update x.refs p (x.refs p + 1) }
  | relax (i : ℕ) {s' : Instances} : (if i = 0 then 1 else 0) < x.refs i →
      x.all.relax debug i = .ok s' →
      TreeStep debug tree x { all := s', refs := Function.update x.refs i (x.refs i - 1) }

/-- The states that are reached with the records of a volume. -/
def Grows (debug : Bool) (tree : Tree) (x : State) : Prop :=
  Relation.ReflTransGen (TreeStep debug tree) start x

/-- The instances are those of files of the tree. -/
structure Grown (tree : Tree) (s : Instances) : Prop where
  root : ∀ f, s.inst 0 = some f → f.parent = none ∧ f.isFolder = true
  folder : ∀ i f p g, s.inst i = some f → f.parent = some p → s.inst p = some g →
    g.isFolder = true
  record : ∀ i f p, s.inst i = some f → f.parent = some p →
    ∃ r ∈ tree (s.path p), r.name = f.name ∧ r.isFolder = f.isFolder ∧ r.intact = true ∧ r.name ≠ []

variable {debug : Bool} {tree : Tree} {s s' : Instances} {refs refs' : ℕ → ℕ} {i j p n m : ℕ}
  {f g : FileInstance} {str : Name} {mode : BitVec 8} {x y : State}

/-! ### Paths -/

/-- The names do not depend on the number of rounds. -/
theorem Inv.pathUp_eq (h : Inv s refs) (hn : i < n) (hm : i < m) : s.pathUp n i = s.pathUp m i := by
  induction n generalizing i m with
  | zero => omega
  | succ n ih =>
      obtain ⟨m, rfl⟩ : ∃ m', m = m' + 1 := ⟨m - 1, by lia⟩
      rw [pathUp, pathUp]
      cases hi : s.inst i with
      | none => rfl
      | some f =>
          dsimp only
          cases hparent : f.parent with
          | none => rfl
          | some p =>
              have hlt := h.below i f p hi hparent
              dsimp only
              rw [ih (by lia) (show p < m by lia)]

theorem path_of_root (hi : s.inst i = some f) (hparent : f.parent = none) : s.path i = [] := by
  rw [path, pathUp, hi]
  dsimp only
  rw [hparent]

theorem Inv.path_child (h : Inv s refs) (hi : s.inst i = some f) (hparent : f.parent = some p) :
  s.path i = s.path p ++ [f.name]
  := by
  have hlt := h.below i f p hi hparent
  rw [path, pathUp, hi]
  dsimp only
  rw [hparent]
  dsimp only
  rw [h.pathUp_eq hlt (Nat.lt_succ_self p), ← path]

/-- The names of an instance that is still there are the same. -/
theorem Inv.path_kept (h : Inv s refs) (h' : Inv s' refs') (hkept : Kept s s')
    (hi : s'.inst i = some f) (hlt : i < s.made) :
  s'.path i = s.path i
  := by
  induction i using Nat.strong_induction_on generalizing f with
  | _ i ih =>
      obtain ⟨f₀, hf₀, hsame⟩ := hkept.same i f hi hlt
      cases hparent : f.parent with
      | none => rw [path_of_root hi hparent, path_of_root hf₀ (hsame.parent ▸ hparent)]
      | some p =>
          have hp := h'.below i f p hi hparent
          obtain ⟨g, hg, -⟩ := h'.listed i f p hi hparent
          rw [h'.path_child hi hparent, h.path_child hf₀ (hsame.parent ▸ hparent),
            ih p hp hg (by omega), hsame.name]

/-- Two instances do not have the same names. -/
theorem Inv.path_inj (h : Inv s refs) (hi : s.inst i = some f) (hj : s.inst j = some g)
    (heq : s.path i = s.path j) :
  i = j
  := by
  induction i using Nat.strong_induction_on generalizing j f g with
  | _ i ih =>
      cases hparent : f.parent with
      | none =>
          rw [path_of_root hi hparent] at heq
          cases hparent' : g.parent with
          | none => rw [h.orphan i f hi hparent, h.orphan j g hj hparent']
          | some q =>
              rw [h.path_child hj hparent'] at heq
              exact absurd heq.symm (List.append_ne_nil_of_right_ne_nil _ (List.cons_ne_nil _ _))
      | some p =>
          rw [h.path_child hi hparent] at heq
          cases hparent' : g.parent with
          | none =>
              rw [path_of_root hj hparent'] at heq
              exact absurd heq (List.append_ne_nil_of_right_ne_nil _ (List.cons_ne_nil _ _))
          | some q =>
              rw [h.path_child hj hparent'] at heq
              obtain ⟨hpath, hname⟩ := List.append_inj' heq rfl
              obtain ⟨f', hp, -⟩ := h.listed i f p hi hparent
              obtain ⟨g', hq, -⟩ := h.listed j g q hj hparent'
              obtain rfl := ih p (h.below i f p hi hparent) hp hq hpath
              apply h.distinct i j f g hi hj (by rw [hparent]; apply Option.some_ne_none)
                (hparent.trans hparent'.symm)
              rw [(List.cons.inj hname).1]
              apply nameEqual_refl

/-! ### Instances of a tree -/

/-- What is left of the instances is still that of a tree. -/
theorem Grown.kept (h : Grown tree s) (hinv : Inv s refs) (hinv' : Inv s' refs') (hkept : Kept s s')
    (hnone : ∀ i f, s'.inst i = some f → i < s.made) :
  Grown tree s'
  := by
  refine ⟨?_, ?_, ?_⟩
  · intro f hf
    obtain ⟨f₀, hf₀, hsame⟩ := hkept.same 0 f hf (hnone 0 f hf)
    rw [hsame.parent, hsame.isFolder]
    apply h.root f₀ hf₀
  · intro i f p g hi hparent hp
    obtain ⟨f₀, hf₀, hsame⟩ := hkept.same i f hi (hnone i f hi)
    obtain ⟨g₀, hg₀, hsame'⟩ := hkept.same p g hp (hnone p g hp)
    rw [hsame'.isFolder]
    apply h.folder i f₀ p g₀ hf₀ (hsame.parent ▸ hparent) hg₀
  · intro i f p hi hparent
    obtain ⟨f₀, hf₀, hsame⟩ := hkept.same i f hi (hnone i f hi)
    obtain ⟨g, hp, -⟩ := hinv'.listed i f p hi hparent
    rw [hinv.path_kept hinv' hkept hp (hnone p g hp), hsame.name, hsame.isFolder]
    apply h.record i f₀ p hf₀ (hsame.parent ▸ hparent)

theorem deref_ok (h : s.deref i = .ok f) : s.inst i = some f := by
  rw [deref] at h
  cases hi : s.inst i with
  | none =>
      rw [hi] at h
      cases h
  | some g =>
      rw [hi] at h
      cases h
      rfl

theorem acquire_made (h : s.acquire i = .ok s') : s'.made = s.made := by
  obtain ⟨f, -, heq⟩ := Except.bind_eq_ok_iff.1 h
  cases heq
  rfl

/-- No instance is made when one is deleted. -/
theorem delete_made (h : delete debug n s i = .ok s') : s'.made = s.made := by
  induction n generalizing s i with
  | zero => cases h
  | succ n ih =>
      rw [delete, Except.bind_eq_ok_iff] at h
      obtain ⟨f, -, h⟩ := h
      obtain ⟨-, -, h⟩ := Except.bind_eq_ok_iff.1 h
      obtain ⟨-, -, h⟩ := Except.bind_eq_ok_iff.1 h
      cases hparent : f.parent with
      | none =>
          rw [hparent] at h
          obtain ⟨-, -, h⟩ := Except.bind_eq_ok_iff.1 h
          cases h
      | some p =>
          rw [hparent] at h
          obtain ⟨g, -, h⟩ := Except.bind_eq_ok_iff.1 h
          obtain ⟨-, -, h⟩ := Except.bind_eq_ok_iff.1 h
          split_ifs at h
          obtain ⟨-, -, h⟩ := Except.bind_eq_ok_iff.1 h
          dsimp only at h
          split_ifs at h
          · cases h
            rfl
          · rw [ih h]
            rfl

theorem relax_made (h : s.relax debug i = .ok s') : s'.made = s.made := by
  rw [relax, Except.bind_eq_ok_iff] at h
  obtain ⟨f, -, h⟩ := h
  obtain ⟨-, -, h⟩ := Except.bind_eq_ok_iff.1 h
  dsimp only at h
  split_ifs at h
  · cases h
    rfl
  · rw [delete_made h]
    rfl

/-- When no instance is made, the instances are still those of a tree. -/
theorem Grown.outcome (h : Grown tree s) (hinv : Inv s refs) (hout : Outcome s s' refs')
    (hmade : s'.made = s.made) :
  Grown tree s'
  := h.kept hinv hout.inv hout.kept fun i f hi => hmade ▸ hout.inv.fresh i f hi

/-- The instance of a record. -/
def ofRecord (p : ℕ) (r : Record) : FileInstance :=
  { parent := some p, name := r.name, nameHash := r.nameHash, isFolder := r.isFolder }

/-- A child that is opened has an instance, or gets one from its record. -/
theorem openChild_cases {dir : List Record} {res : Option ℕ} (hp : s.inst p = some g)
    (hopen : s.openChild p str mode dir = .ok (res, s')) :
  (∃ i f, s.find g str = some i ∧ s.inst i = some f ∧ s'.made = s.made ∧
    res = if allows mode f.isFolder = true then some i else none) ∨
  (s.find g str = none ∧ (∀ r, lookUp dir str mode = some r → r.intact = false) ∧
    s' = s ∧ res = none) ∨
  (s.find g str = none ∧ ∃ r, lookUp dir str mode = some r ∧ r.intact = true ∧
    res = some s.made ∧ s'.made = s.made + 1 ∧ s'.inst s.made = some (ofRecord p r))
  := by
  rw [openChild, deref_eq hp, Except.ok_bind] at hopen
  cases hfind : s.find g str with
  | some i =>
      rw [hfind] at hopen
      obtain ⟨f, hf, hopen⟩ := Except.bind_eq_ok_iff.1 hopen
      refine .inl ⟨i, f, rfl, deref_ok hf, ?_⟩
      by_cases hallows : allows mode f.isFolder = true
      · rw [if_neg (by rw [hallows]; decide), Except.bind_eq_ok_iff] at hopen
        obtain ⟨s₁, hacquire, heq⟩ := hopen
        cases heq
        exact ⟨acquire_made hacquire, by rw [if_pos hallows]⟩
      · rw [if_pos (Bool.eq_false_of_not_eq_true hallows)] at hopen
        cases hopen
        exact ⟨rfl, by rw [if_neg hallows]⟩
  | none =>
      rw [hfind] at hopen
      dsimp only at hopen
      cases hlook : lookUp dir str mode with
      | none =>
          rw [hlook] at hopen
          cases hopen
          exact .inr (.inl ⟨rfl, (fun r hr => by cases hr), rfl, rfl⟩)
      | some r =>
          rw [hlook] at hopen
          dsimp only at hopen
          by_cases hr : r.intact = false
          · rw [if_pos hr] at hopen
            cases hopen
            refine .inr (.inl ⟨rfl, ?_, rfl, rfl⟩)
            rintro _ ⟨⟩
            exact hr
          · rw [if_neg hr] at hopen
            cases hopen
            exact .inr (.inr
              ⟨rfl, r, rfl, Bool.eq_true_of_not_eq_false hr, rfl, rfl, set_inst_self⟩)

/-- Opening a child with the records of the folder either makes no instance, or makes that of a
record. -/
theorem Grown.openChild (h : Grown tree s) (hinv : Inv s refs) (hout : Outcome s s' refs')
    (hp : s.inst p = some g) (hfolder : g.isFolder = true) (hstr : str ≠ []) {res : Option ℕ}
    (hopen : s.openChild p str mode (tree (s.path p)) = .ok (res, s')) :
  Grown tree s'
  := by
  rcases openChild_cases hp hopen with
    ⟨-, -, -, -, hmade, -⟩ | ⟨-, -, rfl, -⟩ | ⟨-, r, hlook, hintact, -, hmade, hnew⟩
  · exact h.outcome hinv hout hmade
  · exact h
  have hfresh : ∀ {i f}, s'.inst i = some f → i = s.made ∨ i < s.made := by
    intro i f hi
    have := hout.inv.fresh i f hi
    lia
  have hpold := hinv.fresh p g hp
  have hrecord : r ∈ tree (s.path p) ∧ r.name ≠ [] := by
    rw [lookUp] at hlook
    have hname := List.find?_some hlook
    refine ⟨(List.mem_filter.1 (List.mem_of_find?_eq_some hlook)).1, ?_⟩
    intro hnil
    rw [hnil, nameEqual_iff] at hname
    exact hstr (List.map_eq_nil_iff.1 hname.symm)
  have hsame : ∀ {i f}, s'.inst i = some f → i < s.made → ∃ f₀, s.inst i = some f₀ ∧ Same f₀ f :=
    fun hi hlt => hout.kept.same _ _ hi hlt
  refine ⟨?_, ?_, ?_⟩
  · intro f hf
    obtain ⟨f₀, hf₀, hsame⟩ := hsame hf (by omega)
    rw [hsame.parent, hsame.isFolder]
    apply h.root f₀ hf₀
  · intro i f q g' hi hparent hq
    have hlt := hout.inv.below i f q hi hparent
    obtain ⟨g₀, hg₀, hsame'⟩ := hsame hq (by rcases hfresh hi with rfl | hold <;> lia)
    rw [hsame'.isFolder]
    rcases hfresh hi with rfl | hold
    · rw [hnew] at hi
      cases hi
      cases hparent
      rw [hp] at hg₀
      cases hg₀
      exact hfolder
    · obtain ⟨f₀, hf₀, hsame⟩ := hsame hi hold
      apply h.folder i f₀ q g₀ hf₀ (hsame.parent ▸ hparent) hg₀
  · intro i f q hi hparent
    have hlt := hout.inv.below i f q hi hparent
    obtain ⟨g', hq, -⟩ := hout.inv.listed i f q hi hparent
    have hqold : q < s.made := by rcases hfresh hi with rfl | hold <;> omega
    rw [hinv.path_kept hout.inv hout.kept hq hqold]
    rcases hfresh hi with rfl | hold
    · rw [hnew] at hi
      cases hi
      cases hparent
      exact ⟨r, hrecord.1, rfl, rfl, hintact, hrecord.2⟩
    · obtain ⟨f₀, hf₀, hsame⟩ := hsame hi hold
      rw [hsame.name, hsame.isFolder]
      apply h.record i f₀ q hf₀ (hsame.parent ▸ hparent)

/-! ### Runs -/

/-- What holds in every state that is reached with the records of a volume. -/
theorem Grows.grown (h : Grows debug tree x) :
  Inv x.all x.refs ∧ Positive x.all ∧ Grown tree x.all
  := by
  induction h with
  | refl =>
      refine ⟨inv_start.1, inv_start.2, ?_⟩
      have hroot : ∀ {i f}, start.all.inst i = some f →
          f = { parent := none, name := [], nameHash := 0, isFolder := true } := by
        intro i f hi
        rw [start] at hi
        dsimp only at hi
        split_ifs at hi
        cases hi
        rfl
      refine ⟨?_, ?_, ?_⟩
      · intro f hf
        rw [hroot hf]
        exact ⟨rfl, rfl⟩
      · intro i f p g hi hparent
        rw [hroot hi] at hparent
        cases hparent
      · intro i f p hi hparent
        rw [hroot hi] at hparent
        cases hparent
  | tail _ hstep ih =>
      obtain ⟨hinv, hpos, hgrown⟩ := ih
      cases hstep with
      | opened folder str mode hrefs hinst hfolder hstr hopen =>
          have hout : Outcome _ _ _ :=
            Step.outcome (Step.opened folder str mode _ hrefs hopen : Step debug _ _) hinv hpos
          exact ⟨hout.inv, hout.positive, hgrown.openChild hinv hout hinst hfolder hstr hopen⟩
      | acquire i hrefs hacquire =>
          have hout : Outcome _ _ _ :=
            Step.outcome (Step.acquire i hrefs hacquire : Step debug _ _) hinv hpos
          exact ⟨hout.inv, hout.positive, hgrown.outcome hinv hout (acquire_made hacquire)⟩
      | parent i p hrefs hinst hparent hacquire =>
          have hout : Outcome _ _ _ :=
            Step.outcome (Step.parent i p hrefs hinst hparent hacquire : Step debug _ _) hinv hpos
          exact ⟨hout.inv, hout.positive, hgrown.outcome hinv hout (acquire_made hacquire)⟩
      | relax i hrefs hrelax =>
          have hout := (Step.relax i hrefs hrelax).outcome hinv hpos
          exact ⟨hout.inv, hout.positive, hgrown.outcome hinv hout (relax_made hrelax)⟩

end Instances

end UOS
