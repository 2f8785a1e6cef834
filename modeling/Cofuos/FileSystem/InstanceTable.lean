import Cofuos.FileSystem.Instances

/-!
# The tables of folders

The invariant of the instances: the table of a folder holds exactly the instances of its children,
and an instance counts the references that have been given out and its children. It is kept when
references are given out and back, when a child is removed, and when a child is added.

The table is searched with the hash of the spelling that the caller gives, and holds the hashes of
the disk. A record is only opened if both are the same, and a spelling that is equal has the same
hash.
-/

namespace UOS

open Exfat

namespace Instances

variable {debug : Bool} {s s' : Instances} {refs refs' : ℕ → ℕ} {i j p : ℕ}
  {f g : FileInstance} {str : Name} {mode : BitVec 8} {dir : List Record}

/-! ### The invariant -/

/-- What holds of the instances, for the references that have been given out. -/
structure Inv (s : Instances) (refs : ℕ → ℕ) : Prop where
  root : 0 < refs 0
  alive : ∀ i, 0 < refs i → ∃ f, s.inst i = some f
  fresh : ∀ i f, s.inst i = some f → i < s.made
  orphan : ∀ i f, s.inst i = some f → f.parent = none → i = 0
  below : ∀ i f p, s.inst i = some f → f.parent = some p → p < i
  /-- An instance is in the table of its folder. -/
  listed : ∀ i f p, s.inst i = some f → f.parent = some p →
    ∃ g, s.inst p = some g ∧ (f.nameHash.toNat, i) ∈ g.fileTable.entries
  /-- The table of a folder has its children only. -/
  child : ∀ p g h i, s.inst p = some g → (h, i) ∈ g.fileTable.entries →
    ∃ f, s.inst i = some f ∧ f.parent = some p ∧ h = f.nameHash.toNat
  nodup : ∀ p g, s.inst p = some g → (g.fileTable.entries.map Prod.snd).Nodup
  valid : ∀ i f, s.inst i = some f → f.fileTable.Valid
  hash : ∀ i f, s.inst i = some f → f.parent ≠ none → f.nameHash = nameHash f.name
  distinct : ∀ i j f g, s.inst i = some f → s.inst j = some g → f.parent ≠ none →
    f.parent = g.parent → nameEqual f.name g.name = true → i = j
  count : ∀ i f, s.inst i = some f → f.refCount = refs i + f.fileTable.entries.length

/-- Every instance has a reference. -/
def Positive (s : Instances) : Prop := ∀ i f, s.inst i = some f → 0 < f.refCount

@[simp]
theorem set_inst_self : (s.set i f).inst i = some f := Function.update_self ..

theorem set_inst_of_ne (h : j ≠ i) : (s.set i f).inst j = s.inst j := Function.update_of_ne h ..

@[simp]
theorem free_inst_self : (s.free i).inst i = none := Function.update_self ..

theorem free_inst_of_ne (h : j ≠ i) : (s.free i).inst j = s.inst j := Function.update_of_ne h ..

theorem deref_eq (h : s.inst i = some f) : s.deref i = .ok f := by
  rw [deref, h]

/-- An instance is that of the same file. -/
structure Same (f f' : FileInstance) : Prop where
  parent : f'.parent = f.parent
  name : f'.name = f.name
  nameHash : f'.nameHash = f.nameHash
  isFolder : f'.isFolder = f.isFolder

theorem Same.refl (f : FileInstance) : Same f f := ⟨rfl, rfl, rfl, rfl⟩

theorem Same.trans {f f' f'' : FileInstance} (h : Same f f') (h' : Same f' f'') : Same f f'' :=
  ⟨h'.parent.trans h.parent, h'.name.trans h.name, h'.nameHash.trans h.nameHash,
    h'.isFolder.trans h.isFolder⟩

namespace Inv

variable (h : Inv s refs)

include h

/-- The child that is found for a name has the name. -/
theorem find_some (hp : s.inst p = some g) (hf : s.find g str = some i) :
  ∃ f, s.inst i = some f ∧ f.parent = some p ∧ nameEqual f.name str = true
  := by
  obtain ⟨hmem, hnamed⟩ := (h.valid p g hp).find_some hf
  obtain ⟨f, hi, hparent, -⟩ := h.child p g _ i hp hmem
  refine ⟨f, hi, hparent, ?_⟩
  rw [named, hi] at hnamed
  apply hnamed

/-- A child is found by every spelling of its name. -/
theorem find_child (hi : s.inst i = some f) (hparent : f.parent = some p) (hp : s.inst p = some g)
    (hname : nameEqual f.name str = true) :
  s.find g str = some i
  := by
  have hparent' : f.parent ≠ none := by
    rw [hparent]
    apply Option.some_ne_none
  cases hfind : s.find g str with
  | none =>
      obtain ⟨g', hp', hmem⟩ := h.listed i f p hi hparent
      rw [hp] at hp'
      cases hp'
      rw [h.hash i f hi hparent', nameHash_of_nameEqual hname] at hmem
      have hnot := (h.valid p g hp).find_none hfind i hmem
      rw [named, hi] at hnot
      dsimp only at hnot
      rw [hname] at hnot
      cases hnot
  | some j =>
      obtain ⟨f', hj, hparent'', hname'⟩ := h.find_some hp hfind
      rw [h.distinct i j f f' hi hj hparent' (hparent.trans hparent''.symm)]
      apply nameEqual_trans hname
      rw [nameEqual_comm]
      apply hname'

/-! ### Changing counts -/

/-- When only counts of references change, they have to agree with the references. -/
theorem of_counts (r : ℕ → ℕ)
    (hs : s'.inst = fun j => (s.inst j).map fun f => { f with refCount := r j })
    (hmade : s'.made = s.made) (hroot : 0 < refs' 0)
    (halive : ∀ i, 0 < refs' i → ∃ f, s.inst i = some f)
    (hcount : ∀ i f, s.inst i = some f → r i = refs' i + f.fileTable.entries.length) :
  Inv s' refs'
  := by
  have hback : ∀ {j f'}, s'.inst j = some f' →
      ∃ f, s.inst j = some f ∧ { f with refCount := r j } = f' := by
    intro j f' hj
    rw [hs] at hj
    apply Option.map_eq_some_iff.1 hj
  have hforth : ∀ {j f}, s.inst j = some f → s'.inst j = some { f with refCount := r j } := by
    intro j f hj
    rw [hs]
    dsimp only
    rw [hj]
    rfl
  constructor
  · apply hroot
  · intro i hi
    obtain ⟨f, hf⟩ := halive i hi
    exact ⟨_, hforth hf⟩
  · intro i f' hi
    obtain ⟨f, hf, rfl⟩ := hback hi
    rw [hmade]
    apply h.fresh i f hf
  · intro i f' hi
    obtain ⟨f, hf, rfl⟩ := hback hi
    apply h.orphan i f hf
  · intro i f' p hi
    obtain ⟨f, hf, rfl⟩ := hback hi
    apply h.below i f p hf
  · intro i f' p hi hparent
    obtain ⟨f, hf, rfl⟩ := hback hi
    obtain ⟨g, hg, hmem⟩ := h.listed i f p hf hparent
    exact ⟨_, hforth hg, hmem⟩
  · intro p g' hash i hp hmem
    obtain ⟨g, hg, rfl⟩ := hback hp
    obtain ⟨f, hf, hparent, heq⟩ := h.child p g hash i hg hmem
    exact ⟨_, hforth hf, hparent, heq⟩
  · intro p g' hp
    obtain ⟨g, hg, rfl⟩ := hback hp
    apply h.nodup p g hg
  · intro i f' hi
    obtain ⟨f, hf, rfl⟩ := hback hi
    apply h.valid i f hf
  · intro i f' hi
    obtain ⟨f, hf, rfl⟩ := hback hi
    apply h.hash i f hf
  · intro i j f' g' hi hj
    obtain ⟨f, hf, rfl⟩ := hback hi
    obtain ⟨g, hg, rfl⟩ := hback hj
    apply h.distinct i j f g hf hg
  · intro i f' hi
    obtain ⟨f, hf, rfl⟩ := hback hi
    apply hcount i f hf

/-- The count of an instance changes with the references to it. -/
theorem set_refCount {n : ℕ} (hi : s.inst i = some f) (hroot : i = 0 → 0 < n) :
  Inv (s.set i { f with refCount := n + f.fileTable.entries.length }) (Function.update refs i n)
  := by
  apply h.of_counts fun j => if j = i then n + f.fileTable.entries.length
    else ((s.inst j).map FileInstance.refCount).getD 0
  · ext1 j
    by_cases hj : j = i
    · subst hj
      rw [set_inst_self, hi, if_pos rfl]
      rfl
    · rw [set_inst_of_ne hj, if_neg hj]
      cases s.inst j with
      | none => rfl
      | some g => rfl
  · rfl
  · by_cases h₀ : i = 0
    · subst h₀
      rw [Function.update_self]
      apply hroot rfl
    · rw [Function.update_of_ne (Ne.symm h₀)]
      apply h.root
  · intro j hj
    by_cases hji : j = i
    · rw [hji]
      exact ⟨f, hi⟩
    · rw [Function.update_of_ne hji] at hj
      apply h.alive j hj
  · intro j g hg
    by_cases hji : j = i
    · subst hji
      rw [hi] at hg
      cases hg
      rw [if_pos rfl, Function.update_self]
    · rw [if_neg hji, hg, Function.update_of_ne hji]
      apply h.count j g hg

/-- Nothing has referred to an instance before it is made. -/
theorem no_refs : refs s.made = 0 := by
  by_contra hne
  obtain ⟨f, hf⟩ := h.alive s.made (Nat.pos_of_ne_zero hne)
  have := h.fresh s.made f hf
  omega

end Inv

/-! ### Removing a child -/

/-- The instance `f` of `i`, which has no children, has been freed and is out of the table of the
folder `p`, whose instance was `g` and is `g'`. -/
structure ChildRemoved (s s' : Instances) (i p : ℕ) (f g g' : FileInstance) : Prop where
  child : s.inst i = some f
  parent : f.parent = some p
  empty : f.fileTable.entries = []
  folder : s.inst p = some g
  inst : s'.inst = ((s.set p g').free i).inst
  same : Same g g'
  refCount : g'.refCount + 1 = g.refCount
  valid : g'.fileTable.Valid
  perm : (((nameHash f.name).toNat, i) :: g'.fileTable.entries).Perm g.fileTable.entries

namespace ChildRemoved

variable {g' : FileInstance} (hr : ChildRemoved s s' i p f g g') (h : Inv s refs)

include hr

/-- An instance that is left was there before. -/
theorem back {f' : FileInstance} (hj : s'.inst j = some f') :
  j ≠ i ∧ ∃ f₀, s.inst j = some f₀ ∧ Same f₀ f' ∧ (j = p ∧ f' = g' ∨ j ≠ p ∧ f' = f₀)
  := by
  rw [hr.inst] at hj
  have hji : j ≠ i := by
    rintro rfl
    rw [free_inst_self] at hj
    cases hj
  refine ⟨hji, ?_⟩
  rw [free_inst_of_ne hji] at hj
  by_cases hjp : j = p
  · subst hjp
    rw [set_inst_self] at hj
    cases hj
    exact ⟨g, hr.folder, hr.same, Or.inl ⟨rfl, rfl⟩⟩
  · rw [set_inst_of_ne hjp] at hj
    exact ⟨f', hj, Same.refl f', Or.inr ⟨hjp, rfl⟩⟩

/-- The other instances are left. -/
theorem forth {f₀ : FileInstance} (hj : s.inst j = some f₀) (hji : j ≠ i) :
  ∃ f', s'.inst j = some f' ∧ Same f₀ f' ∧ (j = p ∧ f' = g' ∨ j ≠ p ∧ f' = f₀)
  := by
  rw [hr.inst, free_inst_of_ne hji]
  by_cases hjp : j = p
  · subst hjp
    rw [hr.folder] at hj
    cases hj
    exact ⟨g', set_inst_self, hr.same, Or.inl ⟨rfl, rfl⟩⟩
  · rw [set_inst_of_ne hjp]
    exact ⟨f₀, hj, Same.refl f₀, Or.inr ⟨hjp, rfl⟩⟩

include h

/-- The table of the folder has no instance twice, and the child is not in it any more. -/
theorem nodup_folder :
  i ∉ g'.fileTable.entries.map Prod.snd ∧ (g'.fileTable.entries.map Prod.snd).Nodup
  := by
  have := (hr.perm.map Prod.snd).nodup_iff.2 (h.nodup p g hr.folder)
  rw [List.map_cons, List.nodup_cons] at this
  apply this

/-- Every instance is in the table of its folder. -/
theorem listed {f' : FileInstance} {q : ℕ} (hj : s'.inst j = some f') (hq : f'.parent = some q) :
  ∃ g₁, s'.inst q = some g₁ ∧ (f'.nameHash.toNat, j) ∈ g₁.fileTable.entries
  := by
  obtain ⟨hji, f₀, hf₀, hs, -⟩ := hr.back hj
  obtain ⟨g₀, hg₀, hin⟩ := h.listed j f₀ q hf₀ (hs.parent ▸ hq)
  have hqi : q ≠ i := by
    rintro rfl
    have hchild := hr.child
    rw [hg₀] at hchild
    cases hchild
    rw [hr.empty] at hin
    cases hin
  obtain ⟨f'', hf'', -, ⟨rfl, rfl⟩ | ⟨-, rfl⟩⟩ := hr.forth hg₀ hqi
  · refine ⟨_, hf'', ?_⟩
    have hfolder := hr.folder
    rw [hg₀] at hfolder
    cases hfolder
    rw [hs.nameHash]
    obtain heq | hin := List.mem_cons.1 (hr.perm.symm.subset hin)
    · apply absurd (congrArg Prod.snd heq) hji
    · apply hin
  · exact ⟨_, hf'', hs.nameHash ▸ hin⟩

/-- The instances of a table are children of its folder. -/
theorem child_of_mem {g₁ : FileInstance} {q hash : ℕ} (hq : s'.inst q = some g₁)
    (hin : (hash, j) ∈ g₁.fileTable.entries) :
  ∃ f', s'.inst j = some f' ∧ f'.parent = some q ∧ hash = f'.nameHash.toNat
  := by
  have hold : ∀ {g₀}, s.inst q = some g₀ → (hash, j) ∈ g₀.fileTable.entries → j ≠ i →
      ∃ f', s'.inst j = some f' ∧ f'.parent = some q ∧ hash = f'.nameHash.toNat := by
    intro g₀ hg₀ hin₀ hji
    obtain ⟨f₀, hf₀, hpar, heq⟩ := h.child q g₀ hash j hg₀ hin₀
    obtain ⟨f', hf', hs, -⟩ := hr.forth hf₀ hji
    exact ⟨f', hf', hs.parent.trans hpar, by rw [hs.nameHash, heq]⟩
  obtain ⟨hqi, g₀, hg₀, -, ⟨rfl, rfl⟩ | ⟨hqp, rfl⟩⟩ := hr.back hq
  · apply hold hr.folder (hr.perm.subset (List.mem_cons_of_mem _ hin))
    rintro rfl
    apply (hr.nodup_folder h).1 (List.mem_map_of_mem hin)
  · apply hold hg₀ hin
    -- the child is in no other table
    rintro rfl
    obtain ⟨f₀, hf₀, hpar, -⟩ := h.child q g₁ hash j hg₀ hin
    rw [hr.child] at hf₀
    cases hf₀
    rw [hr.parent] at hpar
    apply hqp (Option.some.inj hpar).symm

end ChildRemoved

/-- An instance without references and children leaves the table of its folder. -/
theorem Inv.remove (h : Inv s refs) (hi : s.inst i = some f) (hzero : f.refCount = 0)
    (hparent : f.parent = some p) (hp : s.inst p = some g) :
  Inv ((s.set p { g with
    fileTable := g.fileTable.erase (nameHash f.name).toNat (s.named f.name)
    refCount := g.refCount - 1 }).free i) refs ∧ 0 < g.refCount
  := by
  have hcount := h.count i f hi
  have hrefs : refs i = 0 := by lia
  have hnil : f.fileTable.entries = [] := by
    apply List.eq_nil_of_length_eq_zero
    lia
  have hg := h.count p g hp
  obtain ⟨hvalid, hperm⟩ :=
    (h.valid p g hp).erase (h.find_child hi hparent hp (nameEqual_refl f.name))
  have hlen := hperm.length_eq
  rw [List.length_cons] at hlen
  obtain ⟨g', hg'⟩ : ∃ g' : FileInstance, g' = { g with
    fileTable := g.fileTable.erase (nameHash f.name).toNat (s.named f.name)
    refCount := g.refCount - 1 } := ⟨_, rfl⟩
  rw [← hg']
  have hr : ChildRemoved s ((s.set p g').free i) i p f g g' := by
    subst hg'
    exact ⟨hi, hparent, hnil, hp, rfl, ⟨rfl, rfl, rfl, rfl⟩, Nat.sub_add_cancel (by lia), hvalid, hperm⟩
  have hlen' := hr.perm.length_eq
  rw [List.length_cons] at hlen'
  refine ⟨?_, by lia⟩
  constructor
  · apply h.root
  · intro j hj
    obtain ⟨f₀, hf₀⟩ := h.alive j hj
    obtain ⟨f', hf', -⟩ := hr.forth hf₀ (by rintro rfl; lia)
    exact ⟨f', hf'⟩
  · intro j f' hj
    obtain ⟨-, f₀, hf₀, -⟩ := hr.back hj
    apply h.fresh j f₀ hf₀
  · intro j f' hj hnone
    obtain ⟨-, f₀, hf₀, hs, -⟩ := hr.back hj
    apply h.orphan j f₀ hf₀ (hs.parent ▸ hnone)
  · intro j f' q hj hq
    obtain ⟨-, f₀, hf₀, hs, -⟩ := hr.back hj
    apply h.below j f₀ q hf₀ (hs.parent ▸ hq)
  · intro j f' q
    apply hr.listed h
  · intro q g₁ hash j
    apply hr.child_of_mem h
  · intro q g₁ hq
    obtain ⟨-, g₀, hg₀, -, ⟨rfl, rfl⟩ | ⟨-, rfl⟩⟩ := hr.back hq
    · apply (hr.nodup_folder h).2
    · apply h.nodup q g₁ hg₀
  · intro j f' hj
    obtain ⟨-, f₀, hf₀, -, ⟨rfl, rfl⟩ | ⟨-, rfl⟩⟩ := hr.back hj
    · apply hr.valid
    · apply h.valid j f' hf₀
  · intro j f' hj hpar
    obtain ⟨-, f₀, hf₀, hs, -⟩ := hr.back hj
    rw [hs.nameHash, hs.name]
    apply h.hash j f₀ hf₀ (hs.parent ▸ hpar)
  · intro j k f₁ f₂ hj hk hpar heq hname
    obtain ⟨-, f₁', hf₁', hs₁, -⟩ := hr.back hj
    obtain ⟨-, f₂', hf₂', hs₂, -⟩ := hr.back hk
    rw [hs₁.parent] at hpar heq
    rw [hs₂.parent] at heq
    rw [hs₁.name, hs₂.name] at hname
    apply h.distinct j k f₁' f₂' hf₁' hf₂' hpar heq hname
  · intro j f' hj
    obtain ⟨-, f₀, hf₀, -, ⟨rfl, rfl⟩ | ⟨-, rfl⟩⟩ := hr.back hj
    · have := hr.refCount
      lia
    · apply h.count j f' hf₀

/-! ### Adding a child -/

/-- The instance `child` has been made and is in the table of the folder `p`, whose instance was
`g` and is `g'`. -/
structure ChildAdded (s s' : Instances) (p : ℕ) (g g' child : FileInstance) : Prop where
  folder : s.inst p = some g
  inst : s'.inst = ((s.set p g').set s.made child).inst
  same : Same g g'
  refCount : g'.refCount = g.refCount + 1
  valid : g'.fileTable.Valid
  perm : ((child.nameHash.toNat, s.made) :: g.fileTable.entries).Perm g'.fileTable.entries
  parent : child.parent = some p
  first : child.refCount = 1
  empty : child.fileTable = HashSet.empty 0x10

namespace ChildAdded

variable {child : FileInstance} (ha : ChildAdded s s' p g g' child) (h : Inv s refs)

include ha

theorem inst_child : s'.inst s.made = some child := by
  rw [ha.inst, set_inst_self]

theorem entries_child : child.fileTable.entries = [] := by
  rw [ha.empty, HashSet.entries_empty]

include h

/-- An instance is the child, the folder, or as it was. -/
theorem back (hj : s'.inst j = some f) :
  j = s.made ∧ f = child ∨
    j < s.made ∧ ∃ f₀, s.inst j = some f₀ ∧ Same f₀ f ∧ (j = p ∧ f = g' ∨ j ≠ p ∧ f = f₀)
  := by
  rw [ha.inst] at hj
  by_cases hjm : j = s.made
  · subst hjm
    rw [set_inst_self] at hj
    cases hj
    exact Or.inl ⟨rfl, rfl⟩
  · right
    rw [set_inst_of_ne hjm] at hj
    by_cases hjp : j = p
    · subst hjp
      rw [set_inst_self] at hj
      cases hj
      exact ⟨h.fresh j g ha.folder, g, ha.folder, ha.same, Or.inl ⟨rfl, rfl⟩⟩
    · rw [set_inst_of_ne hjp] at hj
      exact ⟨h.fresh j f hj, f, hj, Same.refl f, Or.inr ⟨hjp, rfl⟩⟩

/-- An instance that was there is still there. -/
theorem forth (hj : s.inst j = some f) :
  ∃ f', s'.inst j = some f' ∧ Same f f' ∧ (j = p ∧ f' = g' ∨ j ≠ p ∧ f' = f)
  := by
  rw [ha.inst, set_inst_of_ne (h.fresh j f hj).ne]
  by_cases hjp : j = p
  · subst hjp
    rw [ha.folder] at hj
    cases hj
    exact ⟨g', set_inst_self, ha.same, Or.inl ⟨rfl, rfl⟩⟩
  · rw [set_inst_of_ne hjp]
    exact ⟨f, hj, Same.refl f, Or.inr ⟨hjp, rfl⟩⟩

/-- Every instance is in the table of its folder. -/
theorem listed {q : ℕ} (hj : s'.inst j = some f) (hq : f.parent = some q) :
  ∃ g₁, s'.inst q = some g₁ ∧ (f.nameHash.toNat, j) ∈ g₁.fileTable.entries
  := by
  obtain ⟨rfl, rfl⟩ | ⟨-, f₀, hf₀, hs, -⟩ := ha.back h hj
  · have hq' : some p = some q := by
      rw [← hq, ha.parent]
    cases hq'
    obtain ⟨f'', hf'', -, ⟨-, rfl⟩ | ⟨hne, -⟩⟩ := ha.forth h ha.folder
    · exact ⟨_, hf'', ha.perm.subset List.mem_cons_self⟩
    · apply absurd rfl hne
  · obtain ⟨g₀, hg₀, hin⟩ := h.listed j f₀ q hf₀ (hs.parent ▸ hq)
    obtain ⟨f'', hf'', -, ⟨rfl, rfl⟩ | ⟨-, rfl⟩⟩ := ha.forth h hg₀
    · refine ⟨_, hf'', ?_⟩
      have hfolder := ha.folder
      rw [hg₀] at hfolder
      cases hfolder
      rw [hs.nameHash]
      apply ha.perm.subset (List.mem_cons_of_mem _ hin)
    · exact ⟨_, hf'', hs.nameHash ▸ hin⟩

/-- The instances of a table are children of its folder. -/
theorem child_of_mem {q hash : ℕ} (hq : s'.inst q = some f) (hin : (hash, j) ∈ f.fileTable.entries) :
  ∃ f', s'.inst j = some f' ∧ f'.parent = some q ∧ hash = f'.nameHash.toNat
  := by
  have hold : ∀ {g₀}, s.inst q = some g₀ → (hash, j) ∈ g₀.fileTable.entries →
      ∃ f', s'.inst j = some f' ∧ f'.parent = some q ∧ hash = f'.nameHash.toNat := by
    intro g₀ hg₀ hin₀
    obtain ⟨f₀, hf₀, hpar, heq⟩ := h.child q g₀ hash j hg₀ hin₀
    obtain ⟨f', hf', hs, -⟩ := ha.forth h hf₀
    exact ⟨f', hf', hs.parent.trans hpar, by rw [hs.nameHash, heq]⟩
  obtain ⟨-, rfl⟩ | ⟨-, g₀, hg₀, -, ⟨rfl, rfl⟩ | ⟨-, rfl⟩⟩ := ha.back h hq
  · rw [ha.entries_child] at hin
    cases hin
  · obtain heq | hin := List.mem_cons.1 (ha.perm.symm.subset hin)
    · cases heq
      exact ⟨child, ha.inst_child, ha.parent, rfl⟩
    · apply hold ha.folder hin
  · apply hold hg₀ hin

/-- A table has no instance twice. -/
theorem nodup (hq : s'.inst i = some f) : (f.fileTable.entries.map Prod.snd).Nodup := by
  obtain ⟨-, rfl⟩ | ⟨-, g₀, hg₀, -, ⟨rfl, rfl⟩ | ⟨-, rfl⟩⟩ := ha.back h hq
  · rw [ha.entries_child]
    apply List.nodup_nil
  · rw [← (ha.perm.map Prod.snd).nodup_iff, List.map_cons, List.nodup_cons]
    refine ⟨?_, h.nodup i g ha.folder⟩
    intro hin
    obtain ⟨⟨hash, j⟩, hin, rfl⟩ := List.mem_map.1 hin
    obtain ⟨f₀, hf₀, -⟩ := h.child i g hash _ ha.folder hin
    have := h.fresh _ f₀ hf₀
    omega
  · apply h.nodup i f hg₀

/-- The children of a folder have different names, when the name of the new one was not taken. -/
theorem distinct {f₁ f₂ : FileInstance}
    (hfree : ∀ j f, s.inst j = some f → f.parent = some p → nameEqual f.name child.name = true → False)
    (hi : s'.inst i = some f₁) (hj : s'.inst j = some f₂) (hpar : f₁.parent ≠ none)
    (heq : f₁.parent = f₂.parent) (hnames : nameEqual f₁.name f₂.name = true) :
  i = j
  := by
  obtain ⟨rfl, rfl⟩ | ⟨-, f₁', hf₁', hs₁, -⟩ := ha.back h hi
  · obtain ⟨rfl, rfl⟩ | ⟨-, f₂', hf₂', hs₂, -⟩ := ha.back h hj
    · rfl
    · exfalso
      rw [ha.parent] at heq
      apply hfree j f₂' hf₂' (hs₂.parent ▸ heq.symm)
      rw [nameEqual_comm, ← hs₂.name]
      apply hnames
  · obtain ⟨rfl, rfl⟩ | ⟨-, f₂', hf₂', hs₂, -⟩ := ha.back h hj
    · exfalso
      rw [ha.parent] at heq
      apply hfree i f₁' hf₁' (hs₁.parent ▸ heq)
      rw [← hs₁.name]
      apply hnames
    · rw [hs₁.parent] at hpar heq
      rw [hs₂.parent] at heq
      rw [hs₁.name, hs₂.name] at hnames
      apply h.distinct i j f₁' f₂' hf₁' hf₂' hpar heq hnames

/-- The child is referred to once, and the folder once more. -/
theorem count (hj : s'.inst j = some f) :
  f.refCount = (refs j + if some s.made = some j then 1 else 0) + f.fileTable.entries.length
  := by
  have hlen := ha.perm.length_eq
  rw [List.length_cons] at hlen
  have hg := h.count p g ha.folder
  obtain ⟨rfl, rfl⟩ | ⟨hjm, f₀, hf₀, -, ⟨rfl, rfl⟩ | ⟨-, rfl⟩⟩ := ha.back h hj
  · rw [ha.first, if_pos rfl, h.no_refs, ha.entries_child]
    rfl
  · rw [ha.refCount, if_neg (by simpa using hjm.ne')]
    lia
  · rw [if_neg (by simpa using hjm.ne')]
    apply h.count j f hf₀

end ChildAdded

/-- The instance of a record whose name is not in the table of the folder. -/
theorem Inv.add (h : Inv s refs) {r : Record} (hp : s.inst p = some g) (hfind : s.find g str = none)
    (hname : nameEqual r.name str = true) (hhash : r.nameHash = nameHash str) :
  Inv { (s.set p { g with
      fileTable := g.fileTable.insert r.nameHash.toNat s.made
      refCount := g.refCount + 1 }).set s.made
        { parent := some p, name := r.name, nameHash := r.nameHash, isFolder := r.isFolder } with
      made := s.made + 1 }
    (fun j => refs j + if some s.made = some j then 1 else 0)
  := by
  obtain ⟨g', hg'⟩ : ∃ g' : FileInstance, g' = { g with
    fileTable := g.fileTable.insert r.nameHash.toNat s.made, refCount := g.refCount + 1 } := ⟨_, rfl⟩
  obtain ⟨child, hchild⟩ : ∃ child : FileInstance, child =
    { parent := some p, name := r.name, nameHash := r.nameHash, isFolder := r.isFolder } :=
      ⟨_, rfl⟩
  have hcname : child.name = r.name := congrArg FileInstance.name hchild
  have hchash : child.nameHash = r.nameHash := congrArg FileInstance.nameHash hchild
  rw [← hchild, ← hg']
  have ha : ChildAdded s { (s.set p g').set s.made child with made := s.made + 1 } p g g' child := by
    obtain ⟨hvalid, hperm⟩ := (h.valid p g hp).insert r.nameHash.toNat s.made
    subst hg' hchild
    exact ⟨hp, rfl, ⟨rfl, rfl, rfl, rfl⟩, rfl, hvalid, hperm, rfl, rfl, rfl⟩
  -- a child of the folder with the name would have been found
  have hfree : ∀ j f, s.inst j = some f → f.parent = some p → nameEqual f.name child.name = true →
      False := by
    intro j f hj hpar heq
    rw [hcname] at heq
    have := h.find_child hj hpar hp (nameEqual_trans heq hname)
    rw [hfind] at this
    cases this
  constructor
  · apply Nat.lt_of_lt_of_le h.root (Nat.le_add_right _ _)
  · intro j hj
    by_cases hjm : j = s.made
    · subst hjm
      exact ⟨child, ha.inst_child⟩
    · rw [if_neg (by simpa using Ne.symm hjm)] at hj
      obtain ⟨f₀, hf₀⟩ := h.alive j hj
      obtain ⟨f', hf', -⟩ := ha.forth h hf₀
      exact ⟨f', hf'⟩
  · intro j f hj
    obtain ⟨rfl, -⟩ | ⟨hjm, -⟩ := ha.back h hj
    · apply Nat.lt_succ_self
    · apply Nat.lt_succ_of_lt hjm
  · intro j f hj hnone
    obtain ⟨-, rfl⟩ | ⟨-, f₀, hf₀, hs, -⟩ := ha.back h hj
    · rw [ha.parent] at hnone
      cases hnone
    · apply h.orphan j f₀ hf₀ (hs.parent ▸ hnone)
  · intro j f q hj hq
    obtain ⟨rfl, rfl⟩ | ⟨-, f₀, hf₀, hs, -⟩ := ha.back h hj
    · rw [ha.parent] at hq
      cases hq
      apply h.fresh p g hp
    · apply h.below j f₀ q hf₀ (hs.parent ▸ hq)
  · intro j f q
    apply ha.listed h
  · intro q f hash j
    apply ha.child_of_mem h
  · intro q f
    apply ha.nodup h
  · intro j f hj
    obtain ⟨-, rfl⟩ | ⟨-, f₀, hf₀, -, ⟨rfl, rfl⟩ | ⟨-, rfl⟩⟩ := ha.back h hj
    · rw [ha.empty]
      apply HashSet.valid_empty
      decide
    · apply ha.valid
    · apply h.valid j f hf₀
  · intro j f hj hpar
    obtain ⟨-, rfl⟩ | ⟨-, f₀, hf₀, hs, -⟩ := ha.back h hj
    · rw [hchash, hcname, hhash, nameHash_of_nameEqual hname]
    · rw [hs.nameHash, hs.name]
      apply h.hash j f₀ hf₀ (hs.parent ▸ hpar)
  · intro i j f₁ f₂
    apply ha.distinct h hfree
  · intro j f
    apply ha.count h

end Instances

end UOS
