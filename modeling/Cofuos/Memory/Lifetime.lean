import Cofuos.Memory.Builds
import Cofuos.Memory.Reachable

/-!
# The frames of an address space, from its construction to its end

A space counts the frames it owns, and its destructor gives each of them back once. Throughout
its life the physical memory manager serves others as well; the frames these hold are recorded
beside the space, and are all that is in use when the space is gone.
-/

namespace UOS

open Fault

namespace Vspace

variable {debug : Bool} {vs vs' : Vspace}

/-! ### The order of the destructor -/

/-- The owners of a table and its pages, in the order of the destructor. -/
def tableOwners (t : ℕ) : List Owner :=
  (List.range 0x200).map (fun i => .page (t * 0x200 + i)) ++ [.table t]

/-- The owners of a directory and its tables, in the order of the destructor. -/
def directoryOwners (i : ℕ) : List Owner :=
  (List.range 0x200).flatMap (fun j => tableOwners (i * 0x200 + j)) ++ [.directory i]

/-- All owners of a space, in the order of the destructor. -/
def owners : List Owner := (List.range 0x200).flatMap directoryOwners ++ [.pl4te, .cr3]

theorem mem_tableOwners {o : Owner} {t : ℕ} :
  o ∈ tableOwners t ↔ (∃ q, o = .page q ∧ q / 0x200 = t) ∨ o = .table t
  := by
  simp only [tableOwners, List.mem_append, List.mem_map, List.mem_range, List.mem_singleton]
  apply or_congr_left
  constructor
  · rintro ⟨i, hi, rfl⟩
    exact ⟨_, rfl, by lia⟩
  · rintro ⟨q, rfl, hq⟩
    exact ⟨q % 0x200, by lia, by congr 1; lia⟩

theorem mem_directoryOwners {o : Owner} {i : ℕ} :
  o ∈ directoryOwners i ↔ (∃ q, o = .page q ∧ q / 0x200 / 0x200 = i) ∨
    (∃ t, o = .table t ∧ t / 0x200 = i) ∨ o = .directory i
  := by
  simp only [directoryOwners, List.mem_append, List.mem_flatMap, List.mem_range,
    List.mem_singleton, mem_tableOwners]
  constructor
  · rintro (⟨j, hj, ⟨q, rfl, hq⟩ | rfl⟩ | rfl)
    · exact .inl ⟨q, rfl, by lia⟩
    · exact .inr (.inl ⟨_, rfl, by lia⟩)
    · exact .inr (.inr rfl)
  · rintro (⟨q, rfl, hq⟩ | ⟨t, rfl, ht⟩ | rfl)
    · exact .inl ⟨q / 0x200 % 0x200, by lia, .inl ⟨q, rfl, by lia⟩⟩
    · exact .inl ⟨t % 0x200, by lia, .inr (by congr 1; lia)⟩
    · exact .inr rfl

/-- The destructor comes to no owner twice. -/
theorem nodup_owners : owners.Nodup := by
  have htable : ∀ t, (tableOwners t).Nodup := by
    intro t
    rw [tableOwners, List.nodup_append]
    refine ⟨List.nodup_range.map ?_, List.nodup_singleton _, ?_⟩
    · intro i j hij
      simp only [Owner.page.injEq] at hij
      lia
    · intro o ho o' ho' heq
      simp only [List.mem_map, List.mem_singleton] at ho ho'
      obtain ⟨i, -, rfl⟩ := ho
      subst ho'
      cases heq
  have hdirectory : ∀ i, (directoryOwners i).Nodup := by
    intro i
    rw [directoryOwners, List.nodup_append]
    refine ⟨?_, List.nodup_singleton _, ?_⟩
    · rw [List.nodup_flatMap]
      refine ⟨fun j _ => htable _, ?_⟩
      apply List.nodup_range.pairwise_of_forall_ne
      intro j _ k _ hne o ho ho'
      rw [mem_tableOwners] at ho ho'
      rcases ho with ⟨q, rfl, hq⟩ | rfl
      · rcases ho' with ⟨q', heq, hq'⟩ | heq
        · cases heq
          lia
        · cases heq
      · rcases ho' with ⟨q', heq, hq'⟩ | heq
        · cases heq
        · simp only [Owner.table.injEq] at heq
          lia
    · intro o ho o' ho' heq
      simp only [List.mem_flatMap, List.mem_singleton, mem_tableOwners] at ho ho'
      subst ho' heq
      obtain ⟨j, -, ⟨q, hc, -⟩ | hc⟩ := ho
      · cases hc
      · cases hc
  rw [owners, List.nodup_append]
  refine ⟨?_, by decide, ?_⟩
  · rw [List.nodup_flatMap]
    refine ⟨fun i _ => hdirectory i, ?_⟩
    apply List.nodup_range.pairwise_of_forall_ne
    intro i _ j _ hne o ho ho'
    rw [mem_directoryOwners] at ho ho'
    rcases ho with ⟨q, rfl, hq⟩ | ⟨t, rfl, ht⟩ | rfl
    · rcases ho' with ⟨q', heq, hq'⟩ | ⟨t', heq, -⟩ | heq
      · cases heq
        lia
      · cases heq
      · cases heq
    · rcases ho' with ⟨q', heq, -⟩ | ⟨t', heq, ht'⟩ | heq
      · cases heq
      · cases heq
        lia
      · cases heq
    · rcases ho' with ⟨q', heq, -⟩ | ⟨t', heq, -⟩ | heq
      · cases heq
      · cases heq
      · cases heq
        apply hne rfl
  · intro o ho o' ho' heq
    simp only [List.mem_flatMap, mem_directoryOwners] at ho
    subst heq
    obtain ⟨i, -, ⟨q, rfl, -⟩ | ⟨t, rfl, -⟩ | rfl⟩ := ho
    · simp at ho'
    · simp at ho'
    · simp at ho'

/-- The frames of a space, in the order in which the destructor gives them back. -/
def frames (vs : Vspace) : List ℕ := owners.filterMap vs.frameOf

/-- The destructor comes to every frame. -/
theorem mem_frames (hb : vs.Bounded) {f : ℕ} :
  f ∈ vs.frames ↔ ∃ o, vs.frameOf o = some f
  := by
  rw [frames, List.mem_filterMap]
  constructor
  · rintro ⟨o, -, ho⟩
    exact ⟨o, ho⟩
  · rintro ⟨o, ho⟩
    refine ⟨o, ?_, ho⟩
    have htable : ∀ t, vs.hasTable t = true → t / 0x200 < 0x200 := by
      intro t ht
      rw [hasTable, Bool.and_eq_true] at ht
      apply hb _ ht.1
    simp only [owners, List.mem_append, List.mem_flatMap, List.mem_range, mem_directoryOwners]
    cases o with
    | cr3 => simp
    | pl4te => simp
    | directory i =>
        left
        rw [frameOf] at ho
        split_ifs at ho with hp
        exact ⟨i, hb i hp, .inr (.inr rfl)⟩
    | table t =>
        left
        rw [frameOf] at ho
        split_ifs at ho with hp
        exact ⟨_, htable t hp, .inr (.inl ⟨t, rfl, rfl⟩)⟩
    | page q =>
        left
        have hhas : vs.hasTable (q / 0x200) = true := by
          by_contra hne
          rw [Bool.not_eq_true] at hne
          rw [frameOf, entry_of_not_hasTable hne] at ho
          cases ho
        exact ⟨_, htable _ hhas, .inl ⟨q, rfl, rfl⟩⟩

/-- The frames of a space are pairwise different. -/
theorem nodup_frames (h : Owned vs.frameOf vs.pm.used) : vs.frames.Nodup := by
  rw [frames]
  exact List.Nodup.filterMap (fun o o' f ho ho' => h.distinct o o' f ho ho') nodup_owners

/-- The frames in use are those of the space and the others. -/
theorem used_eq (hb : vs.Bounded) :
  vs.pm.used \ vs.frames.toFinset = vs.foreign
  := by
  ext f
  rw [Finset.mem_sdiff, List.mem_toFinset, mem_frames hb, mem_foreign, not_exists]

/-- A space counts its frames when it has as many as it counts. -/
theorem counted_iff (h : Owned vs.frameOf vs.pm.used) (hb : vs.Bounded) :
  vs.Counted ↔ vs.frames.length = vs.usedPages
  := by
  have hsub : vs.frames.toFinset ⊆ vs.pm.used := by
    intro f hf
    rw [List.mem_toFinset, mem_frames hb] at hf
    obtain ⟨o, ho⟩ := hf
    apply h.used o f ho
  have hcard := Finset.card_sdiff_add_card_eq_card hsub
  rw [used_eq hb, List.toFinset_card_of_nodup (nodup_frames h)] at hcard
  rw [Counted]
  lia

/-! ### What the destructor does -/

/-- Gives back the frames of owners. -/
def giveBack (vs : Vspace) (l : List Owner) (pm : FramePool) : Except Fault FramePool :=
  (l.filterMap vs.frameOf).foldlM FramePool.release pm

theorem giveBack_append (l l' : List Owner) (pm : FramePool) :
  vs.giveBack (l ++ l') pm = vs.giveBack l pm >>= vs.giveBack l'
  := by
  simp only [giveBack, List.filterMap_append, List.foldlM_append]
  rfl

theorem giveBack_flatMap {α : Type} {l : List α} {g : α → List Owner}
    {f : FramePool → α → Except Fault FramePool}
    (h : ∀ x ∈ l, ∀ pm, f pm x = vs.giveBack (g x) pm) (pm : FramePool) :
  vs.giveBack (l.flatMap g) pm = l.foldlM f pm
  := by
  induction l generalizing pm with
  | nil => rfl
  | cons x l ih =>
      rw [List.flatMap_cons, giveBack_append, List.foldlM_cons, h x List.mem_cons_self]
      congr 1
      funext pm'
      apply ih
      intro y hy
      apply h y (List.mem_cons_of_mem _ hy)

theorem giveBack_singleton {o : Owner} {f : ℕ} (h : vs.frameOf o = some f) (pm : FramePool) :
  vs.giveBack [o] pm = pm.release f
  := by
  simp only [giveBack, List.filterMap_cons, h, List.filterMap_nil, List.foldlM_cons,
    List.foldlM_nil]
  cases pm.release f with
  | error e => rfl
  | ok pm' => rfl

theorem giveBack_none {l : List Owner} (h : ∀ o ∈ l, vs.frameOf o = none) (pm : FramePool) :
  vs.giveBack l pm = .ok pm
  := by
  rw [giveBack, List.filterMap_eq_nil_iff.mpr h]
  rfl

/-- The destructor gives back the frames of a table. -/
theorem destroyTable_eq (h : Inv false vs) {t : ℕ} (hdir : (vs.pdpt (t / 0x200)).present = true)
    (pm : FramePool) :
  destroyTable debug vs t pm = vs.giveBack (tableOwners t) pm
  := by
  rw [destroyTable]
  by_cases hp : (vs.pdt t).present = true
  · have hhas : vs.hasTable t = true := by
      rw [hasTable, hdir, hp, Bool.and_self]
    have hentry : ∀ i < 0x200, vs.entry (t * 0x200 + i) = (vs.pt t i).untagged := by
      intro i hi
      have hview := view_eq hhas hi
      rwa [view] at hview
    have hpages : ∀ i ∈ List.range 0x200, ∀ pm : FramePool, (do
        if (vs.pt t i).present = true then
          assert debug ((vs.pt t i).user = true)
          pm.release (vs.pt t i).pageAddr
        else
          return pm) = vs.giveBack [.page (t * 0x200 + i)] pm := by
      intro i hi pm
      rw [List.mem_range] at hi
      have hord := h.entry (t * 0x200 + i)
      have hframe : vs.frameOf (.page (t * 0x200 + i)) = (vs.pt t i).frame := by
        rw [frameOf, hentry i hi, PTE.frame_untagged]
      by_cases hpt : (vs.pt t i).present = true
      · rw [hentry i hi] at hord
        obtain ⟨huser, haddr⟩ : (vs.pt t i).user = true ∧ (vs.pt t i).pageAddr ≠ 0 :=
          (hord.mapped hpt).2
        rw [if_pos hpt, assert_eq_ok (fun _ => huser), Except.ok_bind]
        rw [giveBack_singleton (f := (vs.pt t i).pageAddr)]
        rw [hframe, PTE.frame, if_pos ⟨hpt, haddr⟩]
      · rw [if_neg hpt, giveBack_none]
        · rfl
        · intro o ho
          rw [List.mem_singleton] at ho
          rw [ho, hframe, PTE.frame, if_neg fun hc => hpt hc.1]
    have htable : vs.frameOf (.table t) = some (vs.pdt t).ptAddr := by
      rw [frameOf, if_pos hhas]
    rw [if_pos hp, tableOwners, giveBack_append, List.map_eq_flatMap, giveBack_flatMap hpages]
    congr 1
    funext pm'
    rw [giveBack_singleton htable]
  · rw [if_neg hp, giveBack_none]
    · rfl
    · have hhas : vs.hasTable t = false := by
        rw [Bool.not_eq_true] at hp
        rw [hasTable, hp, Bool.and_false]
      intro o ho
      rw [mem_tableOwners] at ho
      rcases ho with ⟨q, rfl, hq⟩ | rfl
      · rw [frameOf, entry_of_not_hasTable (by rw [hq, hhas])]
        rfl
      · rw [frameOf, hhas]
        rfl

/-- The destructor gives back the frames of a directory. -/
theorem destroyDirectory_eq (h : Inv false vs) (i : ℕ) (pm : FramePool) :
  destroyDirectory debug vs i pm = vs.giveBack (directoryOwners i) pm
  := by
  rw [destroyDirectory]
  by_cases hp : (vs.pdpt i).present = true
  · have htables : ∀ j ∈ List.range 0x200, ∀ pm, destroyTable debug vs (i * 0x200 + j) pm =
        vs.giveBack (tableOwners (i * 0x200 + j)) pm := by
      intro j hj pm
      rw [List.mem_range] at hj
      apply destroyTable_eq h
      rwa [show (i * 0x200 + j) / 0x200 = i by lia]
    have hdir : vs.frameOf (.directory i) = some (vs.pdpt i).pdtAddr := by
      rw [frameOf, if_pos hp]
    rw [if_pos hp, directoryOwners, giveBack_append, giveBack_flatMap htables]
    congr 1
    funext pm'
    rw [giveBack_singleton hdir]
  · rw [if_neg hp, giveBack_none]
    · rfl
    · rw [Bool.not_eq_true] at hp
      intro o ho
      rw [mem_directoryOwners] at ho
      have hhas : ∀ t, t / 0x200 = i → vs.hasTable t = false := by
        rintro t rfl
        rw [hasTable, hp, Bool.false_and]
      rcases ho with ⟨q, rfl, hq⟩ | ⟨t, rfl, ht⟩ | rfl
      · rw [frameOf, entry_of_not_hasTable (hhas _ hq)]
        rfl
      · rw [frameOf, hhas t ht]
        rfl
      · rw [frameOf, hp]
        rfl

/-- The destructor gives back the frames of the space, one after the other. -/
theorem destroy_eq (h : Inv false vs) :
  destroy debug vs = vs.frames.foldlM FramePool.release vs.pm
  := by
  have hlast : ∀ pm : FramePool, vs.giveBack [.pl4te, .cr3] pm =
      pm.release vs.pl4te >>= fun pm => pm.release vs.cr3 := by
    intro pm
    rw [show [Owner.pl4te, .cr3] = [.pl4te] ++ [.cr3] from rfl, giveBack_append,
      giveBack_singleton (f := vs.pl4te) rfl]
    congr 1
    funext pm'
    rw [giveBack_singleton (f := vs.cr3) rfl]
  change _ = vs.giveBack owners vs.pm
  rw [destroy, owners, giveBack_append,
    giveBack_flatMap (fun i _ pm => destroyDirectory_eq h i pm)]
  congr 1
  funext pm
  rw [hlast]

/-- Frames that are in use are given back one after the other. -/
theorem release_all {l : List ℕ} (hnd : l.Nodup) {pm : FramePool} (hsub : ∀ f ∈ l, f ∈ pm.used) :
  ∃ pm', l.foldlM FramePool.release pm = .ok pm' ∧ pm'.used = pm.used \ l.toFinset
  := by
  induction l generalizing pm with
  | nil => exact ⟨pm, rfl, by simp⟩
  | cons f l ih =>
      obtain ⟨hf, hnd'⟩ := List.nodup_cons.mp hnd
      have hrel : pm.release f = .ok { pm with used := pm.used.erase f } := by
        rw [FramePool.release, if_pos (hsub f List.mem_cons_self)]
      have hsub' : ∀ g ∈ l, g ∈ ({ pm with used := pm.used.erase f } : FramePool).used := by
        intro g hg
        simp only [Finset.mem_erase]
        refine ⟨?_, hsub g (List.mem_cons_of_mem _ hg)⟩
        rintro rfl
        apply hf hg
      obtain ⟨pm', heq, hused⟩ := ih hnd' hsub'
      refine ⟨pm', ?_, ?_⟩
      · rw [List.foldlM_cons, hrel, Except.ok_bind, heq]
      · rw [hused]
        ext g
        simp only [Finset.mem_sdiff, Finset.mem_erase, List.toFinset_cons, Finset.mem_insert]
        tauto

/-! ### The life of a space -/

/-- The spaces that can be reached from a new one by requests that return, with the frames that
others hold. Between two requests the others may get frames and give frames back, but only their
own. -/
inductive Lifetime (debug : Bool) (pm₀ : FramePool) : Vspace → Finset ℕ → Prop
  | create : Lifetime debug pm₀ (create pm₀) pm₀.used
  | request {vs vs' : Vspace} {others : Finset ℕ} {res : ℕ} (r : Request) :
      Lifetime debug pm₀ vs others → r.exec debug vs = .ok (res, vs') →
      Lifetime debug pm₀ vs' others
  | others {vs : Vspace} {others : Finset ℕ} (pm : FramePool) (others' : Finset ℕ) :
      Lifetime debug pm₀ vs others → (∀ f ∈ others', ∀ o, vs.frameOf o ≠ some f) →
      (∀ f, f ∈ pm.used ↔ f ∈ others' ∨ ∃ o, vs.frameOf o = some f) →
      Lifetime debug pm₀ { vs with pm := pm } others'

/-- The frames that are foreign to a new space are those in use before it. -/
theorem foreign_create (pm : FramePool) :
  (create pm).foreign = pm.used ∧ (create pm).Counted ∧ (create pm).Bounded
  := by
  obtain ⟨hnew₁, hused₁⟩ := allocate_must pm
  obtain ⟨hnew₂, hused₂⟩ := allocate_must (pm.allocate .MUST_SUCCEED).2
  obtain ⟨hnew₃, hused₃⟩ := allocate_must ((pm.allocate .MUST_SUCCEED).2.allocate .MUST_SUCCEED).2
  have hused : (create pm).pm.used = Insert.insert ((create pm).pdpt 0).pdtAddr
      (Insert.insert (create pm).pl4te (Insert.insert (create pm).cr3 pm.used)) := by
    rw [show (create pm).pm.used = _ from hused₃, hused₂, hused₁]
    rfl
  have hown : ∀ f, (∀ o, (create pm).frameOf o ≠ some f) ↔ f ≠ ((create pm).pdpt 0).pdtAddr ∧
      f ≠ (create pm).pl4te ∧ f ≠ (create pm).cr3 := by
    intro f
    constructor
    · intro hall
      refine ⟨?_, ?_, ?_⟩
      · rintro rfl
        apply hall (.directory 0)
        rw [frameOf_create, if_pos rfl]
      · rintro rfl
        apply hall .pl4te rfl
      · rintro rfl
        apply hall .cr3 rfl
    · rintro ⟨h₁, h₂, h₃⟩ o heq
      rw [frameOf_create] at heq
      split_ifs at heq
      · cases heq
        apply h₁ rfl
      · cases heq
        apply h₂ rfl
      · cases heq
        apply h₃ rfl
  replace hnew₁ : (create pm).cr3 ∉ pm.used := hnew₁
  replace hnew₂ : (create pm).pl4te ∉ Insert.insert (create pm).cr3 pm.used := hused₁ ▸ hnew₂
  replace hnew₃ : ((create pm).pdpt 0).pdtAddr ∉
      Insert.insert (create pm).pl4te (Insert.insert (create pm).cr3 pm.used) := by
    rw [hused₂, hused₁] at hnew₃
    apply hnew₃
  have hforeign : (create pm).foreign = pm.used := by
    ext f
    rw [mem_foreign, hown, hused]
    simp only [Finset.mem_insert]
    constructor
    · rintro ⟨hf, h₁, h₂, h₃⟩
      apply ((hf.resolve_left h₁).resolve_left h₂).resolve_left h₃
    · intro hf
      refine ⟨.inr (.inr (.inr hf)), ?_, ?_, ?_⟩
      · rintro rfl
        apply hnew₃ (Finset.mem_insert_of_mem (Finset.mem_insert_of_mem hf))
      · rintro rfl
        apply hnew₂ (Finset.mem_insert_of_mem hf)
      · rintro rfl
        apply hnew₁ hf
  refine ⟨hforeign, ?_, ?_⟩
  · rw [Counted, hforeign, hused, Finset.card_insert_of_notMem hnew₃,
      Finset.card_insert_of_notMem hnew₂, Finset.card_insert_of_notMem hnew₁]
    rfl
  · intro i hi
    by_cases h0 : i = 0
    · omega
    · simp [create, h0] at hi

/-- A space keeps account of its frames throughout its life. A request that returns in a debug
build is one of the release build, whose requests keep the space in order. -/
theorem Lifetime.account {pm₀ : FramePool} {others : Finset ℕ}
    (h : Lifetime debug pm₀ vs others) :
  Inv false vs ∧ vs.foreign = others ∧ vs.Counted ∧ vs.Bounded
  := by
  induction h with
  | create =>
      obtain ⟨hforeign, hcounted, hbounded⟩ := foreign_create pm₀
      exact ⟨inv_create false pm₀, hforeign, hcounted, hbounded⟩
  | request r _ heq ih =>
      obtain ⟨hinv, hforeign, hcounted, hbounded⟩ := ih
      obtain ⟨res', vs₁, heq', hinv', hbal⟩ := exec_inv hinv r (by simp)
      rw [exec_within debug _ r _ heq] at heq'
      cases heq'
      exact ⟨hinv', hbal.foreign.trans hforeign, hbal.counted hcounted, hbal.bounded hbounded⟩
  | @others vs others pm others' _ hdisjoint hused ih =>
      obtain ⟨hinv, hforeign, hcounted, hbounded⟩ := ih
      have hnew : foreign { vs with pm := pm } = others' := by
        ext f
        rw [mem_foreign]
        dsimp only
        rw [hused]
        constructor
        · rintro ⟨hf | ⟨o, ho⟩, hown⟩
          · apply hf
          · exact absurd ho (hown o)
        · intro hf
          exact ⟨.inl hf, hdisjoint f hf⟩
      have howned : Owned vs.frameOf pm.used :=
        ⟨fun o f heq => (hused f).mpr (.inr ⟨o, heq⟩), hinv.owned.distinct⟩
      refine ⟨⟨hinv.table, hinv.entry, hinv.bypass, howned⟩, hnew, ?_, hbounded⟩
      rw [counted_iff hinv.owned hbounded] at hcounted
      exact (@counted_iff { vs with pm := pm } howned hbounded).mpr hcounted

/-- Throughout its life a space has as many frames as it counts, and they are pairwise different.
The destructor gives each of them back once, and what is in use then is what others hold. If
these have not done anything meanwhile, it is what was in use before the construction. -/
theorem Lifetime.frames_balanced {pm₀ : FramePool} {others : Finset ℕ}
    (h : Lifetime debug pm₀ vs others) :
  (∀ o o' f, vs.frameOf o = some f → vs.frameOf o' = some f → o = o') ∧
    ∃ frames : List ℕ, frames.Nodup ∧ (∀ f, f ∈ frames ↔ ∃ o, vs.frameOf o = some f) ∧
      frames.length = vs.usedPages ∧
      destroy debug vs = frames.foldlM FramePool.release vs.pm ∧
      ∃ pm, destroy debug vs = .ok pm ∧ pm.used = others
  := by
  obtain ⟨hinv, hforeign, hcounted, hbounded⟩ := h.account
  have hnd := nodup_frames hinv.owned
  refine ⟨hinv.owned.distinct, vs.frames, hnd, fun f => mem_frames hbounded,
    (counted_iff hinv.owned hbounded).mp hcounted, destroy_eq hinv, ?_⟩
  have hsub : ∀ f ∈ vs.frames, f ∈ vs.pm.used := by
    intro f hf
    rw [mem_frames hbounded] at hf
    obtain ⟨o, ho⟩ := hf
    apply hinv.owned.used o f ho
  obtain ⟨pm, heq, hused⟩ := release_all hnd hsub
  refine ⟨pm, ?_, ?_⟩
  · rw [destroy_eq hinv, heq]
  · rw [hused, used_eq hbounded, hforeign]

/-- Two pages of a space are committed, and others get a frame. Then one of the pages is protected,
and the other one is released. After the end of the space the frame of the others is in use. -/
theorem frames_balanced_released :
  ∃ (vs : Vspace) (g f : ℕ) (a : Attributes), Lifetime false pool vs {g} ∧
    vs.map 0x200 = .free ∧ vs.map 0x201 = .committed f a ∧ a.write = false ∧
    vs.map 0x202 = .reserved ∧ ∃ pm, destroy false vs = .ok pm ∧ pm.used = {g}
  := by
  obtain ⟨vs₁, vs₂, heq₁, heq₂, hinv₂, hentry, hhole⟩ := commit_create
  have h₂ : Lifetime false pool vs₂ ∅ := (Lifetime.create.request _ heq₁).request _ heq₂
  obtain ⟨-, hforeign, -, -⟩ := h₂.account
  -- The others get a frame.
  obtain ⟨hnew, hused⟩ := allocate_must vs₂.pm
  generalize vs₂.pm.allocate .MUST_SUCCEED = r at hnew hused
  obtain ⟨g, pm⟩ := r
  have h₃ : Lifetime false pool { vs₂ with pm := pm } {g} := by
    apply h₂.others pm {g}
    · intro f hf o ho
      rw [Finset.mem_singleton] at hf
      subst hf
      apply hnew (hinv₂.owned.used o _ ho)
    · intro f
      have hown : f ∈ vs₂.pm.used ↔ ∃ o, vs₂.frameOf o = some f := by
        refine ⟨fun hf => ?_, fun ⟨o, ho⟩ => hinv₂.owned.used o f ho⟩
        by_contra hnone
        have hmem : f ∈ vs₂.foreign := by
          rw [mem_foreign]
          exact ⟨hf, not_exists.mp hnone⟩
        rw [hforeign] at hmem
        exact absurd hmem (Finset.notMem_empty f)
      rw [hused, Finset.mem_insert, Finset.mem_singleton, hown]
  obtain ⟨hinv₃, -⟩ := h₃.account
  generalize hvs₃ : { vs₂ with pm := pm } = vs₃ at h₃ hinv₃
  have hmap₃ : vs₃.map = vs₂.map := by
    rw [← hvs₃]
    rfl
  have hcommitted : ∀ p ∈ Run.mk 0x200 2, ∃ f a, vs₃.map p = .committed f a := by
    intro p hp
    obtain ⟨pt, f, hpt⟩ := hentry p hp
    refine ⟨f, (pt.committed f).attributes, ?_⟩
    rw [hmap₃, hinv₂.map_eq_iff (by simp) (by simp), hpt]
    rfl
  -- The second page is protected.
  obtain ⟨res₄, vs₄, heq₄, hout₄, hyes₄⟩ := exec_protect hinv₃ 0x201000 1 PAGE_XD
  have hpages₄ : (Request.protect 0x201000 1 PAGE_XD).pages = ⟨0x201, 1⟩ := rfl
  have hpre₄ : (Request.protect 0x201000 1 PAGE_XD).Pre vs₃.map := by
    intro p hp
    rw [hpages₄, Run.mem_iff] at hp
    apply hcommitted
    rw [Run.mem_iff]
    lia
  obtain ⟨-, -, hsame, hset⟩ := hout₄.success (hyes₄ (by decide) hpre₄)
  obtain ⟨f, a, hfirst⟩ := hcommitted 0x200 (by decide)
  obtain ⟨f', a', hsecond⟩ := hcommitted 0x201 (by decide)
  have hfirst₄ : vs₄.map 0x200 = .committed f a := by
    rw [hsame 0x200 (by decide), hfirst]
  have hsecond₄ := hset 0x201 (by decide) f' a' hsecond
  have hhole₄ : vs₄.map 0x202 = .reserved := by
    rw [hsame 0x202 (by decide), hmap₃, hhole]
  -- The first page is released.
  obtain ⟨res₅, vs₅, heq₅, hout₅, hyes₅⟩ := exec_release hout₄.inv
    (show false = true → (Request.release 0x200000 1).Safe vs₄ by simp)
  have hpages₅ : (Request.release 0x200000 1).pages = ⟨0x200, 1⟩ := rfl
  have hpre₅ : (Request.release 0x200000 1).Pre vs₄.map := by
    intro p hp
    rw [hpages₅, Run.mem_iff] at hp
    obtain rfl : p = 0x200 := by lia
    exact .inr ⟨f, a, hfirst₄⟩
  obtain ⟨-, -, hfreed⟩ := hout₅.success (hyes₅ (by decide) hpre₅)
  have hmap₅ : ∀ p, vs₅.map p = if p ∈ Run.mk 0x200 1 then .free else vs₄.map p := hfreed
  have h₅ : Lifetime false pool vs₅ {g} := (h₃.request _ heq₄).request _ heq₅
  obtain ⟨-, -, -, -, -, -, hpm⟩ := h₅.frames_balanced
  refine ⟨vs₅, g, f', a'.set PAGE_XD, h₅, ?_, ?_, ?_, ?_, hpm⟩
  · rw [hmap₅, if_pos (by decide)]
  · rw [hmap₅, if_neg (by decide), hsecond₄]
  · exact (show decide (PAGE_XD &&& PAGE_WRITE ≠ 0) = false by decide)
  · rw [hmap₅, if_neg (by decide), hhole₄]

end Vspace

end UOS
