import Cofuos.FileSystem.FolderTree

/-!
# Opening a path

`file::imp_open` of `kernel/filesystem/file.cpp` goes through the names of a path, from a folder to
which the caller has a reference. At every name the thread has one reference to the folder it has
reached, and gives back that to the folder before.

While the reference to the folder before is given back, the lock of the next one is held. If the
next folder is the parent, and there is no other reference to the folder, the destructor locks the
parent once more and never returns.
-/

namespace UOS

open Exfat

namespace Instances

/-! ### The code -/

/-- The thread does not go on. -/
inductive Halt where
  | fault (f : Fault)
  /-- It waits for a lock that it holds. -/
  | blocked (i : ℕ)
  deriving DecidableEq, Repr

/-- A call that does not wait for a lock that is held. -/
def call {α : Type} : Except Fault α → Except Halt α
  | .ok a => .ok a
  | .error f => .error (.fault f)

def DOT : BitVec 8 := 0x2E

def SLASH : BitVec 8 := 0x2F

/-- The destructor of an instance comes to an instance by way of `close`. -/
def closes (s : Instances) (held : ℕ) : ℕ → ℕ → Bool
  | 0, _ => false
  | n + 1, i =>
    match (s.inst i).bind FileInstance.parent with
    | none => false
    | some p => p = held || ((s.inst p).map FileInstance.refCount = some 1 && closes s held n p)

/-- `file_instance::relax`, while the lock of another instance is held. -/
def relaxHolding (debug : Bool) (s : Instances) (i held : ℕ) : Except Halt Instances := do
  let f ← call (s.deref i)
  if f.refCount = 1 ∧ s.closes held (i + 1) i = true then
    .error (.blocked held)
  else
    call (s.relax debug i)

/-- The instance that a name leads to. -/
def nextOf (s : Instances) (tree : Tree) (mode : BitVec 8) (cur : ℕ) (name : Name) :
    Except Halt (Option ℕ × Instances) :=
  if name = [DOT] then
    -- this folder
    return (some cur, s)
  else if name = [DOT, DOT] then do
    -- parent folder
    let f ← call (s.deref cur)
    match f.parent with
    | none => return (none, s)
    | some p =>
      let s ← call (s.acquire p)
      return (some p, s)
  else
    call (s.openChild cur name mode (tree (s.path cur)))

/-- The loop of `imp_open`, from a folder and for the rest of the path. -/
def openLoop (debug : Bool) (tree : Tree) (mode : BitVec 8) :
    ℕ → Instances → ℕ → Name → Except Halt (Option ℕ × Instances)
  | 0, _, _, _ => .error (.fault .outOfFuel)
  | n + 1, s, cur, path =>
    if path = [] then
      -- got folder
      if mode &&& ALLOW_FOLDER ≠ 0 then
        return (some cur, s)
      else do
        let s ← call (s.relax debug cur)
        return (none, s)
    else
      let name := path.takeWhile (· ≠ SLASH)
      let rest := path.dropWhile (· ≠ SLASH)
      if name = [] then do
        let s ← call (s.relax debug cur)
        return (none, s)
      else do
        let (next, s) ← s.nextOf tree (if rest = [] then mode else ALLOW_FOLDER) cur name
        match next with
        | none =>
          let s ← call (s.relax debug cur)
          return (none, s)
        | some next =>
          if rest = [] then
            -- got file
            let s ← call (s.relax debug cur)
            return (some next, s)
          else
            let f ← call (s.deref next)
            call (Fault.assert debug (f.isFolder = true))
            if next ≠ cur then
              let s ← s.relaxHolding debug cur next
              openLoop debug tree mode n s next rest.tail
            else
              openLoop debug tree mode n s cur rest.tail

/-- `file::imp_open` -/
def impOpen (debug : Bool) (tree : Tree) (s : Instances) (cur : ℕ) (path : Name)
    (mode : BitVec 8) : Except Halt (Option ℕ × Instances) :=
  openLoop debug tree mode (path.length + 1) s cur path

/-! ### What a path means -/

/-- The parts of a path between its slashes. -/
def components : Name → List Name
  | [] => [[]]
  | ch :: path =>
    if ch = SLASH then [] :: components path
    else (ch :: (components path).headD []) :: (components path).tail

/-- The child of a folder with a name. Its sizes are in order. -/
def childOf (tree : Tree) (node : List Name) (str : Name) : Option Record :=
  (tree node).find? fun r => nameEqual r.name str && r.intact

/-- What a name means in a folder: `.` is the folder itself, `..` its parent, and any other name one
of its children. -/
def target (tree : Tree) (node : List Name) (str : Name) : Option (List Name × Bool) :=
  if str = [DOT] then some (node, true)
  else if str = [DOT, DOT] then (if node = [] then none else some (node.dropLast, true))
  else (childOf tree node str).map fun r => (node ++ [r.name], r.isFolder)

/-- What the names of a path mean from a folder on. All but the last lead to folders, and the last
one may be empty. -/
def resolve (tree : Tree) : List Name → List Name → Option (List Name × Bool)
  | _, [] => none
  | node, [str] => if str = [] then some (node, true) else target tree node str
  | node, str :: strs =>
    if str = [] then none
    else (target tree node str).bind fun next =>
      if next.2 = true then resolve tree next.1 strs else none

/-- What a path means, if the mode allows its kind. -/
def meaning (tree : Tree) (node : List Name) (path : Name) (mode : BitVec 8) :
    Option (List Name × Bool) :=
  (resolve tree node (components path)).filter fun x => allows mode x.2

/-- The names of the children of a folder are different, in whatever case of the letters, and their
hashes are right. -/
structure Tree.Proper (tree : Tree) : Prop where
  hash : ∀ node, ∀ r ∈ tree node, r.nameHash = nameHash r.name
  distinct : ∀ node, ∀ r ∈ tree node, ∀ r' ∈ tree node, nameEqual r.name r'.name = true → r = r'

/-- The references without that of the caller. -/
def without (refs : ℕ → ℕ) (cur : ℕ) : ℕ → ℕ := Function.update refs cur (refs cur - 1)

/-- The references with one to the instance that is returned. -/
def withResult (refs : ℕ → ℕ) (res : Option ℕ) : ℕ → ℕ :=
  fun j => refs j + if res = some j then 1 else 0

/-- The names and the kind of an instance that is returned. -/
def shown (s : Instances) (res : Option ℕ) : Option (List Name × Option Bool) :=
  res.map fun i => (s.path i, (s.inst i).map FileInstance.isFolder)

/-- The path is opened as it should be: what is returned is the instance of what the path means,
with a new reference, and instead of it the caller has lost the reference to the folder it started
from. Instances that have no reference any more are gone. -/
def Opens (debug : Bool) (tree : Tree) (s : Instances) (refs : ℕ → ℕ) (cur : ℕ) (path : Name)
    (mode : BitVec 8) : Prop :=
  ∃ res s', impOpen debug tree s cur path mode = .ok (res, s') ∧
    Outcome s s' (withResult (without refs cur) res) ∧
    s'.shown res = (meaning tree (s.path cur) path mode).map fun x => (x.1, some x.2)

/-- Someone has a reference to a folder or to what is below it. -/
def Held (s : Instances) (refs : ℕ → ℕ) (node : List Name) : Prop :=
  ∃ j f, s.inst j = some f ∧ 0 < refs j ∧ node <+: s.path j

/-- The names are such that the path is opened. The last one is not `.`, and it is not `..` where
that is a folder and folders are not allowed; a folder that is left by `..` on the way is held by
someone else. -/
def Steady (tree : Tree) (s : Instances) (refs : ℕ → ℕ) (mode : BitVec 8) :
    List Name → List Name → Prop
  | _, [] => True
  | node, [str] => str ≠ [DOT] ∧ (str = [DOT, DOT] → node ≠ [] → allows mode true = true)
  | node, str :: strs => str ≠ [] →
    (str = [DOT, DOT] → node ≠ [] → Held s refs node) ∧
      ∀ next, target tree node str = some (next, true) → Steady tree s refs mode next strs

variable {debug : Bool} {tree : Tree} {s s' s₁ : Instances} {refs refs' : ℕ → ℕ} {i j p cur n : ℕ}
  {f g : FileInstance} {str : Name} {strs node : List Name} {mode : BitVec 8} {path : Name}
  {res : Option ℕ}

/-! ### Names -/

theorem components_ne_nil (path : Name) : components path ≠ [] := by
  cases path with
  | nil => exact List.cons_ne_nil _ _
  | cons ch path =>
      rw [components]
      split_ifs <;> exact List.cons_ne_nil _ _

/-- The first part of a path, and the parts of the rest. -/
theorem components_eq (path : Name) :
  components path = path.takeWhile (· ≠ SLASH) ::
    if path.dropWhile (· ≠ SLASH) = [] then [] else components (path.dropWhile (· ≠ SLASH)).tail
  := by
  induction path with
  | nil => rfl
  | cons ch path ih =>
      rw [components]
      by_cases hch : ch = SLASH
      · rw [if_pos hch, List.takeWhile_cons_of_neg (by simpa using hch),
          List.dropWhile_cons_of_neg (by simpa using hch), if_neg (List.cons_ne_nil _ _),
          List.tail_cons]
      · rw [if_neg hch, List.takeWhile_cons_of_pos (by simpa using hch),
          List.dropWhile_cons_of_pos (by simpa using hch)]
        rw [ih, List.headD_cons, List.tail_cons]

theorem resolve_cons (hstrs : strs ≠ []) :
  resolve tree node (str :: strs) = if str = [] then none
    else (target tree node str).bind fun next =>
      if next.2 = true then resolve tree next.1 strs else none
  := by
  cases strs with
  | nil => exact absurd rfl hstrs
  | cons str' strs =>
      rw [resolve]
      apply hstrs

theorem steady_cons (hstrs : strs ≠ []) :
  Steady tree s refs mode node (str :: strs) ↔ (str ≠ [] →
    (str = [DOT, DOT] → node ≠ [] → Held s refs node) ∧
      ∀ next, target tree node str = some (next, true) → Steady tree s refs mode next strs)
  := by
  cases strs with
  | nil => exact absurd rfl hstrs
  | cons str' strs =>
      rw [Steady]
      apply hstrs

/-! ### Who holds a folder -/

/-- Whether a folder is held does not change while those who hold one keep their references. -/
theorem held_congr (h : Inv s refs') {refs'' : ℕ → ℕ} (h' : Inv s' refs'') (hkept : Kept s s')
    (hle : ∀ j, refs j ≤ refs' j) (hle' : ∀ j, refs j ≤ refs'' j) :
  Held s refs node ↔ Held s' refs node
  := by
  constructor
  · rintro ⟨j, f, hj, hpos, hpre⟩
    obtain ⟨f', hf'⟩ := h'.alive j (hpos.trans_le (hle' j))
    rw [← h.path_kept h' hkept hf' (h.fresh j f hj)] at hpre
    exact ⟨j, f', hf', hpos, hpre⟩
  · rintro ⟨j, f', hf', hpos, hpre⟩
    obtain ⟨f, hf⟩ := h.alive j (hpos.trans_le (hle j))
    rw [h.path_kept h' hkept hf' (h.fresh j f hf)] at hpre
    exact ⟨j, f, hf, hpos, hpre⟩

theorem steady_congr (h : Inv s refs') {refs'' : ℕ → ℕ} (h' : Inv s' refs'') (hkept : Kept s s')
    (hle : ∀ j, refs j ≤ refs' j) (hle' : ∀ j, refs j ≤ refs'' j) :
  Steady tree s refs mode node strs ↔ Steady tree s' refs mode node strs
  := by
  induction strs generalizing node with
  | nil => rfl
  | cons str strs ih =>
      by_cases hstrs : strs = []
      · rw [hstrs, Steady, Steady]
      · rw [steady_cons hstrs, steady_cons hstrs, held_congr h h' hkept hle hle']
        simp only [ih]

/-- An instance that has a reference is held: its references are those of someone, or it has a child
that is held. -/
theorem Inv.exists_below (h : Inv s refs) (hpos : Positive s) (hi : s.inst i = some f) :
  ∃ j g, s.inst j = some g ∧ 0 < refs j ∧ s.path i <+: s.path j
  := by
  induction hk : s.made - i using Nat.strong_induction_on generalizing i f with
  | _ k ih =>
      by_cases hrefs : 0 < refs i
      · exact ⟨i, f, hi, hrefs, List.prefix_rfl⟩
      have hcount := h.count i f hi
      have := hpos i f hi
      obtain ⟨⟨hash, c⟩, hmem⟩ : ∃ e, e ∈ f.fileTable.entries := by
        apply List.exists_mem_of_length_pos
        lia
      obtain ⟨g, hc, hparent, -⟩ := h.child i f hash c hi hmem
      have hlt := h.below c g i hc hparent
      have hfresh := h.fresh c g hc
      obtain ⟨j, g', hj, hjpos, hpre⟩ := ih (s.made - c) (by lia) hc rfl
      refine ⟨j, g', hj, hjpos, List.IsPrefix.trans ?_ hpre⟩
      rw [h.path_child hc hparent]
      apply List.prefix_append

/-- An instance below another one is reached from one of its children. -/
theorem Inv.child_of_above (h : Inv s refs) (hi : s.inst i = some f) (hj : s.inst j = some g)
    (hpre : s.path i <+: s.path j) :
  i = j ∨ 0 < f.fileTable.entries.length
  := by
  induction j using Nat.strong_induction_on generalizing g with
  | _ j ih =>
      by_cases heq : s.path i = s.path j
      · exact .inl (h.path_inj hi hj heq)
      cases hparent : g.parent with
      | none =>
          rw [path_of_root hj hparent, List.prefix_nil] at hpre
          rw [path_of_root hj hparent] at heq
          exact absurd hpre heq
      | some p =>
          rw [h.path_child hj hparent] at hpre heq
          obtain ⟨f', hp, hmem⟩ := h.listed j g p hj hparent
          rcases List.prefix_concat_iff.1 hpre with hsame | hshort
          · exact absurd hsame heq
          · rcases ih p (h.below j g p hj hparent) hp hshort with rfl | hpos
            · right
              rw [hi] at hp
              cases hp
              apply List.length_pos_of_mem hmem
            · exact .inr hpos

/-- A folder to which the thread has a reference is held by someone else exactly if that is not the
only one. -/
theorem Inv.held_iff (h : Inv s (withResult refs (some cur))) (hpos : Positive s)
    (hcur : s.inst cur = some f) :
  Held s refs (s.path cur) ↔ f.refCount ≠ 1
  := by
  have hcount := h.count cur f hcur
  rw [withResult, if_pos rfl] at hcount
  constructor
  · rintro ⟨j, g, hj, hrefs, hpre⟩ hone
    rcases h.child_of_above hcur hj hpre with rfl | hentries <;> lia
  · intro hmore
    by_cases hrefs : 0 < refs cur
    · exact ⟨cur, f, hcur, hrefs, List.prefix_rfl⟩
    obtain ⟨⟨hash, c⟩, hmem⟩ : ∃ e, e ∈ f.fileTable.entries := by
      apply List.exists_mem_of_length_pos
      lia
    obtain ⟨g, hc, hparent, -⟩ := h.child cur f hash c hcur hmem
    obtain ⟨j, g', hj, hjpos, hpre⟩ := h.exists_below hpos hc
    rw [h.path_child hc hparent] at hpre
    refine ⟨j, g', hj, ?_, (List.prefix_append _ _).trans hpre⟩
    -- it is not the folder itself
    have hne : cur ≠ j := by
      rintro rfl
      have := hpre.length_le
      rw [List.length_append, List.length_singleton] at this
      omega
    rw [withResult, if_neg (by simpa using hne)] at hjpos
    exact hjpos

/-! ### The children of a folder -/

/-- A record that is the only one of its kind is found. -/
theorem find?_eq_some_iff_of_unique {α : Type} {l : List α} {q : α → Bool} {a : α}
    (h : ∀ b ∈ l, q b = true → q a = true → b = a) :
  l.find? q = some a ↔ a ∈ l ∧ q a = true
  := by
  constructor
  · intro hfind
    exact ⟨List.mem_of_find?_eq_some hfind, List.find?_some hfind⟩
  · rintro ⟨hmem, hq⟩
    obtain ⟨b, hb⟩ := Option.isSome_iff_exists.1 (List.find?_isSome.2 ⟨a, hmem, hq⟩)
    rw [hb, h b (List.mem_of_find?_eq_some hb) (List.find?_some hb) hq]

theorem Tree.Proper.childOf_iff (h : tree.Proper) {r : Record} :
  childOf tree node str = some r ↔ r ∈ tree node ∧ nameEqual r.name str = true ∧ r.intact = true
  := by
  rw [childOf]
  by_cases hr : r ∈ tree node
  · rw [find?_eq_some_iff_of_unique, Bool.and_eq_true]
    intro b hb hbstr hrstr
    rw [Bool.and_eq_true] at hbstr hrstr
    apply h.distinct node b hb r hr
    apply nameEqual_trans hbstr.1
    rw [nameEqual_comm]
    apply hrstr.1
  · constructor
    · intro hfind
      exact absurd (List.mem_of_find?_eq_some hfind) hr
    · rintro ⟨hmem, -⟩
      exact absurd hmem hr

theorem Tree.Proper.lookUp_eq (h : tree.Proper) {r : Record} (hr : r ∈ tree node)
    (hname : nameEqual r.name str = true) (hmode : allows mode r.isFolder = true) :
  lookUp (tree node) str mode = some r
  := by
  rw [lookUp, find?_eq_some_iff_of_unique, List.mem_filter, Bool.and_eq_true, decide_eq_true_eq]
  · exact ⟨⟨hr, hmode, by rw [h.hash node r hr, nameHash_of_nameEqual hname]⟩, hname⟩
  · intro b hb hbstr _
    apply h.distinct node b (List.mem_filter.1 hb).1 r hr
    apply nameEqual_trans hbstr
    rw [nameEqual_comm]
    apply hname

/-- The child of an instance is that of the record with its name. -/
theorem Grown.childOf (h : Grown tree s) (hproper : tree.Proper) (hi : s.inst i = some f)
    (hparent : f.parent = some p) (hname : nameEqual f.name str = true) :
  ∃ r, childOf tree (s.path p) str = some r ∧ r.name = f.name ∧ r.isFolder = f.isFolder
  := by
  obtain ⟨r, hr, hrname, hkind, hintact, -⟩ := h.record i f p hi hparent
  exact ⟨r, hproper.childOf_iff.2 ⟨hr, by rw [hrname, hname], hintact⟩, hrname, hkind⟩

/-- A child of a folder is opened as the tree has it, if the mode allows its kind. -/
theorem Grown.opens_child (mode : BitVec 8) (hgrown : Grown tree s) (hproper : tree.Proper)
    (h : Inv s refs) (hpos : Positive s) (hp : s.inst p = some g) (hfolder : g.isFolder = true)
    (hstr : str ≠ []) :
  ∃ res s', s.openChild p str mode (tree (s.path p)) = .ok (res, s') ∧
    Outcome s s' (withResult refs res) ∧ Grown tree s' ∧
    s'.shown res = (((Instances.childOf tree (s.path p) str).map fun r =>
      (s.path p ++ [r.name], r.isFolder)).filter fun x => allows mode x.2).map
        (fun x => (x.1, some x.2)) ∧
    ∀ i, res = some i → ∃ f, s'.inst i = some f ∧ f.parent = some p
  := by
  obtain ⟨res, s', hopen, hout, hres⟩ := h.openChild hpos hp
  have hgrown' := hgrown.openChild h hout hp hfolder hstr hopen
  refine ⟨res, s', hopen, hout, hgrown', ?_, ?_⟩
  · cases res with
    | none =>
        cases hchild : Instances.childOf tree (s.path p) str with
        | none => rfl
        | some r =>
            -- the kind of the child is not allowed
            have hmode : allows mode r.isFolder = false := by
              apply Bool.eq_false_of_not_eq_true
              intro hmode
              obtain ⟨hr, hname, hintact⟩ := hproper.childOf_iff.1 hchild
              rcases openChild_cases hp hopen with
                ⟨i, f, hfind, hi, -, hnone⟩ | ⟨-, hlook, -, -⟩ | ⟨-, r', -, -, hnone, -⟩
              · obtain ⟨f', hi', hparent, hfname⟩ := h.find_some hp hfind
                rw [hi] at hi'
                cases hi'
                obtain ⟨r', hchild', -, hkind⟩ := hgrown.childOf hproper hi hparent hfname
                rw [hchild] at hchild'
                cases hchild'
                rw [if_pos (hkind ▸ hmode)] at hnone
                cases hnone
              · rw [hlook r (hproper.lookUp_eq hr hname hmode)] at hintact
                cases hintact
              · cases hnone
            rw [Option.map_some, Option.filter_some_neg (by rw [hmode])]
            rfl
    | some i =>
        obtain ⟨f, hi, hparent, hname⟩ := hres i rfl
        obtain ⟨q, hq, -⟩ := hout.inv.listed i f p hi hparent
        have hpath := h.path_kept hout.inv hout.kept hq (h.fresh p g hp)
        obtain ⟨r, hchild, hrname, hkind⟩ := hgrown'.childOf hproper hi hparent hname
        rw [hpath] at hchild
        have hmode : allows mode f.isFolder = true := by
          rcases openChild_cases hp hopen with
            ⟨j, f', -, hj, -, hsome⟩ | ⟨-, -, -, hnone⟩ | ⟨-, r', hlook, -, hsome, -, hnew⟩
          · split_ifs at hsome with hmode
            cases hsome
            obtain ⟨f₀, hf₀, hsame⟩ := hout.kept.same i f hi (h.fresh i f' hj)
            rw [hj] at hf₀
            cases hf₀
            rw [hsame.isFolder]
            exact hmode
          · cases hnone
          · cases hsome
            rw [hi] at hnew
            cases hnew
            rw [lookUp] at hlook
            have hmem := List.mem_of_find?_eq_some hlook
            rw [List.mem_filter, Bool.and_eq_true] at hmem
            exact hmem.2.1
        rw [shown, Option.map_some, hi, hout.inv.path_child hi hparent, hpath, hchild,
          Option.map_some, Option.map_some, Option.filter_some_pos (hkind ▸ hmode), Option.map_some,
          hrname, hkind]
  · intro i hi
    obtain ⟨f, hf, hparent, -⟩ := hres i hi
    exact ⟨f, hf, hparent⟩

/-! ### References -/

theorem withResult_comm (refs : ℕ → ℕ) (a b : Option ℕ) :
  withResult (withResult refs a) b = withResult (withResult refs b) a
  := by
  ext1 j
  rw [withResult, withResult, withResult, withResult, Nat.add_right_comm]

theorem le_withResult (refs : ℕ → ℕ) (res : Option ℕ) (j : ℕ) : refs j ≤ withResult refs res j :=
  Nat.le_add_right _ _

theorem withResult_self (refs : ℕ → ℕ) (i : ℕ) : withResult refs (some i) i = refs i + 1 := by
  rw [withResult, if_pos rfl]

theorem withResult_of_ne (refs : ℕ → ℕ) (hij : j ≠ i) : withResult refs (some i) j = refs j := by
  rw [withResult, if_neg (by simpa using hij.symm), Nat.add_zero]

/-- The reference that was given out last is given back. -/
theorem Inv.giveBack (debug : Bool) (h : Inv s (withResult refs (some cur))) (hpos : Positive s)
    (hroot : 0 < refs 0) :
  ∃ s', s.relax debug cur = .ok s' ∧ Outcome s s' refs
  := by
  have hmore : (if cur = 0 then 1 else 0) < withResult refs (some cur) cur := by
    rw [withResult_self]
    split_ifs with h₀
    · rw [h₀]
      omega
    · omega
  obtain ⟨s', hrelax, hout⟩ : ∃ s', s.relax debug cur = .ok s' ∧ _ := h.relax hpos hmore
  refine ⟨s', hrelax, ?_⟩
  have heq : Function.update (withResult refs (some cur)) cur (withResult refs (some cur) cur - 1)
      = refs := by
    ext1 j
    by_cases hj : j = cur
    · rw [hj, Function.update_self, withResult_self, Nat.add_sub_cancel]
    · rw [Function.update_of_ne hj, withResult_of_ne refs hj]
  rw [heq] at hout
  apply hout

/-- What is returned is the same after other references have been given back. -/
theorem Inv.shown_kept (h : Inv s refs) (h' : Inv s' (withResult refs' res)) (hkept : Kept s s')
    (hres : ∀ i, res = some i → i < s.made) :
  s'.shown res = s.shown res
  := by
  cases res with
  | none => rfl
  | some i =>
      obtain ⟨f', hf'⟩ := h'.alive i (by rw [withResult_self]; apply Nat.succ_pos)
      obtain ⟨f, hf, hsame⟩ := hkept.same i f' hf' (hres i rfl)
      rw [shown, shown, Option.map_some, Option.map_some, hf, hf', Option.map_some, Option.map_some,
        h.path_kept h' hkept hf' (hres i rfl), hsame.isFolder]

theorem Inv.lt_made (h : Inv s refs) (hi : 0 < refs i) : i < s.made := by
  obtain ⟨f, hf⟩ := h.alive i hi
  apply h.fresh i f hf

/-! ### What names mean -/

theorem allows_folder (isFolder : Bool) : allows ALLOW_FOLDER isFolder = isFolder := by
  cases isFolder <;> decide

/-- For the last name it is right to pass over the mode, if it does not lead to a parent that is not
allowed. -/
theorem target_filter_iff (hdot : str ≠ [DOT]) :
  (((target tree node str).filter fun x => str = [DOT, DOT] || allows mode x.2).map
      fun x => (x.1, some x.2)) =
    ((target tree node str).filter fun x => allows mode x.2).map (fun x => (x.1, some x.2)) ↔
  str ≠ [DOT] ∧ (str = [DOT, DOT] → node ≠ [] → allows mode true = true)
  := by
  by_cases hup : str = [DOT, DOT]
  · rw [target, if_neg hdot, if_pos hup]
    by_cases hnode : node = []
    · rw [if_pos hnode]
      exact iff_of_true rfl ⟨hdot, fun _ hne => absurd hnode hne⟩
    · rw [if_neg hnode, Option.filter_some_pos (by rw [decide_eq_true hup, Bool.true_or])]
      by_cases hmode : allows mode true = true
      · rw [Option.filter_some, if_pos hmode]
        exact iff_of_true rfl ⟨hdot, fun _ _ => hmode⟩
      · rw [Option.filter_some, if_neg hmode]
        apply iff_of_false (fun heq => by cases heq)
        intro hright
        exact hmode (hright.2 hup hnode)
  · rw [decide_eq_false hup]
    simp only [Bool.false_or, true_iff]
    exact ⟨hdot, fun heq => absurd heq hup⟩

/-- Before the last name the mode admits folders only. -/
theorem target_filter_folder (hdot : str ≠ [DOT]) :
  ((target tree node str).filter fun x => str = [DOT, DOT] || allows ALLOW_FOLDER x.2) =
    (target tree node str).filter fun x => x.2
  := by
  by_cases hup : str = [DOT, DOT]
  · rw [target, if_neg hdot, if_pos hup]
    split_ifs
    · rfl
    · rw [Option.filter_some_pos (by rw [decide_eq_true hup, Bool.true_or]),
        Option.filter_some_pos rfl]
  · simp only [hup, decide_false, Bool.false_or, allows_folder]

/-! ### A round of the loop -/

/-- The thread has a reference to the folder it has reached. -/
structure Inside (tree : Tree) (s : Instances) (refs : ℕ → ℕ) (cur : ℕ) (f : FileInstance) :
    Prop where
  inv : Inv s (withResult refs (some cur))
  positive : Positive s
  grown : Grown tree s
  inst : s.inst cur = some f
  isFolder : f.isFolder = true
  root : 0 < refs 0

/-- Where a name leads. The parent is acquired whatever the mode is. -/
theorem Inside.nextOf (mode : BitVec 8) (h : Inside tree s refs cur f) (hproper : tree.Proper)
    (hstr : str ≠ []) (hdot : str ≠ [DOT]) :
  ∃ res s', s.nextOf tree mode cur str = .ok (res, s') ∧
    Outcome s s' (withResult (withResult refs (some cur)) res) ∧ Grown tree s' ∧
    s'.shown res = ((target tree (s.path cur) str).filter fun x =>
      str = [DOT, DOT] || allows mode x.2).map (fun x => (x.1, some x.2)) ∧
    ∀ i, res = some i → (str ≠ [DOT, DOT] ∧ ∃ g, s'.inst i = some g ∧ g.parent = some cur) ∨
      (str = [DOT, DOT] ∧ f.parent = some i ∧ s'.inst cur = some f)
  := by
  rw [Instances.nextOf, if_neg hdot]
  by_cases hup : str = [DOT, DOT]
  · rw [if_pos hup, deref_eq h.inst]
    rw [target, if_neg hdot, if_pos hup]
    cases hparent : f.parent with
    | none =>
        refine ⟨none, s, ?_, ?_, h.grown, ?_, ?_⟩
        · rw [call, Except.ok_bind, hparent]
          rfl
        · exact ⟨h.inv, h.positive, le_rfl, fun j f' hj _ => ⟨f', hj, Same.refl f'⟩⟩
        · rw [path_of_root h.inst hparent, if_pos rfl]
          rfl
        · intro i hi
          cases hi
    | some p =>
        obtain ⟨g, hp, -⟩ := h.inv.listed cur f p h.inst hparent
        have hlt := h.inv.below cur f p h.inst hparent
        obtain ⟨s', hacquire, hout⟩ := h.inv.acquire h.positive hp
          (withResult_self (withResult refs (some cur)) p) (fun j hj => withResult_of_ne _ hj)
        have hgrown' := h.grown.outcome h.inv hout (acquire_made hacquire)
        refine ⟨some p, s', ?_, hout, hgrown', ?_, ?_⟩
        · rw [call, Except.ok_bind, hparent]
          dsimp only
          rw [hacquire]
          rfl
        · have hkept := h.inv.shown_kept hout.inv hout.kept (by
            rintro _ ⟨⟩
            apply h.inv.fresh p g hp)
          rw [hkept, shown, Option.map_some, hp, Option.map_some, h.inv.path_child h.inst hparent,
            if_neg (List.append_ne_nil_of_right_ne_nil _ (List.cons_ne_nil _ _)),
            List.dropLast_concat, Option.filter_some_pos (by rw [decide_eq_true hup, Bool.true_or]),
            Option.map_some, h.grown.folder cur f p g h.inst hparent hp]
        · rintro _ ⟨⟩
          refine .inr ⟨hup, rfl, ?_⟩
          rw [acquire, deref_eq hp] at hacquire
          cases hacquire
          rw [set_inst_of_ne hlt.ne']
          exact h.inst
  · rw [if_neg hup]
    obtain ⟨res, s', hopen, hout, hgrown', hshown, hparent⟩ :=
      h.grown.opens_child mode hproper h.inv h.positive h.inst h.isFolder hstr
    refine ⟨res, s', by rw [hopen]; rfl, hout, hgrown', ?_, fun i hi => .inl ⟨hup, hparent i hi⟩⟩
    rw [hshown, target, if_neg hdot, if_neg hup]
    simp only [hup, decide_false, Bool.false_or]

theorem withResult_none (refs : ℕ → ℕ) : withResult refs none = refs := by
  ext1 j
  rw [withResult, if_neg (by simp), Nat.add_zero]

theorem relaxHolding_of_more (hi : s.inst i = some f) (hmore : f.refCount ≠ 1) :
  s.relaxHolding debug i j = call (s.relax debug i)
  := by
  rw [relaxHolding, deref_eq hi, call, Except.ok_bind, if_neg (fun h => hmore h.1)]

/-- The last reference to a child of the folder whose lock is held. -/
theorem relaxHolding_of_last (hi : s.inst i = some f) (hone : f.refCount = 1)
    (hparent : f.parent = some j) :
  s.relaxHolding debug i j = .error (.blocked j)
  := by
  rw [relaxHolding, deref_eq hi, call, Except.ok_bind, if_pos]
  refine ⟨hone, ?_⟩
  rw [closes, hi, Option.bind_some, hparent]
  dsimp only
  rw [decide_eq_true rfl, Bool.true_or]

/-- A run returns the instance of what a path means, with a new reference. -/
def Yields (run : Except Halt (Option ℕ × Instances)) (refs : ℕ → ℕ)
    (what : Option (List Name × Bool)) : Prop :=
  ∃ res s', run = .ok (res, s') ∧ Inv s' (withResult refs res) ∧ Positive s' ∧
    s'.shown res = what.map fun x => (x.1, some x.2)

/-- The instances that are left after a run are those of the same files. -/
def Keeps (s : Instances) (run : Except Halt (Option ℕ × Instances)) : Prop :=
  ∀ res s', run = .ok (res, s') → Kept s s'

variable {run : Except Halt (Option ℕ × Instances)} {what : Option (List Name × Bool)}

/-- A run that has returned with the references that are due. -/
theorem Outcome.yields {P : Prop} (h : Outcome s s' (withResult refs res))
    (hP : s'.shown res = what.map (fun x => (x.1, some x.2)) ↔ P) :
  Keeps s (.ok (res, s')) ∧ (Yields (.ok (res, s')) refs what ↔ P)
  := by
  constructor
  · rintro _ _ ⟨⟩
    apply h.kept
  · rw [← hP]
    constructor
    · rintro ⟨_, _, ⟨⟩, -, -, hshown⟩
      exact hshown
    · intro hshown
      exact ⟨res, s', rfl, h.inv, h.positive, hshown⟩

theorem Outcome.trans (h : Outcome s s₁ refs) (h' : Outcome s₁ s' refs') : Outcome s s' refs' :=
  ⟨h'.inv, h'.positive, h.kept.trans h'.kept⟩

theorem Keeps.trans (h : Kept s s₁) (h' : Keeps s₁ run) : Keeps s run :=
  fun res s' hrun => h.trans (h' res s' hrun)

/-- The thread gives up: it returns nothing, and its reference is given back. -/
theorem Inv.giveUp (debug : Bool) (h : Inv s (withResult refs (some cur))) (hpos : Positive s)
    (hroot : 0 < refs 0) :
  ∃ s', (do
      let s ← call (s.relax debug cur)
      return (none, s) : Except Halt (Option ℕ × Instances)) = .ok (none, s') ∧
    Outcome s s' (withResult refs none)
  := by
  obtain ⟨s', hrelax, hout⟩ := h.giveBack debug hpos hroot
  refine ⟨s', by rw [hrelax]; rfl, ?_⟩
  rw [withResult_none]
  apply hout

theorem Inside.shown (h : Inside tree s refs cur f) :
  s.shown (some cur) = some (s.path cur, some true)
  := by
  rw [Instances.shown, Option.map_some, h.inst, Option.map_some, h.isFolder]

theorem Inside.outcome (h : Inside tree s refs cur f) : Outcome s s (withResult refs (some cur)) :=
  ⟨h.inv, h.positive, le_rfl, fun _ f' hj _ => ⟨f', hj, Same.refl f'⟩⟩

/-- A folder is left for the last time only by a name that leads to its parent, and then nobody else
holds it. -/
theorem Inside.leave (h : Inside tree s refs cur f)
    (hout : Outcome s s₁ (withResult (withResult refs (some cur)) (some i)))
    (hnext : (str ≠ [DOT, DOT] ∧ ∃ g, s₁.inst i = some g ∧ g.parent = some cur) ∨
      (str = [DOT, DOT] ∧ f.parent = some i ∧ s₁.inst cur = some f)) :
  ∃ f₁, s₁.inst cur = some f₁ ∧ i ≠ cur ∧ (f₁.refCount = 1 → f₁.parent = some i) ∧
    ((str = [DOT, DOT] → s.path cur ≠ [] → Held s refs (s.path cur)) ↔ f₁.refCount ≠ 1)
  := by
  rcases hnext with ⟨hup, g, hg, hparent⟩ | ⟨hup, hparent, hsame⟩
  · have hlt := hout.inv.below i g cur hg hparent
    obtain ⟨f₁, hf₁, hmem⟩ := hout.inv.listed i g cur hg hparent
    have hcount := hout.inv.count cur f₁ hf₁
    have hpos := List.length_pos_of_mem hmem
    rw [withResult_of_ne _ hlt.ne, withResult_self] at hcount
    have hmore : f₁.refCount ≠ 1 := by lia
    exact ⟨f₁, hf₁, hlt.ne', fun hone => absurd hone hmore,
      iff_of_true (fun heq => absurd heq hup) hmore⟩
  · have hlt := h.inv.below cur f i h.inst hparent
    refine ⟨f, hsame, hlt.ne, fun _ => hparent, ?_⟩
    rw [← h.inv.held_iff h.positive h.inst]
    constructor
    · intro hheld
      apply hheld hup
      rw [h.inv.path_child h.inst hparent]
      exact List.append_ne_nil_of_right_ne_nil _ (List.cons_ne_nil _ _)
    · intro hheld _ _
      exact hheld

/-- The thread has come to the next folder, and has given back its reference to the one before. -/
theorem Inside.arrive (h : Inside tree s refs cur f) (hgrown : Grown tree s₁)
    (hinv : Inv s₁ refs') (hi : s₁.inst i = some g) (hfolder : g.isFolder = true)
    (hout : Outcome s₁ s' (withResult refs (some i))) (hmade : s'.made = s₁.made) :
  ∃ g', Inside tree s' refs i g' ∧ s'.path i = s₁.path i
  := by
  obtain ⟨g', hg'⟩ := hout.inv.alive i (by rw [withResult_self]; apply Nat.succ_pos)
  obtain ⟨g₀, hg₀, hsame⟩ := hout.kept.same i g' hg' (hinv.fresh i g hi)
  rw [hi] at hg₀
  cases hg₀
  refine ⟨g', ?_, hinv.path_kept hout.inv hout.kept hg' (hinv.fresh i g hi)⟩
  exact
    { inv := hout.inv
      positive := hout.positive
      grown := hgrown.outcome hinv hout hmade
      inst := hg'
      isFolder := by rw [hsame.isFolder, hfolder]
      root := h.root }

/-- A folder that a name leads to is what the name means. -/
theorem shown_target {what : Option (List Name × Bool)} (hi : s.inst i = some g)
    (hshown : s.shown (some i) = (what.filter fun x => x.2).map fun x => (x.1, some x.2)) :
  what = some (s.path i, true) ∧ g.isFolder = true
  := by
  rw [shown, Option.map_some, hi, Option.map_some] at hshown
  obtain ⟨⟨node, kind⟩, hx, heq⟩ := Option.map_eq_some_iff.1 hshown.symm
  obtain ⟨hx, hkind⟩ := Option.filter_eq_some_iff.1 hx
  obtain ⟨hnode, hkind'⟩ := Prod.mk.inj heq
  dsimp only at hnode hkind hkind'
  rw [hkind] at hx hkind'
  exact ⟨by rw [hx, hnode], (Option.some.inj hkind').symm⟩

/-! ### The loop -/

/-- The loop returns what the rest of the path means exactly if its names are steady. -/
def Follows (debug : Bool) (tree : Tree) (refs : ℕ → ℕ) (mode : BitVec 8) (n : ℕ) (s : Instances)
    (cur : ℕ) (path : Name) : Prop :=
  Keeps s (openLoop debug tree mode n s cur path) ∧
    (Yields (openLoop debug tree mode n s cur path) refs (meaning tree (s.path cur) path mode) ↔
      Steady tree s refs mode (s.path cur) (components path))

variable {name rest : Name}

/-- The path has come to its end, at a folder. -/
theorem Inside.follows_nil (debug : Bool) (mode : BitVec 8) (h : Inside tree s refs cur f) :
  Follows debug tree refs mode (n + 1) s cur []
  := by
  obtain ⟨s', hgiveUp, hout⟩ := h.inv.giveUp debug h.positive h.root
  rw [Follows, openLoop, if_pos rfl, meaning, components, Steady, resolve, if_pos rfl]
  have hsteady : ([] : Name) ≠ [DOT] ∧
      (([] : Name) = [DOT, DOT] → s.path cur ≠ [] → allows mode true = true) :=
    ⟨(fun heq => by cases heq), (fun heq => by cases heq)⟩
  by_cases hmode : mode &&& ALLOW_FOLDER ≠ 0
  · rw [if_pos hmode]
    apply h.outcome.yields
    apply iff_of_true _ hsteady
    rw [h.shown, Option.filter_some_pos (by rw [allows, if_pos rfl, decide_eq_true hmode]),
      Option.map_some]
  · rw [if_neg hmode, hgiveUp]
    apply hout.yields
    apply iff_of_true _ hsteady
    rw [Option.filter_some_neg (by rw [allows, if_pos rfl, decide_eq_false hmode])]
    rfl

/-- An empty name before a slash. -/
theorem Inside.follows_empty (debug : Bool) (mode : BitVec 8) (h : Inside tree s refs cur f)
    (hpath : path ≠ []) (hname : path.takeWhile (· ≠ SLASH) = []) :
  Follows debug tree refs mode (n + 1) s cur path
  := by
  obtain ⟨s', hgiveUp, hout⟩ := h.inv.giveUp debug h.positive h.root
  have hne : path.dropWhile (· ≠ SLASH) ≠ [] := by
    intro hempty
    apply hpath
    rw [← List.takeWhile_append_dropWhile (p := (· ≠ SLASH)) (l := path), hname, hempty,
      List.append_nil]
  rw [Follows, openLoop, if_neg hpath, meaning, components_eq]
  dsimp only
  rw [if_pos hname, hgiveUp, if_neg hne, resolve_cons (components_ne_nil _), if_pos hname,
    steady_cons (components_ne_nil _)]
  apply hout.yields
  exact iff_of_true rfl (fun hcons => absurd hname hcons)

/-- The last name. If it is `.`, the reference to the folder is given back, and the folder is
returned. -/
theorem Inside.follows_last (debug : Bool) (mode : BitVec 8) (h : Inside tree s refs cur f)
    (hproper : tree.Proper) (hpath : path ≠ []) (hname : name = path.takeWhile (· ≠ SLASH))
    (hnil : name ≠ []) (hlast : path.dropWhile (· ≠ SLASH) = []) :
  Follows debug tree refs mode (n + 1) s cur path
  := by
  rw [Follows, openLoop, if_neg hpath, meaning, components_eq, ← hname]
  dsimp only
  rw [if_neg hnil, if_pos hlast, if_pos hlast, resolve, if_neg hnil, Steady]
  by_cases hdot : name = [DOT]
  · obtain ⟨s₁, hrelax, hout₁⟩ := h.inv.giveBack debug h.positive h.root
    rw [Instances.nextOf, if_pos hdot]
    rw [pure_bind]
    dsimp only
    rw [if_pos hlast, hrelax]
    constructor
    · rintro _ _ ⟨⟩
      apply hout₁.kept
    · apply iff_of_false _ (fun hsteady => hsteady.1 hdot)
      rintro ⟨_, _, ⟨⟩, hinv, -, -⟩
      obtain ⟨f', hf'⟩ := hinv.alive cur (by rw [withResult_self]; apply Nat.succ_pos)
      have hcount := hinv.count cur f' hf'
      have hcount' := hout₁.inv.count cur f' hf'
      rw [withResult_self] at hcount
      omega
  obtain ⟨next, s₁, hnext, hout₁, hgrown₁, hshown, hchild⟩ := h.nextOf mode hproper hnil hdot
  rw [hnext, Except.ok_bind]
  cases next with
  | none =>
      rw [withResult_none] at hout₁
      obtain ⟨s₂, hgiveUp, hout₂⟩ := hout₁.inv.giveUp debug hout₁.positive h.root
      dsimp only
      rw [hgiveUp]
      apply (hout₁.trans hout₂).yields
      rw [← target_filter_iff hdot, ← hshown]
      rfl
  | some next =>
      rw [withResult_comm] at hout₁
      obtain ⟨s₂, hrelax, hout₂⟩ := hout₁.inv.giveBack debug hout₁.positive
        (h.root.trans_le (le_withResult refs (some next) 0))
      dsimp only
      rw [if_pos hlast, hrelax]
      apply (hout₁.trans hout₂).yields
      rw [← target_filter_iff hdot, ← hshown, hout₁.inv.shown_kept hout₂.inv hout₂.kept]
      rintro _ ⟨⟩
      apply hout₁.inv.lt_made
      rw [← withResult_comm, withResult_self]
      apply Nat.succ_pos

/-- The name of the folder itself, and more names after it. -/
theorem Inside.follows_dot (debug : Bool) (mode : BitVec 8) (h : Inside tree s refs cur f)
    (hpath : path ≠ []) (hdot : path.takeWhile (· ≠ SLASH) = [DOT])
    (hrest : rest = path.dropWhile (· ≠ SLASH)) (hlast : rest ≠ [])
    (ih : Follows debug tree refs mode n s cur rest.tail) :
  Follows debug tree refs mode (n + 1) s cur path
  := by
  have hnil : ([DOT] : Name) ≠ [] := List.cons_ne_nil _ _
  rw [Follows, openLoop, if_neg hpath, meaning, components_eq, ← hrest]
  dsimp only
  rw [hdot, if_neg hnil, if_neg hlast, if_neg hlast, resolve_cons (components_ne_nil _), if_neg hnil,
    steady_cons (components_ne_nil _), Instances.nextOf, if_pos rfl, pure_bind]
  dsimp only
  rw [if_neg hlast, deref_eq h.inst, call, Except.ok_bind, Fault.assert_eq_ok (fun _ => h.isFolder),
    call, Except.ok_bind, if_neg (not_not.2 rfl), target, if_pos rfl, Option.bind_some, if_pos rfl,
    ← meaning]
  refine ⟨ih.1, ih.2.trans ?_⟩
  constructor
  · intro hsteady _
    refine ⟨?_, ?_⟩
    · intro heq
      cases heq
    · rintro _ ⟨⟩
      exact hsteady
  · intro hsteady
    exact (hsteady hnil).2 _ rfl

/-- A name with more names after it does not lead to a folder. -/
theorem Inside.yields_none (debug : Bool) (mode : BitVec 8) {strs : List Name}
    (h : Inside tree s refs cur f) (hout : Outcome s s₁ (withResult refs (some cur)))
    (hdot : name ≠ [DOT])
    (htarget : ∀ x, target tree (s.path cur) name = some x → x.2 = false) :
  let run : Except Halt (Option ℕ × Instances) := do
    let s ← call (s₁.relax debug cur)
    return (none, s)
  Keeps s run ∧
    (Yields run refs (((target tree (s.path cur) name).bind fun next =>
        if next.2 = true then resolve tree next.1 strs else none).filter fun x => allows mode x.2) ↔
      (name ≠ [] → (name = [DOT, DOT] → s.path cur ≠ [] → Held s refs (s.path cur)) ∧
        ∀ next, target tree (s.path cur) name = some (next, true) →
          Steady tree s refs mode next strs))
  := by
  intro run
  obtain ⟨s₂, hgiveUp, hout₂⟩ := hout.inv.giveUp debug hout.positive h.root
  have hrun : run = .ok (none, s₂) := hgiveUp
  rw [hrun]
  apply (hout.trans hout₂).yields
  apply iff_of_true
  · cases hx : target tree (s.path cur) name with
    | none => rfl
    | some x =>
        rw [Option.bind_some, if_neg (by rw [htarget x hx]; decide)]
        rfl
  · intro _
    refine ⟨?_, ?_⟩
    · intro hup hnode
      have hx := htarget ((s.path cur).dropLast, true) (by
        rw [target, if_neg hdot, if_pos hup, if_neg hnode])
      cases hx
    · intro node hnode
      have hx := htarget _ hnode
      cases hx

/-- A name of another folder, or of none, and more names after it. -/
theorem Inside.follows_name (debug : Bool) (mode : BitVec 8) (h : Inside tree s refs cur f)
    (hproper : tree.Proper) (hpath : path ≠ []) (hname : name = path.takeWhile (· ≠ SLASH))
    (hnil : name ≠ []) (hdot : name ≠ [DOT]) (hrest : rest = path.dropWhile (· ≠ SLASH))
    (hlast : rest ≠ [])
    (ih : ∀ {s cur f}, Inside tree s refs cur f → Follows debug tree refs mode n s cur rest.tail) :
  Follows debug tree refs mode (n + 1) s cur path
  := by
  rw [Follows, openLoop, if_neg hpath, meaning, components_eq, ← hname, ← hrest]
  dsimp only
  rw [if_neg hnil, if_neg hlast, if_neg hlast, resolve_cons (components_ne_nil _), if_neg hnil,
    steady_cons (components_ne_nil _)]
  obtain ⟨next, s₁, hnext, hout₁, hgrown₁, hshown, hchild⟩ :=
    h.nextOf ALLOW_FOLDER hproper hnil hdot
  rw [target_filter_folder hdot] at hshown
  rw [hnext, Except.ok_bind]
  cases next with
  | none =>
      rw [withResult_none] at hout₁
      apply h.yields_none debug mode hout₁ hdot
      intro x hx
      rw [hx, Option.filter_some] at hshown
      split_ifs at hshown with hfolder
      · cases hshown
      · exact Bool.eq_false_of_not_eq_true hfolder
  | some next =>
      obtain ⟨g, hg⟩ := hout₁.inv.alive next (by rw [withResult_self]; apply Nat.succ_pos)
      obtain ⟨hx, hfolder⟩ := shown_target hg hshown
      obtain ⟨f₁, hf₁, hne, hup, hheld⟩ := h.leave hout₁ (hchild next rfl)
      dsimp only
      rw [if_neg hlast, deref_eq hg, call, Except.ok_bind, Fault.assert_eq_ok (fun _ => hfolder),
        call, Except.ok_bind, if_pos hne, hx, Option.bind_some, if_pos rfl, ← meaning, hheld]
      by_cases hone : f₁.refCount = 1
      · rw [relaxHolding_of_last hf₁ hone (hup hone)]
        refine ⟨?_, iff_of_false ?_ (fun hsteady => (hsteady hnil).1 hone)⟩
        · intro res s' hrun
          cases hrun
        · rintro ⟨res, s', hrun, -⟩
          cases hrun
      rw [withResult_comm] at hout₁
      obtain ⟨s₂, hrelax, hout₂⟩ := hout₁.inv.giveBack debug hout₁.positive
        (h.root.trans_le (le_withResult refs (some next) 0))
      rw [relaxHolding_of_more hf₁ hone, hrelax, call, Except.ok_bind]
      obtain ⟨g₂, hinside, hsame⟩ := h.arrive hgrown₁ hout₁.inv hg hfolder hout₂ (relax_made hrelax)
      have hkept := hout₁.kept.trans hout₂.kept
      rw [← hsame]
      obtain ⟨hkeeps, hiff⟩ := ih hinside
      refine ⟨hkeeps.trans hkept, hiff.trans ?_⟩
      rw [← steady_congr h.inv hinside.inv hkept (le_withResult _ _) (le_withResult _ _)]
      constructor
      · intro hsteady _
        refine ⟨hone, ?_⟩
        rintro _ ⟨⟩
        exact hsteady
      · intro hsteady
        exact (hsteady hnil).2 _ rfl

/-- Opening the rest of a path from a folder returns what the rest means exactly if its names are
steady. -/
theorem Inside.follows (debug : Bool) (mode : BitVec 8) (h : Inside tree s refs cur f)
    (hproper : tree.Proper) (hn : path.length < n) :
  Follows debug tree refs mode n s cur path
  := by
  induction n generalizing s cur f path with
  | zero => omega
  | succ n ih =>
      by_cases hpath : path = []
      · subst hpath
        apply h.follows_nil
      by_cases hnil : path.takeWhile (· ≠ SLASH) = []
      · apply h.follows_empty debug mode hpath hnil
      by_cases hlast : path.dropWhile (· ≠ SLASH) = []
      · apply h.follows_last debug mode hproper hpath rfl hnil hlast
      have hshort : (path.dropWhile (· ≠ SLASH)).tail.length < n := by
        have hle := (List.dropWhile_suffix (l := path) (· ≠ SLASH)).length_le
        have hpos := List.length_pos_of_ne_nil hlast
        rw [List.length_tail]
        lia
      by_cases hdot : path.takeWhile (· ≠ SLASH) = [DOT]
      · apply h.follows_dot debug mode hpath hdot rfl hlast (ih h hshort)
      · apply h.follows_name debug mode hproper hpath rfl hnil hdot rfl hlast
        intro s cur f h
        apply ih h hshort

/-! ### Opening a path -/

/-- In every state that is reached, a path is opened as it should be exactly if its names are
steady. The caller has a reference to the folder, other than that of the file system to the root. -/
theorem opens_iff {x : State} (hproper : tree.Proper) (hx : Grows debug tree x)
    (hcur : x.all.inst cur = some f) (hfolder : f.isFolder = true)
    (hrefs : (if cur = 0 then 1 else 0) < x.refs cur) :
  Opens debug tree x.all x.refs cur path mode ↔
    Steady tree x.all (without x.refs cur) mode (x.all.path cur) (components path)
  := by
  obtain ⟨hinv, hpos, hgrown⟩ := hx.grown
  have hback : withResult (without x.refs cur) (some cur) = x.refs := by
    ext1 j
    by_cases hj : j = cur
    · rw [hj, withResult_self, without, Function.update_self]
      omega
    · rw [withResult_of_ne _ hj, without, Function.update_of_ne hj]
  have hinside : Inside tree x.all (without x.refs cur) cur f := by
    refine ⟨by rw [hback]; exact hinv, hpos, hgrown, hcur, hfolder, ?_⟩
    have hroot := hinv.root
    by_cases h₀ : cur = 0
    · rw [if_pos h₀] at hrefs
      rw [without, h₀, Function.update_self]
      rw [h₀] at hrefs
      omega
    · rw [without, Function.update_of_ne (Ne.symm h₀)]
      exact hroot
  obtain ⟨hkeeps, hiff⟩ := hinside.follows debug mode hproper (Nat.lt_succ_self path.length)
  rw [← hiff]
  constructor
  · rintro ⟨res, s', hrun, hout, hshown⟩
    exact ⟨res, s', hrun, hout.inv, hout.positive, hshown⟩
  · rintro ⟨res, s', hrun, hinv', hpos', hshown⟩
    exact ⟨res, s', hrun, ⟨hinv', hpos', hkeeps res s' hrun⟩, hshown⟩

/-- The record of a folder `a`. -/
def letterFolder : Record where
  name := [0x61]
  nameHash := nameHash [0x61]
  isFolder := true
  validSize := 0
  allocSize := 0

/-- A volume with the folder `a`. -/
def oneFolder : Tree := fun node => if node = [] then [letterFolder] else []

theorem proper_oneFolder : oneFolder.Proper := by
  have hrecord : ∀ {node r}, r ∈ oneFolder node → r = letterFolder := by
    intro node r hr
    rw [oneFolder] at hr
    split_ifs at hr
    · exact List.mem_singleton.1 hr
    · cases hr
  constructor
  · intro node r hr
    rw [hrecord hr]
    rfl
  · intro node r hr r' hr' _
    rw [hrecord hr, hrecord hr']

/-- The root, with a reference of the caller. -/
def atRoot : State where
  all :=
    { inst := fun i =>
        if i = 0 then
          some { refCount := 2, parent := none, name := [], nameHash := 0, isFolder := true }
        else none
      made := 1 }
  refs := fun i => if i = 0 then 2 else 0

theorem grows_atRoot : Grows true oneFolder atRoot := by
  have hacquire : ∃ s', start.all.acquire 0 = .ok s' ∧ s' = atRoot.all := by
    refine ⟨_, rfl, ?_⟩
    rw [set, atRoot, start, Instances.mk.injEq]
    refine ⟨?_, rfl⟩
    ext1 i
    by_cases hi : i = 0
    · rw [hi, Function.update_self]
      rfl
    · rw [Function.update_of_ne hi]
      dsimp only
      rw [if_neg hi, if_neg hi]
  obtain ⟨s', hacquire, rfl⟩ := hacquire
  have hrefs : Function.update start.refs 0 (start.refs 0 + 1) = atRoot.refs := by
    ext1 i
    by_cases hi : i = 0
    · rw [hi, Function.update_self]
      rfl
    · rw [Function.update_of_ne hi, start, atRoot]
      dsimp only
      rw [if_neg hi, if_neg hi]
  have hstep : TreeStep true oneFolder start _ :=
    TreeStep.acquire 0 (show 0 < start.refs 0 by decide) hacquire
  rw [hrefs] at hstep
  exact Relation.ReflTransGen.single hstep

/-- The folder `a` is opened from the root as `./a`. -/
theorem opens_dot_slash :
  Opens true oneFolder atRoot.all atRoot.refs 0 [DOT, SLASH, 0x61] ALLOW_FOLDER
  := by
  rw [opens_iff proper_oneFolder grows_atRoot rfl rfl (by decide)]
  have hcomponents : components [DOT, SLASH, 0x61] = [[DOT], [0x61]] := rfl
  rw [hcomponents, steady_cons (List.cons_ne_nil _ _)]
  intro _
  refine ⟨?_, ?_⟩
  · intro heq
    cases heq
  · intro next _
    rw [Steady]
    refine ⟨by decide, ?_⟩
    intro heq
    cases heq

/-- The path `.` returns the root without a reference, and in `a/../a` the thread waits for a lock
that it holds. -/
theorem lost_reference :
  Grows true oneFolder atRoot ∧ ¬ Opens true oneFolder atRoot.all atRoot.refs 0 [DOT] ALLOW_FOLDER ∧
    impOpen true oneFolder atRoot.all 0 [0x61, SLASH, DOT, DOT, SLASH, 0x61] ALLOW_FOLDER
      = .error (.blocked 0)
  := by
  refine ⟨grows_atRoot, ?_, rfl⟩
  rintro ⟨res, s', hrun, hout, -⟩
  obtain ⟨s₁, f, hrun₁, hf, hcount⟩ : ∃ s₁ f, impOpen true oneFolder atRoot.all 0 [DOT] ALLOW_FOLDER
      = .ok (some 0, s₁) ∧ s₁.inst 0 = some f ∧ f.refCount = 1 ∧ f.fileTable.entries = [] :=
    ⟨_, _, rfl, rfl, rfl, rfl⟩
  rw [hrun₁] at hrun
  cases hrun
  have hdue := hout.inv.count 0 f hf
  rw [hcount.1, hcount.2] at hdue
  exact absurd hdue (by decide)

end Instances

end UOS
