import Cofuos.FileSystem.OpenPath

/-!
# The path of an instance

`file_instance::get_path` of `kernel/filesystem/instance.cpp` goes up from an instance to the root,
and writes the names after each other, each after a slash. `file::open` of
`kernel/filesystem/file.cpp` goes down again from the root. We show that it comes back to the
instance, if no name of the volume has a slash or is one of `.` and `..`.
-/

namespace UOS

open Exfat

namespace Instances

/-! ### The code -/

/-- `file_instance::imp_get_path` -/
def impGetPath (s : Instances) : ℕ → ℕ → Name
  | 0, _ => []
  | n + 1, i =>
    match s.inst i with
    | none => []
    | some f =>
      match f.parent with
      | none => []
      | some p => impGetPath s n p ++ SLASH :: f.name

/-- `file_instance::get_path` -/
def getPath (s : Instances) (i : ℕ) : Name :=
  let str := s.impGetPath (i + 1) i
  if str = [] then [SLASH] else str

/-- The folder `bin` of the root, from which programs are loaded. -/
def BIN : Name := [0x62, 0x69, 0x6E]

/-- `file::open`, for a process with a working directory. A file has the reference to the
instance. -/
def openFile (debug : Bool) (tree : Tree) (s : Instances) (workDir : Option ℕ) (path : Name)
    (mode : BitVec 8) : Except Halt (Option ℕ × Instances) :=
  match path with
  | [] => return (none, s)
  | ch :: rest =>
    if ch = SLASH then do
      let s ← call (s.acquire 0)
      impOpen debug tree s 0 rest mode
    else if mode &&& 0x80 ≠ 0 ∧ SLASH ∉ path then do
      -- load program
      let (bin, s) ← call (s.openChild 0 BIN ALLOW_FOLDER (tree (s.path 0)))
      match bin with
      | none => .error (.fault (.bugcheck "null pointer"))
      | some bin =>
        let f ← call (s.deref bin)
        call (Fault.assert debug (f.isFolder = true))
        impOpen debug tree s bin path mode
    else
      -- parse relative path
      match workDir with
      | none => return (none, s)
      | some cur => do
        let s ← call (s.acquire cur)
        impOpen debug tree s cur path mode

/-! ### Names without slashes -/

/-- A name that is read as it was written. -/
def Plain (str : Name) : Prop := SLASH ∉ str ∧ str ≠ [DOT] ∧ str ≠ [DOT, DOT]

/-- The stored names of a volume are read as they were written. -/
def Tree.Plain (tree : Tree) : Prop := ∀ node, ∀ r ∈ tree node, Instances.Plain r.name

/-- Names after each other, each after a slash. -/
def printed (names : List Name) : Name := names.flatMap fun str => SLASH :: str

variable {debug : Bool} {tree : Tree} {s s' s₁ : Instances} {refs refs' : ℕ → ℕ} {i j p cur n : ℕ}
  {f g : FileInstance} {str : Name} {names node : List Name} {mode : BitVec 8} {x : State}

theorem impGetPath_eq : s.impGetPath n i = printed (s.pathUp n i) := by
  induction n generalizing i with
  | zero => rfl
  | succ n ih =>
      rw [impGetPath, pathUp]
      cases hi : s.inst i with
      | none => rfl
      | some f =>
          dsimp only
          cases hparent : f.parent with
          | none => rfl
          | some p =>
              dsimp only
              rw [ih, printed, printed, List.flatMap_append, List.flatMap_singleton]

/-- The path of an instance has its names, and that of the root has none. -/
theorem getPath_eq : s.getPath i = SLASH :: (printed (s.path i)).tail := by
  rw [getPath, impGetPath_eq, ← path]
  cases s.path i with
  | nil => rfl
  | cons str names =>
      rw [if_neg (by rw [printed, List.flatMap_cons, List.cons_append]; apply List.cons_ne_nil)]
      rfl

/-- The first name is read up to the slash before the next one. -/
theorem takeWhile_printed (names : List Name) (hslash : SLASH ∉ str) :
  (str ++ printed names).takeWhile (· ≠ SLASH) = str ∧
    (str ++ printed names).dropWhile (· ≠ SLASH) = printed names
  := by
  have hall : ∀ ch ∈ str, decide (ch ≠ SLASH) = true := by
    intro ch hch
    rw [decide_eq_true_eq]
    rintro rfl
    exact hslash hch
  rw [List.takeWhile_append_of_pos hall, List.dropWhile_append_of_pos hall]
  cases names with
  | nil =>
      rw [printed, List.flatMap_nil]
      exact ⟨List.append_nil str, rfl⟩
  | cons str' names =>
      rw [printed, List.flatMap_cons, List.cons_append,
        List.takeWhile_cons_of_neg (by decide), List.dropWhile_cons_of_neg (by decide)]
      exact ⟨List.append_nil str, rfl⟩

/-! ### The folders on the way -/

/-- The names of an instance are those of records. -/
theorem Grown.plain (h : Grown tree s) (hinv : Inv s refs) (hplain : tree.Plain)
    (hi : s.inst i = some f) :
  ∀ str ∈ s.path i, Instances.Plain str ∧ str ≠ []
  := by
  induction i using Nat.strong_induction_on generalizing f with
  | _ i ih =>
      intro str hstr
      cases hparent : f.parent with
      | none =>
          rw [path_of_root hi hparent] at hstr
          cases hstr
      | some p =>
          rw [hinv.path_child hi hparent] at hstr
          rcases List.mem_append.1 hstr with hstr | hstr
          · obtain ⟨g, hp, -⟩ := hinv.listed i f p hi hparent
            apply ih p (hinv.below i f p hi hparent) hp str hstr
          · obtain ⟨r, hr, hname, -, -, hne⟩ := h.record i f p hi hparent
            rw [List.mem_singleton.1 hstr, ← hname]
            exact ⟨hplain _ r hr, hne⟩

/-- The folders on the way to an instance are there. -/
theorem Inv.exists_above (h : Inv s refs) (hj : s.inst j = some g) (hpre : node <+: s.path j) :
  ∃ i f, s.inst i = some f ∧ s.path i = node ∧ i ≤ j
  := by
  induction j using Nat.strong_induction_on generalizing g with
  | _ j ih =>
      by_cases heq : node = s.path j
      · exact ⟨j, g, hj, heq.symm, le_rfl⟩
      cases hparent : g.parent with
      | none =>
          rw [path_of_root hj hparent] at hpre heq
          exact absurd (List.prefix_nil.1 hpre) heq
      | some p =>
          rw [h.path_child hj hparent] at hpre heq
          obtain ⟨g', hp, -⟩ := h.listed j g p hj hparent
          have hlt := h.below j g p hj hparent
          rcases List.prefix_concat_iff.1 hpre with hsame | hshort
          · exact absurd hsame heq
          · obtain ⟨i, f, hi, hpath, hle⟩ := ih p hlt hp hshort
            exact ⟨i, f, hi, hpath, hle.trans hlt.le⟩

/-- The next folder on the way is a child. -/
theorem Inv.exists_child (h : Inv s refs) (hj : s.inst j = some g) (hcur : s.inst cur = some f)
    (hpath : s.path j = s.path cur ++ str :: names) :
  ∃ i c, s.inst i = some c ∧ c.parent = some cur ∧ c.name = str ∧ s.path i = s.path cur ++ [str]
  := by
  have hpre : s.path cur ++ [str] <+: s.path j := by
    rw [hpath, List.append_cons (s.path cur) str names]
    apply List.prefix_append
  obtain ⟨i, c, hi, hipath, -⟩ := h.exists_above hj hpre
  cases hparent : c.parent with
  | none =>
      rw [path_of_root hi hparent] at hipath
      exact absurd hipath.symm (List.append_ne_nil_of_right_ne_nil _ (List.cons_ne_nil _ _))
  | some p =>
      obtain ⟨f', hp, -⟩ := h.listed i c p hi hparent
      have hsame := hipath
      rw [h.path_child hi hparent] at hsame
      obtain ⟨hpcur, hname⟩ := List.append_inj' hsame rfl
      rw [h.path_inj hp hcur hpcur] at hparent
      exact ⟨i, c, hi, hparent, (List.cons.inj hname).1, hipath⟩

/-- An instance stays while those who have a reference to it, or to what is below it, keep one. -/
theorem Inv.stays (h : Inv s refs) (hpos : Positive s) (h' : Inv s' refs') (hkept : Kept s s')
    (hi : s.inst i = some f) (hkeep : ∀ j, s.path i <+: s.path j → 0 < refs j → 0 < refs' j) :
  ∃ f', s'.inst i = some f' ∧ Same f f' ∧ s'.path i = s.path i
  := by
  obtain ⟨j, g, hj, hrefs, hpre⟩ := h.exists_below hpos hi
  obtain ⟨g', hj'⟩ := h'.alive j (hkeep j hpre hrefs)
  rw [← h.path_kept h' hkept hj' (h.fresh j g hj)] at hpre
  obtain ⟨i', f', hi', hpath, hle'⟩ := h'.exists_above hj' hpre
  have hlt := hle'.trans_lt (h.fresh j g hj)
  obtain ⟨f₀, hf₀, hsame⟩ := hkept.same i' f' hi' hlt
  rw [h.path_kept h' hkept hi' hlt] at hpath
  obtain rfl := h.path_inj hf₀ hi hpath
  rw [hi] at hf₀
  cases hf₀
  exact ⟨f', hi', hsame, h.path_kept h' hkept hi' hlt⟩

/-! ### Down from the root -/

/-- The names of an instance lead to it from each of its folders. -/
theorem Inside.open_printed (debug : Bool) (mode : BitVec 8) (h : Inside tree s refs cur f)
    (hi : s.inst i = some g) (hpath : s.path i = s.path cur ++ names)
    (hplain : ∀ str ∈ names, Instances.Plain str ∧ str ≠ [])
    (hmode : allows mode g.isFolder = true) (hn : (printed names).tail.length < n) :
  ∃ s', Instances.openLoop debug tree mode n s cur (printed names).tail = .ok (some i, s') ∧
    Outcome s s' (withResult refs (some i))
  := by
  induction names generalizing n s cur f g with
  | nil =>
      obtain ⟨n, rfl⟩ : ∃ m, n = m + 1 := ⟨n - 1, by lia⟩
      rw [List.append_nil] at hpath
      obtain rfl := h.inv.path_inj hi h.inst hpath
      rw [h.inst] at hi
      cases hi
      rw [h.isFolder, allows, if_pos rfl, decide_eq_true_eq] at hmode
      refine ⟨s, ?_, h.outcome⟩
      have hnil : (printed []).tail = [] := rfl
      rw [Instances.openLoop, if_pos hnil, if_pos hmode]
      rfl
  | cons str names ih =>
      obtain ⟨n, rfl⟩ : ∃ m, n = m + 1 := ⟨n - 1, by lia⟩
      obtain ⟨⟨hslash, hdot, hup⟩, hnil⟩ := hplain str List.mem_cons_self
      obtain ⟨next, c, hc, hparent, hname, hcpath⟩ := h.inv.exists_child hi h.inst hpath
      have htail : (printed (str :: names)).tail = str ++ printed names := rfl
      obtain ⟨htake, hdrop⟩ := takeWhile_printed names hslash
      rw [htail] at hn ⊢
      rw [Instances.openLoop, if_neg (List.append_ne_nil_of_left_ne_nil hnil _)]
      dsimp only
      rw [htake, hdrop, if_neg hnil, Instances.nextOf, if_neg hdot, if_neg hup]
      -- the child is opened, and its kind is allowed
      obtain ⟨mode', hmode'⟩ : ∃ mode', mode' = if printed names = [] then mode else ALLOW_FOLDER :=
        ⟨_, rfl⟩
      have hbelow : s.path i = s.path next ++ names := by
        rw [hpath, hcpath, List.append_assoc]
        rfl
      have hallows : allows mode' c.isFolder = true := by
        cases names with
        | nil =>
            rw [List.append_nil] at hbelow
            obtain rfl := h.inv.path_inj hi hc hbelow
            rw [hi] at hc
            cases hc
            rw [hmode', if_pos (show printed [] = [] from rfl), hmode]
        | cons str' names =>
            obtain ⟨k, d, hk, hdparent, -⟩ := h.inv.exists_child hi hc hbelow
            rw [hmode', if_neg (show printed (str' :: names) ≠ [] from List.cons_ne_nil _ _),
              allows_folder, h.grown.folder k d next c hk hdparent hc]
      obtain ⟨s₁, hopen, hout₁⟩ : ∃ s₁, s.openChild cur str mode' (tree (s.path cur)) = _ ∧ _ :=
        h.inv.openChild_child h.positive hc hparent (by rw [hname]; apply nameEqual_refl)
      rw [if_pos hallows] at hopen hout₁
      have hback := hout₁
      change Outcome s s₁ (withResult (withResult refs (some cur)) (some next)) at hout₁ hback
      rw [withResult_comm] at hback
      obtain ⟨s₂, hrelax, hout₂⟩ := hback.inv.giveBack debug hback.positive
        (h.root.trans_le (le_withResult refs (some next) 0))
      rw [← hmode', hopen, call, Except.ok_bind]
      dsimp only
      by_cases hlast : printed names = []
      · have hnames : names = [] := by
          cases names with
          | nil => rfl
          | cons str' names => cases hlast
        rw [if_pos hlast, hrelax]
        rw [hnames, List.append_nil] at hbelow
        rw [h.inv.path_inj hi hc hbelow]
        exact ⟨s₂, rfl, hout₁.trans hout₂⟩
      · rw [if_neg hlast]
        rw [hmode', if_neg hlast, allows_folder] at hallows
        obtain ⟨c₁, hc₁, hsame, hpath₁⟩ := h.inv.stays h.positive hout₁.inv hout₁.kept hc
          (fun j _ hj => hj.trans_le (le_withResult _ _ j))
        have hfolder : c₁.isFolder = true := by rw [hsame.isFolder, hallows]
        obtain ⟨f₁, hf₁, hne, -, hmore⟩ := h.leave hout₁
          (.inl ⟨hup, c₁, hc₁, by rw [hsame.parent, hparent]⟩)
        have hgrown₁ := h.grown.openChild h.inv hout₁ h.inst h.isFolder hnil hopen
        obtain ⟨c₂, hinside, hpath₂⟩ := h.arrive hgrown₁ hout₁.inv hc₁ hfolder hout₂
          (relax_made hrelax)
        obtain ⟨g₂, hi₂, hsame₂, hipath⟩ := h.inv.stays h.positive hinside.inv
          (hout₁.kept.trans hout₂.kept) hi (by
            intro j hpre hj
            have hcur : j ≠ cur := by
              rintro rfl
              have hle := hpre.length_le
              rw [hpath, List.length_append, List.length_cons] at hle
              omega
            rw [withResult_of_ne refs hcur] at hj
            exact hj.trans_le (le_withResult _ _ j))
        obtain ⟨s', hrun, hout'⟩ := ih (n := n) hinside hi₂ (by rw [hipath, hpath₂, hpath₁, hbelow])
          (fun str' hstr' => hplain str' (List.mem_cons_of_mem _ hstr'))
          (by rw [hsame₂.isFolder, hmode]) (by
            have hpos := List.length_pos_of_ne_nil hnil
            rw [List.length_append] at hn
            rw [List.length_tail]
            lia)
        refine ⟨s', ?_, (hout₁.trans hout₂).trans hout'⟩
        rw [deref_eq hc₁, call, Except.ok_bind, Fault.assert_eq_ok (fun _ => hfolder), call,
          Except.ok_bind, if_pos hne,
          relaxHolding_of_more hf₁ (hmore.1 (fun heq => absurd heq hup)), hrelax, call,
          Except.ok_bind, hrun]

/-- An instance is opened by its path from the root, if the mode allows its kind. -/
theorem open_getPath (hplain : tree.Plain) (hx : Grows debug tree x) (hi : x.all.inst i = some f)
    (hmode : allows mode f.isFolder = true) (workDir : Option ℕ) :
  ∃ s', openFile debug tree x.all workDir (x.all.getPath i) mode = .ok (some i, s') ∧
    Outcome x.all s' (withResult x.refs (some i))
  := by
  obtain ⟨hinv, hpos, hgrown⟩ := hx.grown
  obtain ⟨g, hg⟩ := hinv.alive 0 hinv.root
  obtain ⟨hparent, hfolder⟩ := hgrown.root g hg
  obtain ⟨s₁, hacquire, hout⟩ := hinv.acquire hpos hg (withResult_self x.refs 0)
    (fun j hj => withResult_of_ne x.refs hj)
  obtain ⟨g₁, hg₁, hsame, hpath⟩ := hinv.stays hpos hout.inv hout.kept hg
    (fun j _ hj => hj.trans_le (le_withResult _ _ j))
  obtain ⟨f₁, hf₁, hsame', hpath'⟩ := hinv.stays hpos hout.inv hout.kept hi
    (fun j _ hj => hj.trans_le (le_withResult _ _ j))
  have hinside : Inside tree s₁ x.refs 0 g₁ :=
    { inv := hout.inv
      positive := hout.positive
      grown := hgrown.outcome hinv hout (acquire_made hacquire)
      inst := hg₁
      isFolder := by rw [hsame.isFolder, hfolder]
      root := hinv.root }
  have hdown : s₁.path i = s₁.path 0 ++ x.all.path i := by
    rw [hpath', hpath, path_of_root hg hparent, List.nil_append]
  obtain ⟨s', hrun, hout'⟩ := hinside.open_printed debug mode hf₁ hdown
    (hgrown.plain hinv hplain hi) (by rw [hsame'.isFolder, hmode]) (Nat.lt_succ_self _)
  refine ⟨s', ?_, hout.trans hout'⟩
  rw [getPath_eq]
  unfold openFile
  dsimp only
  rw [if_pos rfl, hacquire, call, Except.ok_bind, impOpen, hrun]

theorem plain_oneFolder : oneFolder.Plain := by
  intro node r hr
  rw [oneFolder] at hr
  split_ifs at hr
  · rw [List.mem_singleton.1 hr]
    exact ⟨by decide, by decide, by decide⟩
  · cases hr

/-- The folder `a` is open, and is opened once more by its path. -/
theorem open_getPath_letter :
  ∃ x, Grows true oneFolder x ∧ x.all.getPath 1 = [SLASH, 0x61] ∧
    ∃ s', openFile true oneFolder x.all none [SLASH, 0x61] ALLOW_FOLDER = .ok (some 1, s')
  := by
  obtain ⟨s₁, f, hopen, hf, hfolder, hpath⟩ : ∃ s₁ f, start.all.openChild 0 [0x61] ALLOW_FOLDER
      (oneFolder (start.all.path 0)) = .ok (some 1, s₁) ∧ s₁.inst 1 = some f ∧ f.isFolder = true ∧
        s₁.getPath 1 = [SLASH, 0x61] := ⟨_, _, rfl, rfl, rfl, rfl⟩
  have hstep : TreeStep true oneFolder start _ :=
    TreeStep.opened 0 [0x61] ALLOW_FOLDER (by decide) rfl rfl (List.cons_ne_nil _ _) hopen
  have hgrows := Relation.ReflTransGen.single hstep
  have hmode : allows ALLOW_FOLDER f.isFolder = true := by
    rw [hfolder]
    decide
  obtain ⟨s', hrun, -⟩ := open_getPath plain_oneFolder hgrows hf hmode none
  refine ⟨_, hgrows, hpath, s', ?_⟩
  rw [← hpath]
  exact hrun

end Instances

end UOS
