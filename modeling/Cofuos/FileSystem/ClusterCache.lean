import Cofuos.FileSystem.ClusterChain
import Cofuos.FileSystem.FatChain

/-!
# The cache of a chain agrees with the allocation table

A chain of clusters looks up its clusters in a cache, and extends itself under the cache. We show
that this agrees with following the allocation table from the first cluster, for every order of
the calls, and however other chains of the volume are extended in between.

A cluster that is allocated is taken from the bitmap. That it is not one of the clusters of the
chain is known only if the bitmap has the clusters of the chain as used, which is the case on a
volume that is consistent.
-/

namespace UOS

namespace ClusterChain

variable {debug : Bool} {fs fs' : Exfat} {c c' : ClusterChain} {dm dm' : Dm} {r r' : FatReader}
  {cur l : Line} {first index n node : ℕ}

/-! ### Looking up a cluster -/

/-- The line of a cluster, and nothing if the chain is shorter. -/
def lineAt (fs : Exfat) (first i : ℕ) : Option Line :=
  if fs.clusterAt first i = 0 then none
  else some { index := i, cluster := fs.clusterAt first i }

/-- A walk reaches the cluster that is reached by following the entries from the first one. -/
theorem walk_eq (hi : fs.Intact first) (hcur : cur.cluster = fs.clusterAt first cur.index)
    (h₀ : cur.cluster ≠ 0) (hr : r.Valid fs) (hdm : dm.Succeeds) :
  ∃ r' dm', walk debug fs n cur r dm = .ok (lineAt fs first (cur.index + n), r', dm')
  := by
  induction n generalizing cur r dm with
  | zero =>
      use r, dm
      rw [walk, lineAt, Nat.add_zero, ← hcur, if_neg h₀]
  | succ n ih =>
      have hgood := hi cur.index (hcur ▸ h₀)
      obtain ⟨r', dm', hget, hr', hdm'⟩ := FatReader.get_eq hr hdm
        (fun _ : debug = true => hcur ▸ hgood.two_le)
      have hsucc : fs.clusterAt first (cur.index + 1) = fs.next cur.cluster := by
        rw [Exfat.clusterAt_succ, ← hcur]
      rw [walk, hget, Except.ok_bind]
      dsimp only
      rw [show cur.index + (n + 1) = cur.index + 1 + n by lia]
      by_cases hend : fs.entry cur.cluster = 0 ∨ Exfat.END ≤ fs.entry cur.cluster
      · -- the chain ends here
        have hz : fs.clusterAt first (cur.index + 1) = 0 := by
          rw [hsucc, Exfat.next]
          split_ifs with h
          · rfl
          · apply hend.resolve_right (fun h' => h (Or.inr h'))
        rw [if_pos hend, lineAt, if_pos (Exfat.clusterAt_add_eq_zero hz n)]
        exact ⟨r', dm', rfl⟩
      · rw [not_or] at hend
        rw [if_neg (not_or.2 hend)]
        apply ih _ hend.1 hr' hdm'
        dsimp only
        rw [hsucc, Exfat.next, if_neg (not_or.2 ⟨h₀, hend.2⟩)]

/-- The lines of the cache are in descending order and have their true clusters, and the queue
refers to each of them once. -/
structure Listed (fs : Exfat) (c : ClusterChain) : Prop where
  descending : (c.cacheLine.map fun n => n.2.index).Pairwise (· > ·)
  pos : ∀ n ∈ c.cacheLine, 1 ≤ n.2.index
  correct : ∀ n ∈ c.cacheLine, n.2.cluster ≠ 0 ∧ n.2.cluster = fs.clusterAt c.firstCluster n.2.index
  nodup : (c.cacheLine.map Prod.fst).Nodup
  referenced : c.lruQueue.Perm (c.cacheLine.map Prod.fst)
  fresh : ∀ n ∈ c.cacheLine, n.1 < c.nodes

/-- The cache is in order, and does not exceed its limit. -/
structure Right (debug : Bool) (fs : Exfat) (c : ClusterChain) : Prop extends Listed fs c where
  size : c.cacheLine.length ≤ limit debug

/-- The lines of the cache are in descending order, and the queue refers to each of them once,
whatever clusters they have. -/
structure Ordered (c : ClusterChain) : Prop where
  descending : (c.cacheLine.map fun n => n.2.index).Pairwise (· > ·)
  pos : ∀ n ∈ c.cacheLine, 1 ≤ n.2.index
  found : ∀ n ∈ c.cacheLine, n.2.cluster ≠ 0
  nodup : (c.cacheLine.map Prod.fst).Nodup
  referenced : c.lruQueue.Perm (c.cacheLine.map Prod.fst)
  fresh : ∀ n ∈ c.cacheLine, n.1 < c.nodes

/-- One line is removed at a time. -/
theorem length_dropBack : c.dropBack.lruQueue.length = c.lruQueue.length - 1 := by
  rw [dropBack]
  split
  · rename_i hlast
    rw [List.getLast?_eq_none_iff] at hlast
    rw [hlast]
    rfl
  · apply List.length_dropLast

/-- After excess lines have been removed, the cache does not exceed its limit. -/
theorem length_shrink (hn : c.lruQueue.length ≤ n) :
  (shrink debug n c).lruQueue.length ≤ limit debug
  := by
  induction n generalizing c with
  | zero =>
      rw [shrink, Nat.le_zero.1 hn]
      apply Nat.zero_le
  | succ n ih =>
      rw [shrink]
      split_ifs with hlt
      · apply ih
        rw [length_dropBack]
        lia
      · apply not_lt.1 hlt

/-- The cache of a chain is not what the chain is. -/
theorem shrink_keeps :
  (shrink debug n c).firstCluster = c.firstCluster ∧ (shrink debug n c).linear = c.linear
  := by
  induction n generalizing c with
  | zero => exact ⟨rfl, rfl⟩
  | succ n ih =>
      rw [shrink]
      split_ifs
      · rw [ih.1, ih.2, dropBack]
        split
        · exact ⟨rfl, rfl⟩
        · exact ⟨rfl, rfl⟩
      · exact ⟨rfl, rfl⟩

/-- Using a line again keeps the lines. -/
theorem cacheLine_touch : (c.touch node).cacheLine = c.cacheLine := by
  rw [touch]
  split_ifs
  · rfl
  · rfl

/-- Using a line again leaves the chain as it is. -/
theorem touch_keeps :
  (c.touch node).firstCluster = c.firstCluster ∧ (c.touch node).linear = c.linear
  := by
  rw [touch]
  split_ifs
  · exact ⟨rfl, rfl⟩
  · exact ⟨rfl, rfl⟩

/-- No line is made when excess lines are removed. -/
theorem shrink_sublist : (shrink debug n c).cacheLine.Sublist c.cacheLine := by
  induction n generalizing c with
  | zero => apply List.Sublist.refl
  | succ n ih =>
      rw [shrink]
      split_ifs
      · apply ih.trans
        rw [dropBack]
        split
        · apply List.Sublist.refl
        · apply List.eraseP_sublist
      · apply List.Sublist.refl

namespace Ordered

variable (h : Ordered c)

include h

theorem length_eq : c.lruQueue.length = c.cacheLine.length := by
  rw [h.referenced.length_eq, List.length_map]

/-- The line of a node of the cache. -/
theorem line_eq_some_iff : c.line node = some l ↔ (node, l) ∈ c.cacheLine := by
  rw [line, List.lookup_eq_some_iff]
  constructor
  · rintro ⟨l₁, l₂, heq, -⟩
    rw [heq]
    apply List.mem_append_right _ List.mem_cons_self
  · intro hmem
    obtain ⟨l₁, l₂, heq⟩ := List.append_of_mem hmem
    refine ⟨l₁, l₂, heq, ?_⟩
    intro p hp
    have hnd := h.nodup
    rw [heq, List.map_append, List.map_cons] at hnd
    have hne := (List.nodup_append.1 hnd).2.2 p.1 (List.mem_map_of_mem hp) node
      List.mem_cons_self
    simpa using Ne.symm hne

/-- A line that is found is one of the cache, and has the index. -/
theorem hit_some (hhit : c.hit index = some node) :
  ∃ l, c.line node = some l ∧ node ∈ c.lruQueue ∧ (node, l) ∈ c.cacheLine ∧ l.index = index
  := by
  have hmem := List.mem_of_find?_eq_some hhit
  have hfound := List.find?_some hhit
  rw [decide_eq_true_eq, Option.map_eq_some_iff] at hfound
  obtain ⟨l, hl, rfl⟩ := hfound
  exact ⟨l, hl, hmem, h.line_eq_some_iff.1 hl, rfl⟩

/-- When no line is found, no line has the index. -/
theorem hit_none (hhit : c.hit index = none) :
  ∀ n ∈ c.cacheLine, n.2.index ≠ index
  := by
  rintro ⟨node, l⟩ hn rfl
  have hmem : node ∈ c.lruQueue := h.referenced.mem_iff.2 (List.mem_map_of_mem hn)
  have hnot := List.find?_eq_none.1 hhit node hmem
  rw [h.line_eq_some_iff.2 hn] at hnot
  simp at hnot

/-- Using a line again leaves the cache in order. -/
theorem touch (hnode : node ∈ c.lruQueue) : Ordered (c.touch node) := by
  rw [ClusterChain.touch]
  split_ifs
  · apply h
  · refine { h with referenced := ?_ }
    apply List.Perm.trans _ h.referenced
    apply (List.perm_cons_erase hnode).symm

/-- Removing the line that was used least recently leaves the cache in order. -/
theorem dropBack : Ordered c.dropBack := by
  rw [ClusterChain.dropBack]
  split
  · apply h
  · rename_i node hlast
    have hsub : (c.cacheLine.eraseP fun n => n.1 = node).Sublist c.cacheLine :=
      List.eraseP_sublist
    have herase : (c.cacheLine.eraseP fun n => n.1 = node).map Prod.fst
        = (c.cacheLine.map Prod.fst).erase node := by
      rw [List.erase_eq_eraseP', List.eraseP_map]
      rfl
    constructor
    · apply h.descending.sublist (hsub.map _)
    · intro n hn
      apply h.pos n (hsub.subset hn)
    · intro n hn
      apply h.found n (hsub.subset hn)
    · apply h.nodup.sublist (hsub.map _)
    · dsimp only
      rw [herase]
      have hsplit : c.lruQueue = c.lruQueue.dropLast ++ [node] :=
        (List.dropLast_append_getLast? node hlast).symm
      have hperm : (node :: c.lruQueue.dropLast).Perm (c.cacheLine.map Prod.fst) := by
        apply List.Perm.trans _ h.referenced
        rw [hsplit, List.dropLast_concat]
        apply (List.perm_append_singleton _ _).symm
      apply (List.erase_cons_head node _) ▸ hperm.erase node
    · intro n hn
      apply h.fresh n (hsub.subset hn)

/-- Removing excess lines leaves the cache in order. -/
theorem shrink : Ordered (shrink debug n c) := by
  induction n generalizing c with
  | zero => apply h
  | succ n ih =>
      rw [ClusterChain.shrink]
      split_ifs
      · apply ih h.dropBack
      · apply h

/-- A line that is put between the lines with greater and those with lesser indices leaves the
cache in order. -/
theorem insertLine {before after : List (ℕ × Line)} (hsplit : c.cacheLine = before ++ after)
    (hbefore : ∀ n ∈ before, l.index < n.2.index) (hafter : ∀ n ∈ after, n.2.index < l.index)
    (hpos : 1 ≤ l.index) (h₀ : l.cluster ≠ 0) :
  ∃ c', c.insertLine debug before after l = .ok c' ∧ Ordered c' ∧
    c'.cacheLine.length ≤ limit debug ∧ (∀ n ∈ c'.cacheLine, n = (c.nodes, l) ∨ n ∈ c.cacheLine) ∧
    c'.firstCluster = c.firstCluster ∧ c'.linear = c.linear
  := by
  let c₁ : ClusterChain := { c with
    cacheLine := before ++ (c.nodes, l) :: after
    lruQueue := c.nodes :: c.lruQueue
    nodes := c.nodes + 1 }
  have hmem : ∀ n ∈ c₁.cacheLine, n = (c.nodes, l) ∨ n ∈ c.cacheLine := by
    intro n hn
    rw [hsplit]
    simp only [c₁, List.mem_append, List.mem_cons] at hn ⊢
    tauto
  have hperm : c₁.cacheLine.Perm ((c.nodes, l) :: c.cacheLine) := by
    rw [hsplit]
    apply List.perm_middle
  have h₁ : Ordered c₁ := by
    constructor
    · have hd := h.descending
      rw [hsplit, List.map_append, List.pairwise_append] at hd
      simp only [c₁, List.map_append, List.map_cons, List.pairwise_append, List.pairwise_cons]
      refine ⟨hd.1, ⟨?_, hd.2.1⟩, ?_⟩
      · intro i hi
        obtain ⟨n, hn, rfl⟩ := List.mem_map.1 hi
        apply hafter n hn
      · intro i hi j hj
        obtain rfl | hj := List.mem_cons.1 hj
        · obtain ⟨n, hn, rfl⟩ := List.mem_map.1 hi
          apply hbefore n hn
        · apply hd.2.2 i hi j hj
    · intro n hn
      obtain rfl | hn := hmem n hn
      · apply hpos
      · apply h.pos n hn
    · intro n hn
      obtain rfl | hn := hmem n hn
      · apply h₀
      · apply h.found n hn
    · rw [(hperm.map Prod.fst).nodup_iff, List.map_cons, List.nodup_cons]
      refine ⟨?_, h.nodup⟩
      intro hin
      obtain ⟨n, hn, heq⟩ := List.mem_map.1 hin
      have := h.fresh n hn
      dsimp only at heq
      omega
    · apply List.Perm.trans _ (hperm.map Prod.fst).symm
      apply h.referenced.cons
    · intro n hn
      obtain rfl | hn := hmem n hn
      · apply Nat.lt_succ_self
      · apply Nat.lt_succ_of_lt (h.fresh n hn)
  have h₂ : Ordered (ClusterChain.shrink debug c₁.lruQueue.length c₁) := h₁.shrink
  refine ⟨_, ?_, h₂, ?_, ?_, shrink_keeps⟩
  · rw [ClusterChain.insertLine]
    dsimp only
    rw [Fault.assert_eq_ok, Except.ok_bind, Fault.assert_eq_ok, Except.ok_bind,
      Fault.assert_eq_ok, Except.ok_bind]
    · rfl
    · intro _
      apply h₂.length_eq
    · intro _ n hn
      have := h₁.pos n hn
      omega
    · intro _
      apply h₁.descending
  · rw [← h₂.length_eq]
    apply length_shrink le_rfl
  · intro n hn
    apply hmem n (shrink_sublist.subset hn)

/-- The index of a line that is not in the cache divides the cache. -/
theorem exists_span (hhit : c.hit index = none) :
  ∃ before after, c.cacheLine.span (fun n => index ≤ n.2.index) = (before, after) ∧
    c.cacheLine = before ++ after ∧ (∀ n ∈ before, index < n.2.index) ∧
    ∀ n ∈ after, n.2.index < index
  := by
  have hne := h.hit_none hhit
  refine ⟨_, _, List.span_eq_takeWhile_dropWhile .., (List.takeWhile_append_dropWhile ..).symm,
    ?_, ?_⟩
  · intro n hn
    have hle := List.all_eq_true.1 (List.all_takeWhile ..) n hn
    rw [decide_eq_true_eq] at hle
    apply lt_of_le_of_ne hle (hne n ((List.takeWhile_sublist _).subset hn)).symm
  · have hd := h.descending.sublist ((List.dropWhile_sublist
      (fun n : ℕ × Line => decide (index ≤ n.2.index))).map _)
    have hnot := List.head?_dropWhile_not (fun n => decide (index ≤ n.2.index)) c.cacheLine
    cases hcons : c.cacheLine.dropWhile fun n => decide (index ≤ n.2.index) with
    | nil =>
        intro n hn
        cases hn
    | cons m rest =>
        rw [hcons, List.head?_cons] at hnot
        dsimp only at hnot
        rw [decide_eq_false_iff_not, not_le] at hnot
        rw [hcons, List.map_cons, List.pairwise_cons] at hd
        intro n hn
        obtain rfl | hn := List.mem_cons.1 hn
        · apply hnot
        · apply lt_trans (hd.1 _ (List.mem_map_of_mem hn)) hnot

/-- A cache in order whose lines have their true clusters. -/
theorem listed
    (hcorrect : ∀ n ∈ c.cacheLine, n.2.cluster = fs.clusterAt c.firstCluster n.2.index) :
  Listed fs c
  := by
  refine { h with correct := ?_ }
  intro n hn
  exact ⟨h.found n hn, hcorrect n hn⟩

/-- No line is at the first cluster, so that the assertions about the lines near an index hold. -/
theorem assert_lines (debug : Bool) {before after : List (ℕ × Line)}
    (hsplit : c.cacheLine = before ++ after) :
  (before ++ after.take 1).forM (fun n => Fault.assert debug (n.2.index ≠ 0)) = .ok ()
  := by
  apply Except.forM_eq_ok
  intro n hn
  apply Fault.assert_eq_ok
  intro _
  have hmem : n ∈ c.cacheLine := by
    rw [hsplit]
    rcases List.mem_append.1 hn with hn | hn
    · apply List.mem_append_left _ hn
    · apply List.mem_append_right _ (List.mem_of_mem_take hn)
  exact Nat.one_le_iff_ne_zero.1 (h.pos n hmem)

end Ordered

/-- The lines of a cache in order do not lead to the cluster `0`. -/
theorem Listed.ordered (h : Listed fs c) : Ordered c :=
  { h with found := fun n hn => (h.correct n hn).1 }

namespace Listed

variable (h : Listed fs c)

include h

/-- The line of a node of the cache. -/
theorem line_eq_some_iff : c.line node = some l ↔ (node, l) ∈ c.cacheLine :=
  h.ordered.line_eq_some_iff

/-- A line that is found has the index, and its true cluster. -/
theorem hit_some (hhit : c.hit index = some node) :
  ∃ l, c.line node = some l ∧ node ∈ c.lruQueue ∧ l.cluster = fs.clusterAt c.firstCluster index
  := by
  obtain ⟨l, hl, hmem, hline, rfl⟩ := h.ordered.hit_some hhit
  exact ⟨l, hl, hmem, (h.correct _ hline).2⟩

/-- Using a line again leaves the cache in order. -/
theorem touch (hnode : node ∈ c.lruQueue) : Listed fs (c.touch node) := by
  apply (h.ordered.touch hnode).listed
  intro n hn
  rw [cacheLine_touch] at hn
  rw [touch_keeps.1]
  apply (h.correct n hn).2

/-- A line that is put between the lines with greater and those with lesser indices leaves the
cache in order. -/
theorem insertLine {before after : List (ℕ × Line)} (hsplit : c.cacheLine = before ++ after)
    (hbefore : ∀ n ∈ before, l.index < n.2.index) (hafter : ∀ n ∈ after, n.2.index < l.index)
    (hpos : 1 ≤ l.index) (h₀ : l.cluster ≠ 0)
    (hl : l.cluster = fs.clusterAt c.firstCluster l.index) :
  ∃ c', c.insertLine debug before after l = .ok c' ∧ Right debug fs c' ∧
    c'.firstCluster = c.firstCluster ∧ c'.linear = c.linear
  := by
  obtain ⟨c', hins, hc', hsize, hsub, hfirst, hlinear⟩ : ∃ c',
      c.insertLine debug before after l = .ok c' ∧ Ordered c' ∧ _ :=
    h.ordered.insertLine hsplit hbefore hafter hpos h₀
  refine ⟨c', hins, ⟨hc'.listed ?_, hsize⟩, hfirst, hlinear⟩
  intro n hn
  rw [hfirst]
  obtain rfl | hn := hsub n hn
  · apply hl
  · apply (h.correct n hn).2

/-- The index of a line that is not in the cache divides the cache. -/
theorem exists_span (hhit : c.hit index = none) :
  ∃ before after, c.cacheLine.span (fun n => index ≤ n.2.index) = (before, after) ∧
    c.cacheLine = before ++ after ∧ (∀ n ∈ before, index < n.2.index) ∧
    ∀ n ∈ after, n.2.index < index :=
  h.ordered.exists_span hhit

/-- A walk starts at the nearest line before the index. -/
theorem start {before after : List (ℕ × Line)} (hf : c.firstCluster ≠ 0) (h₀ : index ≠ 0)
    (hsplit : c.cacheLine = before ++ after) (hafter : ∀ n ∈ after, n.2.index < index) :
  ∃ cur, cur = (after.head?.map Prod.snd).getD { index := 0, cluster := c.firstCluster } ∧
    cur.cluster = fs.clusterAt c.firstCluster cur.index ∧ cur.cluster ≠ 0 ∧ cur.index < index
  := by
  refine ⟨_, rfl, ?_⟩
  cases hcons : after with
  | nil => exact ⟨rfl, hf, Nat.pos_of_ne_zero h₀⟩
  | cons m rest =>
      have hm : m ∈ after := hcons ▸ List.mem_cons_self
      have := h.correct m (hsplit ▸ List.mem_append_right _ hm)
      exact ⟨this.2, this.1, hafter m hm⟩

end Listed

/-- Looking up a cluster agrees with following the allocation table, and leaves the cache in
order. -/
theorem get_eq (hi : fs.Intact c.firstCluster) (h : Right debug fs c) (hl : c.linear = false)
    (hdm : dm.Succeeds) (index : ℕ) :
  ∃ c' dm', c.get debug fs dm index = .ok (fs.clusterAt c.firstCluster index, c', dm') ∧
    Right debug fs c' ∧ c'.firstCluster = c.firstCluster ∧ c'.linear = c.linear
  := by
  rw [get]
  by_cases hf : c.firstCluster = 0
  · refine ⟨c, dm, ?_, h, rfl, rfl⟩
    have hz : fs.clusterAt 0 (0 + index) = 0 := Exfat.clusterAt_add_eq_zero rfl index
    rw [Nat.zero_add] at hz
    rw [if_pos hf, hf, hz]
    rfl
  rw [if_neg hf, if_neg (by rw [hl]; decide)]
  by_cases h₀ : index = 0
  · refine ⟨c, dm, ?_, h, rfl, rfl⟩
    rw [if_pos h₀, h₀]
    rfl
  rw [if_neg h₀]
  split
  · rename_i node hhit
    obtain ⟨l, hline, hmem, hl'⟩ := h.hit_some hhit
    refine ⟨c.touch node, dm, ?_, ⟨h.touch hmem, ?_⟩, ?_⟩
    · rw [hline, Option.map_some, Option.getD_some, hl']
      rfl
    · rw [touch]
      split_ifs
      · apply h.size
      · apply h.size
    · rw [touch]
      split_ifs
      · exact ⟨rfl, rfl⟩
      · exact ⟨rfl, rfl⟩
  · rename_i hhit
    obtain ⟨before, after, hspan, hsplit, hbefore, hafter⟩ := h.exists_span hhit
    rw [hspan]
    dsimp only
    obtain ⟨cur, hcur, hstart⟩ := h.start hf h₀ hsplit hafter
    rw [h.ordered.assert_lines debug hsplit, Except.ok_bind, ← hcur]
    obtain ⟨r', dm', hwalk⟩ : ∃ r' dm', walk debug fs (index - cur.index) cur {} dm
        = .ok (lineAt fs c.firstCluster (cur.index + (index - cur.index)), r', dm') :=
      walk_eq hi hstart.1 hstart.2.1 FatReader.valid_init hdm
    rw [Nat.add_sub_cancel' hstart.2.2.le] at hwalk
    rw [hwalk, Except.ok_bind]
    dsimp only
    by_cases hend : fs.clusterAt c.firstCluster index = 0
    · rw [lineAt, if_pos hend]
      refine ⟨c, r'.close dm', ?_, h, rfl, rfl⟩
      rw [hend]
      rfl
    · rw [lineAt, if_neg hend]
      dsimp only
      rw [Fault.assert_eq_ok (fun _ => rfl), Except.ok_bind]
      obtain ⟨c', hins, hc', hkeep⟩ : ∃ c', c.insertLine debug before after
          { index := index, cluster := fs.clusterAt c.firstCluster index } = .ok c' ∧
          Right debug fs c' ∧ c'.firstCluster = c.firstCluster ∧ c'.linear = c.linear :=
        h.insertLine hsplit hbefore hafter (Nat.pos_of_ne_zero h₀) hend rfl
      rw [hins, Except.ok_bind]
      exact ⟨c', _, rfl, hc', hkeep⟩

/-- A walk that comes to its end reaches the cluster that is reached by following the entries. -/
theorem walk_inv (hcur : cur.cluster = fs.clusterAt first cur.index) (h₀ : cur.cluster ≠ 0)
    (hr : r.Valid fs) (h : walk debug fs n cur r dm = .ok (some l, r', dm')) :
  l.index = cur.index + n ∧ l.cluster = fs.clusterAt first l.index ∧ l.cluster ≠ 0
  := by
  induction n generalizing cur r dm with
  | zero =>
      cases h
      exact ⟨rfl, hcur, h₀⟩
  | succ n ih =>
      rw [walk, Except.bind_eq_ok_iff] at h
      obtain ⟨⟨v, r₁, dm₁⟩, hget, h⟩ := h
      obtain ⟨hr₁, hv⟩ := FatReader.get_inv hr hget
      dsimp only at h
      by_cases hend : v = 0 ∨ Exfat.END ≤ v
      · rw [if_pos hend] at h
        cases h
      · rw [if_neg hend] at h
        rw [not_or] at hend
        have hnext : v = fs.clusterAt first (cur.index + 1) := by
          rw [Exfat.clusterAt_succ, ← hcur, Exfat.next, ← hv.resolve_left hend.1,
            if_neg (not_or.2 ⟨h₀, hend.2⟩)]
        obtain ⟨hindex, hl⟩ := ih hnext hend.1 hr₁ h
        refine ⟨?_, hl⟩
        rw [hindex]
        dsimp only
        lia

/-- Whether or not an access succeeds, what is looked up is the cluster with the index, or `0`. The
cache is left as it is then. -/
theorem get_inv (h : Right debug fs c) (hl : c.linear = false) {cluster : ℕ}
    (hget : c.get debug fs dm index = .ok (cluster, c', dm')) :
  (cluster = 0 ∧ c' = c ∨ cluster ≠ 0 ∧ cluster = fs.clusterAt c.firstCluster index) ∧
    Right debug fs c' ∧ c'.firstCluster = c.firstCluster ∧ c'.linear = c.linear
  := by
  rw [get] at hget
  by_cases hf : c.firstCluster = 0
  · rw [if_pos hf] at hget
    cases hget
    exact ⟨Or.inl ⟨rfl, rfl⟩, h, rfl, rfl⟩
  rw [if_neg hf, if_neg (by rw [hl]; decide)] at hget
  by_cases h₀ : index = 0
  · rw [if_pos h₀] at hget
    cases hget
    rw [h₀]
    exact ⟨Or.inr ⟨hf, rfl⟩, h, rfl, rfl⟩
  rw [if_neg h₀] at hget
  split at hget
  · rename_i node hhit
    cases hget
    obtain ⟨l, hline, hmem, hl'⟩ := h.hit_some hhit
    rw [hline, Option.map_some, Option.getD_some]
    refine ⟨Or.inr ⟨(h.correct _ (h.line_eq_some_iff.1 hline)).1, hl'⟩, ⟨h.touch hmem, ?_⟩, ?_⟩
    · rw [touch]
      split_ifs
      · apply h.size
      · apply h.size
    · rw [touch]
      split_ifs
      · exact ⟨rfl, rfl⟩
      · exact ⟨rfl, rfl⟩
  · rename_i hhit
    obtain ⟨before, after, hspan, hsplit, hbefore, hafter⟩ := h.exists_span hhit
    rw [hspan] at hget
    dsimp only at hget
    rw [Except.bind_eq_ok_iff] at hget
    obtain ⟨-, -, hget⟩ := hget
    rw [Except.bind_eq_ok_iff] at hget
    obtain ⟨⟨found, r₁, dm₁⟩, hwalk, hget⟩ := hget
    cases found with
    | none =>
        cases hget
        exact ⟨Or.inl ⟨rfl, rfl⟩, h, rfl, rfl⟩
    | some l =>
        obtain ⟨cur, hcur, hstart⟩ := h.start hf h₀ hsplit hafter
        rw [← hcur] at hwalk
        obtain ⟨hindex, hcluster, hne⟩ :=
          walk_inv hstart.1 hstart.2.1 FatReader.valid_init hwalk
        rw [Nat.add_sub_cancel' hstart.2.2.le] at hindex
        dsimp only at hget
        rw [Except.bind_eq_ok_iff] at hget
        obtain ⟨-, -, hget⟩ := hget
        obtain ⟨c₁, hins, hc₁, hkeep⟩ : ∃ c₁, c.insertLine debug before after l = .ok c₁ ∧
            Right debug fs c₁ ∧ c₁.firstCluster = c.firstCluster ∧ c₁.linear = c.linear := by
          apply h.insertLine hsplit
          · rw [hindex]
            apply hbefore
          · rw [hindex]
            apply hafter
          · rw [hindex]
            apply Nat.pos_of_ne_zero h₀
          · apply hne
          · apply hcluster
        rw [hins, Except.ok_bind] at hget
        cases hget
        rw [← hindex]
        exact ⟨Or.inr ⟨hne, hcluster⟩, hc₁, hkeep⟩

/-! ### Extending a chain -/

/-- A chain that is extended is the chain it was, or was empty and has got an intact chain. -/
def Extended (fs' : Exfat) (c c' : ClusterChain) : Prop :=
  c' = c ∨ c.firstCluster = 0 ∧ ∃ first, c' = { c with firstCluster := first } ∧ fs'.Intact first

variable {alloc : Allocator} {tail : Line} {done : Bool}

/-- Appending clusters changes the volume in steps. -/
theorem allocate_inv (h : allocate debug index n fs c tail alloc r dm = .ok (done, fs', c', dm')) :
  fs.Grows fs' ∧ Extended fs' c c'
  := by
  induction n generalizing fs c tail alloc r dm with
  | zero => cases h
  | succ n ih =>
      rw [allocate, Except.bind_eq_ok_iff] at h
      obtain ⟨⟨next, fs₁, alloc₁, dm₁⟩, hget, h⟩ := h
      dsimp only at h
      by_cases h₀ : next = 0
      · rw [if_pos h₀] at h
        cases h
        refine ⟨?_, Or.inl rfl⟩
        obtain ⟨-, rfl | hm⟩ | ⟨h₂, -⟩ := Allocator.get_inv hget
        · apply Relation.ReflTransGen.refl
        · apply Relation.ReflTransGen.single (.marked hm)
        · omega
      · rw [if_neg h₀, Except.bind_eq_ok_iff] at h
        obtain ⟨⟨done₁, fs₂, r₂, dm₂⟩, hput, h⟩ := h
        dsimp only at h
        obtain ⟨hm, rfl⟩ | ha := Exfat.step_of_put hget h₀ hput
        · rw [if_pos rfl] at h
          cases h
          exact ⟨Relation.ReflTransGen.single (.marked hm), Or.inl rfl⟩
        have hstep : fs.Grows fs₂ := Relation.ReflTransGen.single (.appended _ ha)
        by_cases hdone : done₁ = false
        · rw [if_pos hdone] at h
          cases h
          exact ⟨hstep, Or.inl rfl⟩
        · rw [if_neg hdone] at h
          have hnew : Extended fs₂ c
              (if c.firstCluster = 0 then { c with firstCluster := next } else c) := by
            split_ifs with hf
            · right
              exact ⟨hf, next, rfl, ha.intact_new⟩
            · left
              rfl
          by_cases hlt : (if c.firstCluster = 0 then tail.index else tail.index + 1) < index
          · rw [if_pos hlt] at h
            obtain ⟨hgrows, hext⟩ := ih h
            refine ⟨hstep.trans hgrows, ?_⟩
            obtain heq | ⟨hf, first, heq, hint⟩ := hnew
            · rw [heq] at hext
              apply hext
            · rw [heq] at hext
              right
              refine ⟨hf, ?_⟩
              obtain rfl | ⟨-, first', rfl, hint'⟩ := hext
              · exact ⟨first, rfl, (hgrows.intact hint).1⟩
              · exact ⟨first', rfl, hint'⟩
          · rw [if_neg hlt] at h
            cases h
            exact ⟨hstep, hnew⟩

/-- Extending a chain changes the volume in steps. -/
theorem expand_inv (h : c.expand debug fs dm index = .ok (done, fs', c', dm')) :
  fs.Grows fs' ∧ Extended fs' c c'
  := by
  have hsame : ∀ {dm'' : Dm} {b : Bool}, (.ok (b, fs, c, dm'') : Except Fault _)
      = .ok (done, fs', c', dm') → fs.Grows fs' ∧ Extended fs' c c' := by
    intro dm'' b heq
    cases heq
    exact ⟨Relation.ReflTransGen.refl, Or.inl rfl⟩
  rw [expand] at h
  by_cases hl : c.linear = true
  · rw [if_pos hl] at h
    apply hsame h
  rw [if_neg hl] at h
  dsimp only at h
  by_cases h₀ : index = 0
  · rw [if_pos h₀] at h
    apply allocate_inv h
  rw [if_neg h₀] at h
  split_ifs at h with hle
  · apply hsame h
  · rw [Except.bind_eq_ok_iff] at h
    obtain ⟨⟨found, r₁, dm₁⟩, -, h⟩ := h
    cases found with
    | none => apply hsame h
    | some tail =>
        dsimp only at h
        split_ifs at h
        · apply hsame h
        · apply allocate_inv h

/-- The cache of a chain that is extended stays in order. -/
theorem Right.extended (h : Right debug fs c) (hi : fs.Intact c.firstCluster)
    (hgrows : fs.Grows fs') (hext : Extended fs' c c') :
  Right debug fs' c' ∧ fs'.Intact c'.firstCluster ∧ c'.linear = c.linear
  := by
  obtain ⟨hi', hat⟩ := hgrows.intact hi
  have hright : ∀ {first}, (c.cacheLine = [] ∨ first = c.firstCluster) →
      Right debug fs' { c with firstCluster := first } := by
    intro first hfirst
    refine { h with correct := ?_ }
    intro n hn
    obtain hnil | rfl := hfirst
    · dsimp only at hn
      rw [hnil] at hn
      cases hn
    · obtain ⟨h₀, heq⟩ := h.correct n hn
      refine ⟨h₀, ?_⟩
      rw [heq] at h₀
      rw [heq, hat _ h₀]
  obtain rfl | ⟨hf, first, rfl, hint⟩ := hext
  · exact ⟨hright (Or.inr rfl), hi', rfl⟩
  · refine ⟨hright (Or.inl ?_), hint, rfl⟩
    -- the cache of an empty chain is empty
    rw [List.eq_nil_iff_forall_not_mem]
    intro n hn
    obtain ⟨h₀, heq⟩ := h.correct n hn
    apply h₀
    rw [heq, hf, ← Nat.zero_add n.2.index]
    apply Exfat.clusterAt_add_eq_zero rfl

/-- The search for the last cluster returns, and what it returns is a cluster of the chain. -/
theorem findTail_returns (hi : fs.Intact first)
    (hcur : debug = true → cur.cluster = fs.clusterAt first cur.index ∧ cur.cluster ≠ 0)
    (hr : r.Valid fs) :
  ∃ found r' dm', findTail debug fs n cur r dm = .ok (found, r', dm') ∧
    ∀ tail, found = some tail → debug = true → 2 ≤ tail.cluster
  := by
  have htwo : debug = true → 2 ≤ cur.cluster := by
    intro hd
    obtain ⟨hc, h₀⟩ := hcur hd
    rw [hc] at h₀ ⊢
    apply (hi _ h₀).two_le
  induction n generalizing cur r dm with
  | zero =>
      refine ⟨_, _, _, rfl, ?_⟩
      intro tail heq
      cases heq
      apply htwo
  | succ n ih =>
      obtain ⟨⟨v, r', dm'⟩, hget⟩ := FatReader.get_returns htwo fs r dm
      obtain ⟨hr', hv⟩ := FatReader.get_inv hr hget
      rw [findTail, hget, Except.ok_bind]
      dsimp only
      split_ifs with hz hend
      · refine ⟨_, _, _, rfl, ?_⟩
        intro tail heq
        cases heq
      · refine ⟨_, _, _, rfl, ?_⟩
        intro tail heq
        cases heq
        apply htwo
      · have hnext : debug = true → v = fs.clusterAt first (cur.index + 1) ∧ v ≠ 0 := by
          intro hd
          obtain ⟨hc, h₀⟩ := hcur hd
          have heq := hv.resolve_left hz
          refine ⟨?_, hz⟩
          rw [Exfat.clusterAt_succ, ← hc, Exfat.next, ← heq, if_neg (not_or.2 ⟨h₀, hend⟩)]
        apply ih hnext hr'
        intro hd
        obtain ⟨hc, h₀⟩ := hnext hd
        dsimp only
        rw [hc] at h₀ ⊢
        apply (hi _ h₀).two_le

/-- Appending clusters comes to an end. -/
theorem allocate_returns
    (hn : index + (if c.firstCluster = 0 then 1 else 0) ≤ tail.index + n) (hpos : 1 ≤ n)
    (htail : debug = true → tail.cluster ≠ 0 → 2 ≤ tail.cluster) :
  ∃ res, allocate debug index n fs c tail alloc r dm = .ok res
  := by
  induction n generalizing fs c tail alloc r dm with
  | zero => lia
  | succ n ih =>
      obtain ⟨⟨next, fs₁, alloc₁, dm₁⟩, hget⟩ := Allocator.get_returns fs alloc dm
      rw [allocate, hget, Except.ok_bind]
      dsimp only
      by_cases h₀ : next = 0
      · rw [if_pos h₀]
        exact ⟨_, rfl⟩
      rw [if_neg h₀]
      have hnext : 2 ≤ next := by
        obtain ⟨h, -⟩ | ⟨h, -⟩ := Allocator.get_inv hget
        · apply absurd h h₀
        · apply h
      obtain ⟨⟨done, fs₂, r₂, dm₂⟩, hput⟩ := FatReader.put_returns hnext htail fs₁ r dm₁
      rw [hput, Except.ok_bind]
      dsimp only
      by_cases hdone : done = false
      · rw [if_pos hdone]
        exact ⟨_, rfl⟩
      rw [if_neg hdone]
      by_cases hlt : (if c.firstCluster = 0 then tail.index else tail.index + 1) < index
      · rw [if_pos hlt]
        apply ih
        · by_cases hf : c.firstCluster = 0
          · rw [if_pos hf] at hn hlt
            simp only [if_pos hf, if_neg h₀]
            omega
          · rw [if_neg hf] at hn hlt
            simp only [if_neg hf]
            omega
        · split_ifs at hn hlt
          · lia
          · lia
        · intro _ _
          apply hnext
      · rw [if_neg hlt]
        exact ⟨_, rfl⟩

/-- Extending a chain returns. In a debug build a chain that is empty has to be extended by its
first cluster. -/
theorem expand_returns (hi : fs.Intact c.firstCluster) (h : Right debug fs c)
    (hempty : debug = true → c.firstCluster = 0 → index = 0) (dm : Dm) :
  ∃ res, c.expand debug fs dm index = .ok res
  := by
  rw [expand]
  by_cases hl : c.linear = true
  · rw [if_pos hl]
    exact ⟨_, rfl⟩
  rw [if_neg hl]
  have htwo : c.firstCluster ≠ 0 → 2 ≤ c.firstCluster := by
    intro h₀
    apply (hi 0 h₀).two_le
  dsimp only
  by_cases h₀ : index = 0
  · rw [if_pos h₀]
    apply allocate_returns
    · dsimp only
      split_ifs
      · omega
      · omega
    · omega
    · intro _
      apply htwo
  rw [if_neg h₀]
  split_ifs with hle
  · exact ⟨_, rfl⟩
  · -- the search starts at the line with the greatest index
    have hstart : debug = true →
        ((c.cacheLine.head?.map Prod.snd).getD ⟨0, c.firstCluster⟩).cluster
          = fs.clusterAt c.firstCluster
            ((c.cacheLine.head?.map Prod.snd).getD ⟨0, c.firstCluster⟩).index
        ∧ ((c.cacheLine.head?.map Prod.snd).getD ⟨0, c.firstCluster⟩).cluster ≠ 0 := by
      intro hd
      cases hcons : c.cacheLine with
      | nil => exact ⟨rfl, fun hf => h₀ (hempty hd hf)⟩
      | cons m rest =>
          have := h.correct m (hcons ▸ List.mem_cons_self)
          exact ⟨this.2, this.1⟩
    obtain ⟨found, r', dm', hfind, htail⟩ := findTail_returns
      (n := index - ((c.cacheLine.head?.map Prod.snd).getD ⟨0, c.firstCluster⟩).index) hi hstart
      FatReader.valid_init
    rw [hfind, Except.ok_bind]
    cases found with
    | none => exact ⟨_, rfl⟩
    | some tail =>
        dsimp only
        split_ifs with hle'
        · exact ⟨_, rfl⟩
        · apply allocate_returns
          · split_ifs
            · lia
            · lia
          · omega
          · intro hd _
            apply htail tail rfl hd

end ClusterChain

/-! ### Runs -/

/-- A volume with its chains. -/
structure Chains where
  fs : Exfat
  chain : ℕ → ClusterChain

namespace Chains

/-- The calls of a chain. -/
inductive Call where
  | get (index : ℕ)
  | expand (index : ℕ)

/-- Performs a call of the chain `k`. -/
def exec (debug : Bool) (s : Chains) (k : ℕ) (dm : Dm) : Call → Except Fault Chains
  | .get index => do
    let (_, c, _) ← (s.chain k).get debug s.fs dm index
    return { s with chain := Function.update s.chain k c }
  | .expand index => do
    let (_, fs, c, _) ← (s.chain k).expand debug s.fs dm index
    return { s with fs := fs, chain := Function.update s.chain k c }

/-- The states that are reached by calls, each of which returns, when the accesses to the disk
succeed. -/
inductive Run (debug : Bool) (s₀ : Chains) : Chains → Prop
  | start : Run debug s₀ s₀
  | call {s s' : Chains} (k : ℕ) (dm : Dm) (call : Call) : Run debug s₀ s → dm.Succeeds →
      s.exec debug k dm call = .ok s' → Run debug s₀ s'

/-- Looking up a cluster of a chain agrees with following the allocation table, extending the
chain returns, and its cache is in order. -/
structure Agrees (debug : Bool) (fs : Exfat) (c : ClusterChain) : Prop where
  get : ∀ index dm, dm.Succeeds → ∃ c' dm',
    c.get debug fs dm index = .ok (fs.clusterAt c.firstCluster index, c', dm')
  expand : ∀ index dm, dm.Succeeds → (debug = true → c.firstCluster = 0 → index = 0) →
    ∃ res, c.expand debug fs dm index = .ok res
  cache : c.Right debug fs

/-- What holds of a chain in every run. -/
structure Inv (debug : Bool) (fs : Exfat) (c : ClusterChain) : Prop where
  linear : c.linear = false
  intact : fs.Intact c.firstCluster
  right : c.Right debug fs

variable {debug : Bool} {s₀ s s' : Chains} {k : ℕ}

/-- A call, of the chain itself or of another one, keeps what holds of a chain. -/
theorem Inv.exec (h : Inv debug s.fs (s.chain k)) {j : ℕ} {dm : Dm} {call : Call}
    (hdm : dm.Succeeds) (hexec : s.exec debug j dm call = .ok s') :
  Inv debug s'.fs (s'.chain k)
  := by
  cases call with
  | get index =>
      rw [Chains.exec, Except.bind_eq_ok_iff] at hexec
      obtain ⟨⟨cluster, c, dm'⟩, hget, heq⟩ := hexec
      cases heq
      dsimp only
      by_cases hk : k = j
      · subst hk
        obtain ⟨c₁, dm₁, hget₁, hright, hfirst, hlinear⟩ :=
          ClusterChain.get_eq h.intact h.right h.linear hdm index
        rw [hget] at hget₁
        cases hget₁
        rw [Function.update_self]
        exact ⟨hlinear.trans h.linear, hfirst ▸ h.intact, hright⟩
      · rw [Function.update_of_ne hk]
        apply h
  | expand index =>
      rw [Chains.exec, Except.bind_eq_ok_iff] at hexec
      obtain ⟨⟨done, fs', c, dm'⟩, hexpand, heq⟩ := hexec
      cases heq
      dsimp only
      obtain ⟨hgrows, hext⟩ := ClusterChain.expand_inv hexpand
      by_cases hk : k = j
      · subst hk
        obtain ⟨hright, hintact, hlinear⟩ := h.right.extended h.intact hgrows hext
        rw [Function.update_self]
        exact ⟨hlinear.trans h.linear, hintact, hright⟩
      · obtain ⟨hright, hintact, -⟩ := h.right.extended h.intact hgrows (Or.inl rfl)
        rw [Function.update_of_ne hk]
        exact ⟨h.linear, hintact, hright⟩

theorem Run.inv (h : Run debug s₀ s) (h₀ : Inv debug s₀.fs (s₀.chain k)) :
  Inv debug s.fs (s.chain k)
  := by
  induction h with
  | start => apply h₀
  | call j dm call _ hdm hexec ih => apply ih.exec hdm hexec

/-- In every run, the lookups of a chain whose clusters are in use agree with the allocation
table, and its cache is in order. -/
theorem Run.lookups_agree {first : ℕ} (h : Run debug s₀ s) (hk : s₀.chain k = { firstCluster := first })
    (hchained : s₀.fs.Chained first) (hcovered : s₀.fs.Covered first) :
  Agrees debug s.fs (s.chain k)
  := by
  have h₀ : Inv debug s₀.fs (s₀.chain k) := by
    rw [hk]
    constructor
    · rfl
    · apply Exfat.intact_iff.2 ⟨hchained, hcovered⟩
    · refine ⟨⟨List.Pairwise.nil, ?_, ?_, List.nodup_nil, List.Perm.refl _, ?_⟩, Nat.zero_le _⟩ <;>
        · intro n hn
          cases hn
  have hinv := h.inv h₀
  constructor
  · intro index dm hdm
    obtain ⟨c', dm', hget, -⟩ :=
      ClusterChain.get_eq hinv.intact hinv.right hinv.linear hdm index
    exact ⟨c', dm', hget⟩
  · intro index dm _ hempty
    apply ClusterChain.expand_returns hinv.intact hinv.right hempty
  · apply hinv.right

/-- A volume with eight clusters and the chain of the clusters `2`, `3` and `4`. The bit of the
cluster `3` is given. -/
def threeClusters (bit : Bool) : Exfat where
  table := 24
  table_pos := by decide
  bitmap := 32
  heap := 32
  clusterCount := 8
  count_lt := by decide
  clusterShift := 12
  fat := fun c => if c = 2 then 3 else if c = 3 then 4 else 0xFFFFFFFF
  used := fun pos => pos = 0 || pos = 1 && bit || pos = 2
  last_lt := by decide

theorem clusterAt_threeClusters (bit : Bool) (i : ℕ) :
  (threeClusters bit).clusterAt 2 i ∈ [0, 2, 3, 4]
  := by
  induction i with
  | zero =>
      rw [Exfat.clusterAt_zero]
      decide
  | succ i ih =>
      rw [Exfat.clusterAt_succ]
      generalize (threeClusters bit).clusterAt 2 i = c at ih
      revert c bit
      decide

theorem chained_threeClusters (bit : Bool) : (threeClusters bit).Chained 2 := by
  intro i
  have hi := clusterAt_threeClusters bit i
  generalize (threeClusters bit).clusterAt 2 i = c at hi
  revert c bit
  decide

theorem covered_threeClusters : (threeClusters true).Covered 2 := by
  intro i
  have hi := clusterAt_threeClusters true i
  generalize (threeClusters true).clusterAt 2 i = c at hi
  revert c
  decide

/-- The volume with its only chain. -/
def oneChain (bit : Bool) : Chains where
  fs := threeClusters bit
  chain := fun _ => { firstCluster := 2 }

/-- The chain after its last cluster has been looked up. -/
def lookedUp (bit : Bool) : Chains where
  fs := threeClusters bit
  chain := Function.update (oneChain bit).chain 0
    { firstCluster := 2, cacheLine := [(0, ⟨2, 4⟩)], lruQueue := [0], nodes := 1 }

/-- The chain after the cluster of a position of the bitmap has been appended to it. -/
def appended (bit : Bool) (pos : ℕ) (h : pos < 8) : Chains where
  fs := (((threeClusters bit).setUsed pos h).setEntry (pos + 2) 0xFFFFFFFF).setEntry 4 (pos + 2)
  chain := Function.update (lookedUp bit).chain 0 ((lookedUp bit).chain 0)

/-- A cache all of whose accesses succeed. -/
def reading : Dm where
  succeeds := fun _ => true

theorem run_lookedUp (bit : Bool) : Run true (oneChain bit) (lookedUp bit) := by
  apply Run.call 0 reading (.get 2) Run.start (fun _ => rfl)
  cases bit with
  | false => rfl
  | true => rfl

/-- A chain of three clusters is looked up and extended by a free cluster. -/
theorem agrees_appended :
  Run true (oneChain true) (appended true 3 (by decide)) ∧
    Agrees true (appended true 3 (by decide)).fs ((appended true 3 (by decide)).chain 0)
  := by
  have hrun : Run true (oneChain true) (appended true 3 (by decide)) :=
    Run.call 0 reading (.expand 3) (run_lookedUp true) (fun _ => rfl) rfl
  exact ⟨hrun, hrun.lookups_agree rfl (chained_threeClusters true) covered_threeClusters⟩

/-- When the bitmap has the cluster `3` as free, the chain is extended by a cluster that it
already has. The cluster with the index `2` is still found in the cache, though the chain now
ends before it. -/
theorem stale_line :
  (threeClusters false).Chained 2 ∧
    Run true (oneChain false) (appended false 1 (by decide)) ∧
    ((((appended false 1 (by decide)).chain 0).get true (appended false 1 (by decide)).fs
      reading 2).map Prod.fst).toOption = some 4 ∧
    (appended false 1 (by decide)).fs.clusterAt 2 2 = 0
  := by
  refine ⟨chained_threeClusters false, ?_, by decide, by decide⟩
  apply Run.call 0 reading (.expand 3) (run_lookedUp false) (fun _ => rfl) rfl

end Chains

end UOS
