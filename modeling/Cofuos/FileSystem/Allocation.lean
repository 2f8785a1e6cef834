import Cofuos.FileSystem.Fat

/-!
# Allocating and releasing clusters

The allocator of a volume looks for a clear bit of the bitmap from the position on at which it has
found the last one. It goes to the end of the bitmap, and then from the beginning up to the sector in
which it has started. What lies in this sector before the position is not looked at. The definitions
follow `exfat::allocator` of `kernel/filesystem/exfat.cpp`.
-/

namespace UOS

/-- Clears the bit at a position. -/
def Exfat.setFree (fs : Exfat) (pos : ℕ) : Exfat :=
  { fs with used := Function.update fs.used pos false }

namespace Allocator

/-- Releases a cluster. Returns whether it was in use. -/
def put (debug : Bool) (fs : Exfat) (a : Allocator) (dm : Dm) (cluster : ℕ) :
    Except Fault (Bool × Exfat × Allocator × Dm) := do
  Fault.assert debug (2 ≤ cluster)
  let pos := (cluster + 2 ^ 32 - 2) % 2 ^ 32
  match a.load dm (fs.bitmap + pos / Exfat.bitPerSector) with
  | (false, a, dm) => return (false, fs, a, dm)
  | (true, a, dm) =>
    if fs.used pos = true then
      return (true, fs.setFree pos, a, dm)
    else
      -- double release
      return (false, fs, a, dm)

variable {debug : Bool} {fs fs' : Exfat} {a a' : Allocator} {dm dm' : Dm}
  {initial fuel pos next n p q : ℕ}

/-! ### Searching -/

/-- The bits that a search of a sector passes are set. -/
theorem scan_used (hle : pos ≤ q) (hlt : q < (scan fs n pos).2) : fs.used q = true := by
  induction n generalizing pos with
  | zero =>
      rw [scan] at hlt
      omega
  | succ n ih =>
      rw [scan] at hlt
      split_ifs at hlt with h₁ h₂
      · omega
      · omega
      · by_cases heq : q = pos
        · rw [heq]
          simpa using h₂
        · apply ih (by lia) hlt

/-- A search of a sector ends in it. -/
theorem scan_mem (fs : Exfat) (n pos : ℕ) : pos ≤ (scan fs n pos).2 ∧ (scan fs n pos).2 ≤ pos + n := by
  induction n generalizing pos with
  | zero => exact ⟨le_refl _, le_refl _⟩
  | succ n ih =>
      rw [scan]
      split_ifs with h₁ h₂
      · exact ⟨le_refl _, Nat.le_add_right _ _⟩
      · exact ⟨le_refl _, Nat.le_add_right _ _⟩
      · have := ih (pos + 1)
        lia

/-- A search of a sector that succeeds does not come to the end of the sector. -/
theorem scan_lt_end (h : (scan fs n pos).1 = true) : (scan fs n pos).2 < pos + n := by
  induction n generalizing pos with
  | zero => simp [scan] at h
  | succ n ih =>
      rw [scan] at h ⊢
      split_ifs at h ⊢ with h₁ h₂
      · omega
      · have := ih h
        omega

/-- The positions that are still to be looked at from the position `pos` on, in a search that has
started in the sector at `initial`. -/
def Ahead (fs : Exfat) (initial pos q : ℕ) : Prop :=
  if initial ≤ pos then pos ≤ q ∧ q < fs.clusterCount ∨ q < initial
  else pos ≤ q ∧ q < initial

/-- What a search from `pos` on returns: the first clear bit of those ahead, or `0` if there is
none. -/
inductive Searched (fs : Exfat) (initial pos : ℕ) (next : ℕ) (fs' : Exfat) : Prop
  | nothing : next = 0 → fs' = fs → (∀ q, Ahead fs initial pos q → fs.used q = true) →
      Searched fs initial pos next fs'
  | found (p : ℕ) (hp : p < fs.clusterCount) : fs.used p = false → next = (p + 2) % 2 ^ 32 →
      fs' = fs.setUsed p hp → Ahead fs initial pos p →
      (∀ q, pos ≤ q → q < fs.clusterCount → (pos ≤ p → q < p) → fs.used q = true) →
      Searched fs initial pos next fs'

/-- The search goes on at the position `p`, as the bits before it are set. -/
theorem Searched.later (hle : pos ≤ p) (hp : initial ≤ pos ∨ p < initial)
    (hused : ∀ q, pos ≤ q → q < p → fs.used q = true)
    (h : Searched fs initial p next fs') :
  Searched fs initial pos next fs'
  := by
  have hahead : ∀ q, Ahead fs initial pos q → q < pos ∨ p ≤ q → Ahead fs initial p q := by
    intro q hq hor
    rw [Ahead] at hq ⊢
    split_ifs at hq ⊢ <;> lia
  have hback : ∀ q, Ahead fs initial p q → Ahead fs initial pos q ∧ (q < pos ∨ p ≤ q) := by
    intro q hq
    rw [Ahead] at hq ⊢
    split_ifs at hq ⊢ <;> lia
  cases h with
  | nothing hnext hfs hall =>
      refine .nothing hnext hfs ?_
      intro q hq
      by_cases hin : pos ≤ q ∧ q < p
      · apply hused q hin.1 hin.2
      · apply hall q (hahead q hq (by omega))
  | found p' hp' hfree hnext hfs hmem hfirst =>
      obtain ⟨hmem', hor⟩ := hback p' hmem
      refine .found p' hp' hfree hnext hfs hmem' ?_
      intro q hq hlt hlast
      by_cases hin : q < p
      · apply hused q hq hin
      · apply hfirst q (by omega) hlt
        intro hle'
        apply hlast (by lia)

/-- The search goes on at the beginning, as the bits up to the end are set. -/
theorem Searched.wrap (hi : initial ≠ 0) (hp : initial ≤ pos)
    (hused : ∀ q, pos ≤ q → q < fs.clusterCount → fs.used q = true)
    (h : Searched fs initial 0 next fs') :
  Searched fs initial pos next fs'
  := by
  have hahead : ∀ q, Ahead fs initial 0 q ↔ q < initial := by
    intro q
    rw [Ahead, if_neg (by omega)]
    omega
  cases h with
  | nothing hnext hfs hall =>
      refine .nothing hnext hfs ?_
      intro q hq
      rw [Ahead, if_pos hp] at hq
      rcases hq with hq | hq
      · apply hused q hq.1 hq.2
      · apply hall q ((hahead q).mpr hq)
  | found p' hp' hfree hnext hfs hmem hfirst =>
      refine .found p' hp' hfree hnext hfs ?_ (fun q hq hlt _ => hused q hq hlt)
      rw [Ahead, if_pos hp]
      right
      apply (hahead p').mp hmem

/-- When the accesses succeed, a sector of the bitmap is loaded. -/
theorem load_eq (a : Allocator) (hdm : dm.Succeeds) (lba : ℕ) :
  ∃ a' dm', a.load dm lba = (true, a', dm') ∧ dm'.Succeeds
  := by
  rw [load]
  split_ifs
  · obtain ⟨dm', hget, hdm'⟩ := Dm.get_eq (Dm.relaxAny_succeeds hdm a.block) lba
    rw [hget]
    exact ⟨_, _, rfl, hdm'⟩
  · exact ⟨_, _, rfl, hdm⟩

/-- The search finds the first clear bit of those ahead. -/
theorem search_eq (a : Allocator) (hdm : dm.Succeeds) (hi : initial % 4096 = 0) (hlt : initial < fs.clusterCount)
    (hpos : pos < fs.clusterCount) (hleft : Left fs initial pos fuel) :
  ∃ next fs' a' dm', search initial fuel fs a dm pos = .ok (next, fs', a', dm') ∧ dm'.Succeeds ∧
    Searched fs initial pos next fs'
  := by
  induction fuel generalizing a dm pos with
  | zero =>
      -- a round is left, as the search has not come back yet
      rcases hleft with ⟨_, _⟩ | ⟨_, _, _⟩ <;> lia
  | succ fuel ih =>
      obtain ⟨a₁, dm₁, hload, hdm₁⟩ := load_eq a hdm (fs.bitmap + pos / Exfat.bitPerSector)
      rw [search, hload]
      have hb : Exfat.bitPerSector = 4096 := rfl
      have hmem := scan_mem fs (Exfat.bitPerSector - pos % Exfat.bitPerSector) pos
      have hused : ∀ q, pos ≤ q →
          q < (scan fs (Exfat.bitPerSector - pos % Exfat.bitPerSector) pos).2 →
          fs.used q = true := fun q => scan_used
      dsimp only
      split_ifs with hfound hend hstop hstop
      · -- a clear bit
        have hsector := scan_lt_end hfound
        have hp := scan_lt hfound
        rw [hb] at hsector hmem hp
        refine ⟨_, _, _, _, rfl, hdm₁,
          .found _ (scan_lt hfound) (scan_free hfound) rfl rfl ?_ ?_⟩
        · rw [Ahead, hb]
          rcases hleft with ⟨_, _⟩ | ⟨_, _, _⟩
          · rw [if_pos (by lia)]
            lia
          · rw [if_neg (by lia)]
            lia
        · intro q hq _ hlast
          apply hused q hq (hlast hmem.1)
      · -- the end of the bitmap, and the search has started in the first sector
        have hsector := scan_end (Bool.eq_false_iff.2 hfound)
        rw [hb] at hsector hmem hused hend
        refine ⟨_, _, _, _, rfl, hdm₁, .nothing rfl rfl ?_⟩
        intro q hq
        rw [Ahead, if_pos (by lia)] at hq
        apply hused q
        · lia
        · lia
      · -- the end of the bitmap
        have hsector := scan_end (Bool.eq_false_iff.2 hfound)
        rw [hb] at hsector hmem hused hend
        have hphase : initial ≤ pos := by
          rcases hleft with ⟨_, _⟩ | ⟨_, _, _⟩ <;> lia
        have hleft₀ : Left fs initial 0 fuel := by
          rcases hleft with ⟨_, _⟩ | ⟨_, _, _⟩
          · right
            lia
          · lia
        obtain ⟨next, fs', a', dm', heq, hdm', hsearch⟩ := ih a₁ hdm₁ (by lia) hleft₀
        refine ⟨next, fs', a', dm', heq, hdm', ?_⟩
        apply hsearch.wrap (fun h0 => hstop h0.symm) hphase
        intro q hq hlt
        apply hused q hq (by lia)
      · -- back in the sector in which the search has started
        have hsector := scan_end (Bool.eq_false_iff.2 hfound)
        rw [hb] at hsector hmem hused hend hstop
        refine ⟨_, _, _, _, rfl, hdm₁, .nothing rfl rfl ?_⟩
        intro q hq
        rcases hleft with ⟨_, _⟩ | ⟨_, _, _⟩
        · lia
        · rw [Ahead, if_neg (by lia)] at hq
          apply hused q
          · lia
          · lia
      · -- the next sector
        have hsector := scan_end (Bool.eq_false_iff.2 hfound)
        rw [hb] at hsector hmem hused hend hstop ⊢
        have hleft₁ : Left fs initial (scan fs (4096 - pos % 4096) pos).2 fuel := by
          rcases hleft with ⟨_, _⟩ | ⟨_, _, _⟩
          · left
            lia
          · right
            lia
        obtain ⟨next, fs', a', dm', heq, hdm', hsearch⟩ := ih a₁ hdm₁ (by omega) hleft₁
        refine ⟨next, fs', a', dm', heq, hdm', ?_⟩
        apply hsearch.later hmem.1 _ hused
        rcases hleft with ⟨_, _⟩ | ⟨_, _, _⟩
        · left
          lia
        · right
          lia

/-- The beginning of the sector in which a search starts. -/
def start (fs : Exfat) : ℕ := fs.bmpLastIndex / Exfat.bitPerSector * Exfat.bitPerSector

/-- An allocation finds the first clear bit from the last index on, and then from the beginning up to
the sector of the last index. -/
theorem get_eq (fs : Exfat) (a : Allocator) (hdm : dm.Succeeds) :
  ∃ next fs' a' dm', a.get fs dm = .ok (next, fs', a', dm') ∧ dm'.Succeeds ∧
    Searched fs (start fs) fs.bmpLastIndex next fs'
  := by
  have hlt := fs.last_lt
  have hb : Exfat.bitPerSector = 4096 := rfl
  rw [get, start, hb]
  apply search_eq a hdm
  · apply Nat.mul_mod_left
  · lia
  · apply hlt
  · left
    lia

/-- When the accesses succeed, a release clears the bit of its cluster, and tells whether it was
set. -/
theorem put_eq (debug : Bool) (fs : Exfat) (a : Allocator) (hdm : dm.Succeeds) {cluster : ℕ}
    (h₂ : 2 ≤ cluster) (hle : cluster ≤ fs.clusterCount + 1) :
  ∃ res fs' a' dm', a.put debug fs dm cluster = .ok (res, fs', a', dm') ∧ dm'.Succeeds ∧
    (res = true ↔ fs.used (cluster - 2) = true) ∧
    fs'.used = Function.update fs.used (cluster - 2) false
  := by
  have hcount := fs.count_lt
  have hpos : (cluster + 2 ^ 32 - 2) % 2 ^ 32 = cluster - 2 := by lia
  obtain ⟨a', dm', hload, hdm'⟩ := load_eq a hdm
    (fs.bitmap + (cluster - 2) / Exfat.bitPerSector)
  rw [put, Fault.assert_eq_ok (fun _ => h₂), Except.ok_bind]
  dsimp only
  rw [hpos, hload]
  dsimp only
  by_cases hused : fs.used (cluster - 2) = true
  · rw [if_pos hused]
    exact ⟨true, _, _, _, rfl, hdm', by simp [hused], rfl⟩
  · rw [if_neg hused]
    refine ⟨false, _, _, _, rfl, hdm', by simp [hused], ?_⟩
    rw [Bool.not_eq_true] at hused
    rw [← hused, Function.update_eq_self]

end Allocator

/-! ### Sequences of calls -/

/-- A volume with an allocator. -/
structure Allocation where
  fs : Exfat
  a : Allocator
  dm : Dm

namespace Allocation

/-- What is reached by allocations and releases, also of several allocators, one after the other. -/
inductive Calls (debug : Bool) (s₀ : Allocation) : Allocation → Prop
  | init : Calls debug s₀ s₀
  | get {s : Allocation} {next : ℕ} {fs' : Exfat} {a' : Allocator} {dm' : Dm} :
      Calls debug s₀ s → s.a.get s.fs s.dm = .ok (next, fs', a', dm') →
      Calls debug s₀ ⟨fs', a', dm'⟩
  | put {s : Allocation} (cluster : ℕ) {res : Bool} {fs' : Exfat} {a' : Allocator} {dm' : Dm} :
      Calls debug s₀ s → 2 ≤ cluster → cluster ≤ s.fs.clusterCount + 1 →
      s.a.put debug s.fs s.dm cluster = .ok (res, fs', a', dm') →
      Calls debug s₀ ⟨fs', a', dm'⟩
  | renew {s : Allocation} : Calls debug s₀ s → Calls debug s₀ ⟨s.fs, {}, s.a.close s.dm⟩

/-- An allocation returns a cluster that was free and is in use, or `0` if no cluster was free. -/
structure Allocated (fs fs' : Exfat) (next : ℕ) : Prop where
  cluster : next ≠ 0 → 2 ≤ next ∧ next ≤ fs.clusterCount + 1 ∧ fs.used (next - 2) = false ∧
    fs'.used = Function.update fs.used (next - 2) true
  full : next = 0 → fs'.used = fs.used ∧ ∀ p < fs.clusterCount, fs.used p = true

/-- If there is a free cluster, there is one that does not lie in the sector of the last index and
before it. It is not the last of `2 ^ 32 - 1` clusters, whose number is `0` in 32 bits, that comes
first. -/
structure Visible (fs : Exfat) : Prop where
  seen : ∀ p < fs.clusterCount, fs.used p = false →
    ∃ q < fs.clusterCount, fs.used q = false ∧ (q < Allocator.start fs ∨ fs.bmpLastIndex ≤ q)
  number : 2 ^ 32 - 2 < fs.clusterCount → fs.used (2 ^ 32 - 2) = false →
    ∃ q, fs.bmpLastIndex ≤ q ∧ q < 2 ^ 32 - 2 ∧ fs.used q = false

variable {debug : Bool} {s₀ s : Allocation} {fs fs' : Exfat} {next : ℕ}

theorem Calls.succeeds (h : Calls debug s₀ s) (hdm : s₀.dm.Succeeds) : s.dm.Succeeds := by
  induction h with
  | init => exact hdm
  | @get s next fs' a' dm' _ heq ih =>
      obtain ⟨_, _, _, _, heq', hdm', -⟩ := Allocator.get_eq s.fs s.a ih
      rw [heq] at heq'
      cases heq'
      exact hdm'
  | @put s cluster res fs' a' dm' _ h₂ hle heq ih =>
      obtain ⟨_, _, _, _, heq', hdm', -⟩ := Allocator.put_eq debug s.fs s.a ih h₂ hle
      rw [heq] at heq'
      cases heq'
      exact hdm'
  | renew _ ih => exact Dm.relaxAny_succeeds ih _

/-- What a search finds is right if and only if what is free is visible. -/
theorem allocated_iff (h : Allocator.Searched fs (Allocator.start fs) fs.bmpLastIndex next fs') :
  Allocated fs fs' next ↔ Visible fs
  := by
  have hcount := fs.count_lt
  have hlast := fs.last_lt
  have hstart : Allocator.start fs ≤ fs.bmpLastIndex := Nat.div_mul_le_self _ _
  have hahead : ∀ q, Allocator.Ahead fs (Allocator.start fs) fs.bmpLastIndex q ↔
      fs.bmpLastIndex ≤ q ∧ q < fs.clusterCount ∨ q < Allocator.start fs := by
    intro q
    rw [Allocator.Ahead, if_pos hstart]
  cases h with
  | nothing hnext hfs hall =>
      constructor
      · intro hallocated
        obtain ⟨-, hused⟩ := hallocated.full hnext
        constructor
        · intro p hp hfree
          rw [hused p hp] at hfree
          cases hfree
        · intro hp hfree
          rw [hused _ hp] at hfree
          cases hfree
      · intro hvisible
        refine ⟨fun hne => absurd hnext hne, fun _ => ⟨by rw [hfs], ?_⟩⟩
        intro p hp
        by_contra hne
        rw [Bool.not_eq_true] at hne
        obtain ⟨q, hq, hfree, hor⟩ := hvisible.seen p hp hne
        rw [hall q ((hahead q).mpr (by lia))] at hfree
        cases hfree
  | found p hp hfree hnext hfs hmem hfirst =>
      rw [hahead] at hmem
      by_cases hnumber : p + 2 < 2 ^ 32
      · rw [Nat.mod_eq_of_lt hnumber] at hnext
        have hleft : Allocated fs fs' next := by
          refine ⟨fun _ => ⟨by lia, by lia, ?_, ?_⟩, fun h0 => by lia⟩
          · rw [hnext, Nat.add_sub_cancel]
            exact hfree
          · rw [hfs, hnext, Nat.add_sub_cancel]
            rfl
        have hright : Visible fs := by
          refine ⟨fun _ _ _ => ⟨p, hp, hfree, by lia⟩, ?_⟩
          intro hcnt hfree'
          by_cases hle : fs.bmpLastIndex ≤ p
          · exact ⟨p, hle, by lia, hfree⟩
          · have := hfirst (2 ^ 32 - 2) (by lia) hcnt (fun h => absurd h hle)
            rw [this] at hfree'
            cases hfree'
        exact ⟨fun _ => hright, fun _ => hleft⟩
      · -- the number of the cluster is 0 in 32 bits
        have hp' : p = 2 ^ 32 - 2 := by lia
        have hzero : next = 0 := by
          rw [hnext, hp']
          norm_num
        constructor
        · intro hallocated
          rw [(hallocated.full hzero).2 p hp] at hfree
          cases hfree
        · intro hvisible
          obtain ⟨q, hle, hlt, hq⟩ := hvisible.number (by lia) (by rw [← hp']; exact hfree)
          rw [hfirst q hle (by lia) (fun _ => by lia)] at hq
          cases hq

/-- In every sequence of calls whose accesses succeed, an allocation returns a cluster that was free, or
`0` if there is none, if and only if what is free is visible to the search, and a release clears the
bit of its cluster and tells whether it was set. -/
theorem Calls.sound_and_complete (h : Calls debug s₀ s) (hdm : s₀.dm.Succeeds) :
  (∃ next fs' a' dm', s.a.get s.fs s.dm = .ok (next, fs', a', dm') ∧
    (Allocated s.fs fs' next ↔ Visible s.fs)) ∧
  ∀ cluster, 2 ≤ cluster → cluster ≤ s.fs.clusterCount + 1 →
    ∃ res fs' a' dm', s.a.put debug s.fs s.dm cluster = .ok (res, fs', a', dm') ∧
      (res = true ↔ s.fs.used (cluster - 2) = true) ∧
      fs'.used = Function.update s.fs.used (cluster - 2) false
  := by
  have hs := h.succeeds hdm
  constructor
  · obtain ⟨next, fs', a', dm', heq, -, hsearch⟩ := Allocator.get_eq s.fs s.a hs
    exact ⟨next, fs', a', dm', heq, allocated_iff hsearch⟩
  · intro cluster h₂ hle
    obtain ⟨res, fs', a', dm', heq, -, hres, hused⟩ := Allocator.put_eq debug s.fs s.a hs h₂ hle
    exact ⟨res, fs', a', dm', heq, hres, hused⟩

/-- The table of a small volume is after its boot sectors. -/
theorem small_table_pos : 0 < 24 := by decide

/-- A volume of two clusters, both of them free. -/
def twoClusters : Exfat where
  table := 24
  table_pos := small_table_pos
  bitmap := 32
  heap := 32
  clusterCount := 2
  count_lt := by decide
  clusterShift := 12
  fat := fun _ => 0
  used := fun _ => false
  last_lt := by decide

/-- All accesses succeed. -/
def reads : Dm := { succeeds := fun _ => true }

/-- The first allocation of a new volume is right. -/
theorem sound_and_complete_twoClusters :
  ∃ next fs' a' dm', Allocator.get twoClusters {} reads = .ok (next, fs', a', dm') ∧
    (Allocated twoClusters fs' next ↔ Visible twoClusters)
  := by
  have h : Calls true ⟨twoClusters, {}, reads⟩ ⟨twoClusters, {}, reads⟩ := .init
  exact (h.sound_and_complete (fun _ => rfl)).1

/-- After both clusters have been allocated and the first one has been released, an allocation does not
find it. -/
theorem released_not_found :
  ∃ s, Calls true ⟨twoClusters, {}, reads⟩ s ∧ s.fs.used 0 = false ∧
    ∃ fs' a' dm', s.a.get s.fs s.dm = .ok (0, fs', a', dm') ∧ ¬ Allocated s.fs fs' 0
  := by
  have h₁ : Calls true ⟨twoClusters, {}, reads⟩ _ := .get .init rfl
  have h₂ : Calls true ⟨twoClusters, {}, reads⟩ _ := .get h₁ rfl
  have h₃ : Calls true ⟨twoClusters, {}, reads⟩ _ := .put 2 h₂ (by decide) (by decide) rfl
  refine ⟨_, h₃, rfl, _, _, _, rfl, ?_⟩
  intro hallocated
  have := (hallocated.full rfl).2 0 (by decide)
  cases this

end Allocation

end UOS
