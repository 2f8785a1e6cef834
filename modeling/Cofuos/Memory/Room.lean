import Cofuos.Memory.Placement

/-!
# Room for a reservation

A search for free pages goes through the tables in order. It changes nothing but the directories
that it enters and the calls to the physical memory manager, until it comes to a table, or to
tables in a row, with room. So one can look at a space from outside, and tell whether a search
will find its pages before it has gone past 4 GB.
-/

namespace UOS

open Fault

/-- What looking through tables comes to. -/
inductive Look where
  /-- There is room. -/
  | room
  /-- A directory cannot be created. -/
  | stuck
  /-- There is no room so far, and the physical memory manager has been called so many times. -/
  | on (calls : ℕ)
  deriving DecidableEq, Repr

/-- Looks further if there is no room so far. -/
def Look.andThen (l : Look) (f : ℕ → Look) : Look :=
  match l with
  | on calls => f calls
  | l => l

/-- In a table all of whose entries are free, the recorded size is that of a whole table. -/
theorem WellFormed.getMaxSize_of_isFree {debug : Bool} {pdt : PDTE} {table : Table}
    (h : WellFormed debug pdt table) (hfree : ∀ i < 0x200, (table i).isFree = true) :
  getMaxSize pdt = 0x200
  := by
  obtain ⟨l, hchain, hall⟩ := h
  have hmax : MaximalRun table ⟨0, 0x200⟩ := by
    constructor
    · simp
    · simp
    · intro i hi
      rw [Run.mem_iff] at hi
      apply hfree i
      simpa using hi.2
    · simp
    · simp
  have hlast : lastSize l = 0x200 := by
    have hge := FreeChain.size_le_lastSize hchain.sorted (hall _ hmax)
    have hle := hchain.lastSize_le
    simp only at hge
    omega
  rw [getMaxSize, hchain.remain, hlast]
  decide

namespace FramePool

variable (pm : FramePool)

theorem allocate_none_eq_zero_iff : (pm.allocate .NONE).1 = 0 ↔ pm.answer = 0 := by
  rw [allocate]
  by_cases h : pm.answer = 0
  · rw [if_pos ⟨rfl, h⟩]
    exact ⟨fun _ => h, fun _ => rfl⟩
  · rw [if_neg (fun hand => h hand.2)]
    exact ⟨fun h0 => absurd h0 pm.next_spec.2, fun h0 => absurd h0 h⟩

@[simp]
theorem allocate_answers (mode : MODE) : (pm.allocate mode).2.answers = pm.answers := by
  rw [allocate]
  split_ifs <;> rfl

@[simp]
theorem allocate_calls (mode : MODE) : (pm.allocate mode).2.calls = pm.calls + 1 := by
  rw [allocate]
  split_ifs <;> rfl

theorem reserve_eq_false_iff (pageCount : ℕ) : (pm.reserve pageCount).1 = false ↔ pm.answer = 0 := by
  rw [reserve]
  split_ifs with h
  · simp [h]
  · simp [h]

@[simp]
theorem reserve_answers (pageCount : ℕ) : (pm.reserve pageCount).2.answers = pm.answers := by
  rw [reserve]
  split_ifs <;> rfl

@[simp]
theorem reserve_calls (pageCount : ℕ) : (pm.reserve pageCount).2.calls = pm.calls + 1 := by
  rw [reserve]
  split_ifs <;> rfl

end FramePool

namespace Vspace

/-! ### Looking through the tables -/

/-- The entry of a table in its directory, which is clear if the directory is still to be
created. -/
def dirEntry (vs : Vspace) (t : ℕ) : PDTE :=
  if (vs.pdpt (t / 0x200)).present = true then vs.pdt t else {}

/-- Whether a directory can be entered, when the physical memory manager has been called `calls`
times. -/
def lookDirectory (vs : Vspace) (d calls : ℕ) : Look :=
  if (vs.pdpt d).present = true then .on calls
  else if vs.pm.answers calls = 0 then .stuck
  else .on (calls + 1)

/-- Whether a table has room for `n` pages. -/
def lookTable (vs : Vspace) (n t calls : ℕ) : Look :=
  let cur := vs.dirEntry t
  if cur.bypass = true then .on calls
  else if cur.present = true then
    if n ≤ getMaxSize cur then .room else .on calls
  else if vs.pm.answers calls = 0 then .on (calls + 1)
  else .room

/-- Looks for room in one table, from the table `t` on. -/
def lookAny (vs : Vspace) (n : ℕ) : ℕ → ℕ → ℕ → Look
  | 0, _, calls => .on calls
  | tables + 1, t, calls =>
      let dir := if t % 0x200 = 0 then vs.lookDirectory (t / 0x200) calls else .on calls
      (dir.andThen (vs.lookTable n t)).andThen (lookAny vs n tables (t + 1))

/-- Whether a directory has room for `n` pages in tables that are free as a whole. -/
def lookRow (vs : Vspace) (n d calls : ℕ) : Look :=
  let alignedCount := (n + 0x1FF) / 0x200
  let avl := scanDirectory (fun i => vs.dirEntry (d * 0x200 + i)) alignedCount 0x200 0 {}
  if avl.pages = alignedCount then
    if vs.pm.answers calls = 0 then .on (calls + 1) else .room
  else .on calls

/-- Looks for room in one directory, from the directory `d` on. -/
def lookBig (vs : Vspace) (n : ℕ) : ℕ → ℕ → ℕ → Look
  | 0, _, calls => .on calls
  | directories + 1, d, calls =>
      ((vs.lookDirectory d calls).andThen (vs.lookRow n d)).andThen (lookBig vs n directories (d + 1))

/-- Looks for room below 4 GB, in the first `0x800` tables. -/
def lookBelow (vs : Vspace) (n : ℕ) : Look :=
  if n < 0x200 then vs.lookAny n 0x800 0 vs.pm.calls else vs.lookBig n 4 0 vs.pm.calls

variable {debug : Bool} {vs vs' vs'' : Vspace} {t d q n c c' : ℕ}

theorem lookAny_lock (vs : Vspace) (locked : Bool) (n tables t calls : ℕ) :
  lookAny { vs with locked := locked } n tables t calls = vs.lookAny n tables t calls
  := by
  induction tables generalizing t calls with
  | zero => rfl
  | succ tables ih =>
      rw [lookAny, lookAny, funext (ih (t + 1))]
      rfl

theorem lookBig_lock (vs : Vspace) (locked : Bool) (n directories d calls : ℕ) :
  lookBig { vs with locked := locked } n directories d calls = vs.lookBig n directories d calls
  := by
  induction directories generalizing d calls with
  | zero => rfl
  | succ directories ih =>
      rw [lookBig, lookBig, funext (ih (d + 1))]
      rfl

/-- The lock does not matter for what one sees. -/
theorem lookBelow_lock (vs : Vspace) (locked : Bool) (n : ℕ) :
  lookBelow { vs with locked := locked } n = vs.lookBelow n
  := by
  rw [lookBelow, lookBelow, lookAny_lock, lookBig_lock]

/-! ### What a search has passed -/

/-- A search has entered the directories of the tables before `t`, and has found no room. -/
structure Passed (debug : Bool) (vs : Vspace) (t : ℕ) (vs' : Vspace) (calls : ℕ) : Prop where
  same : Same debug vs vs'
  entry : ∀ t', (vs'.pdpt (t' / 0x200)).present = true → vs'.pdt t' = vs.dirEntry t'
  ahead : ∀ i, t ≤ i * 0x200 → vs'.pdpt i = vs.pdpt i
  behind : t % 0x200 ≠ 0 → (vs'.pdpt (t / 0x200)).present = true
  answers : vs'.pm.answers = vs.pm.answers
  calls_eq : vs'.pm.calls = calls

namespace Passed

theorem zero (h : Orderly debug vs) : Passed debug vs 0 vs vs.pm.calls := by
  refine ⟨Same.refl h, ?_, fun _ _ => rfl, by simp, rfl, rfl⟩
  intro t' hp
  rw [dirEntry, if_pos hp]

/-- The search passes to the next directory. -/
theorem mono (h : Passed debug vs t vs' c) {t' : ℕ} (hle : t ≤ t') (hmod : t' % 0x200 = 0) :
  Passed debug vs t' vs' c
  := ⟨h.same, h.entry, fun i hi => h.ahead i (le_trans hle hi), fun hne => absurd hmod hne,
    h.answers, h.calls_eq⟩

theorem answer_eq (h : Passed debug vs t vs' c) : vs'.pm.answer = vs.pm.answers c := by
  rw [FramePool.answer, h.answers, h.calls_eq]

/-- A call to the physical memory manager that does not change the tables. -/
theorem called (h : Passed debug vs t vs' c) {pm : FramePool} (hanswers : pm.answers = vs'.pm.answers)
    (hcalls : pm.calls = vs'.pm.calls + 1) (hsame : Same debug vs' { vs' with pm := pm }) :
  Passed debug vs t { vs' with pm := pm } (c + 1)
  := by
  refine ⟨h.same.trans hsame, h.entry, h.ahead, h.behind, ?_, ?_⟩
  · rw [← h.answers, ← hanswers]
  · rw [← h.calls_eq, ← hcalls]

end Passed

/-- A directory is entered, or cannot be created. -/
theorem enterPdt_looked (h : Passed debug vs t vs' c) (ht : t < 0x40000) {l : Look}
    (hl : l = if t % 0x200 = 0 then vs.lookDirectory (t / 0x200) c else .on c) :
  (l = .stuck ∧ ∃ vs₁, enterPdt debug vs' (t / 0x200) = .ok (false, vs₁) ∧ Same debug vs vs₁) ∨
  ∃ c₁ vs₁, l = .on c₁ ∧ enterPdt debug vs' (t / 0x200) = .ok (true, vs₁) ∧
    Passed debug vs (t + 1) vs₁ c₁ ∧ (vs₁.pdpt (t / 0x200)).present = true
  := by
  obtain ⟨res, vs₁, heq, hsame, hpresent⟩ := enterPdt_same h.same.orderly (show t / 0x200 < 0x200 by lia)
  by_cases hp : (vs'.pdpt (t / 0x200)).present = true
  · -- the directory is there already
    right
    refine ⟨c, vs', ?_, by rw [enterPdt, if_pos hp], ?_, hp⟩
    · rw [hl]
      split_ifs with hmod
      · rw [lookDirectory, ← h.ahead _ (by lia), if_pos hp]
      · rfl
    · refine ⟨h.same, h.entry, fun i hi => h.ahead i (by lia), ?_, h.answers, h.calls_eq⟩
      intro hne
      rw [show (t + 1) / 0x200 = t / 0x200 by lia]
      exact hp
  · rw [Bool.not_eq_true] at hp
    have hmod : t % 0x200 = 0 := by
      by_contra hne
      rw [h.behind hne] at hp
      cases hp
    have hnew : enterPdt debug vs' (t / 0x200) = newPdt debug vs' (t / 0x200) := by
      rw [enterPdt, hp, if_neg Bool.false_ne_true]
    rw [if_pos hmod, lookDirectory, ← h.ahead _ (by lia), hp, if_neg (by simp)] at hl
    by_cases h0 : (vs'.pm.allocate .NONE).1 = 0
    · left
      rw [newPdt_refused hp h0, heq] at hnew
      cases hnew
      rw [FramePool.allocate_none_eq_zero_iff, h.answer_eq] at h0
      rw [if_pos h0] at hl
      exact ⟨hl, _, heq, h.same.trans hsame⟩
    · right
      rw [newPdt_done hp h0, heq] at hnew
      cases hnew
      rw [FramePool.allocate_none_eq_zero_iff, h.answer_eq] at h0
      rw [if_neg h0] at hl
      refine ⟨c + 1, _, hl, heq, ?_, hpresent rfl⟩
      refine ⟨h.same.trans hsame, ?_, ?_, ?_, ?_, ?_⟩
      · intro t' ht'
        by_cases hdir : t' / 0x200 = t / 0x200
        · rw [dirEntry, hdir, ← h.ahead _ (by lia), hp]
          simp [withPdt, hdir]
        · simp only [withPdt, Function.update_of_ne hdir] at ht'
          simp only [withPdt, if_neg hdir]
          apply h.entry t' ht'
      · intro i hi
        simp only [withPdt]
        rw [Function.update_of_ne (by lia)]
        apply h.ahead i (by lia)
      · intro _
        rw [show (t + 1) / 0x200 = t / 0x200 by lia]
        apply hpresent rfl
      · simp only [withPdt, FramePool.allocate_answers, h.answers]
      · simp only [withPdt, FramePool.allocate_calls, h.calls_eq]

/-- The search in a table that is present: it has room, or the search goes on. -/
theorem reserveAny_present (h : Orderly debug vs) (ht : vs.hasTable t = true)
    (hb : vs.bypassed t = false) (hlocked : debug = true → vs.locked = true) (hn : n ≠ 0)
    {vs₀ vs₁ : Vspace}
    (hdir : enterPdt debug vs₀ (t / 0x200) = .ok (true, vs₁)) (hby : (vs₁.pdt t).bypass = false)
    (hent : enterPt debug vs₁ t = .ok (true, vs)) (tables : ℕ) :
  (n ≤ getMaxSize (vs.pdt t) ∧ ∃ index vs₂, index + n ≤ 0x200 ∧
    Took debug vs vs₂ ⟨t * 0x200 + index, n⟩ ∧
    reserveAnyTables debug n (tables + 1) t vs₀ =
      if t % 0x800 * 0x200000 + index * 0x1000 ≠ 0 then
        .ok (t % 0x800 * 0x200000 + index * 0x1000, vs₂)
      else reserveAnyTables debug n tables (t + 1) vs₂) ∨
  (getMaxSize (vs.pdt t) < n ∧
    reserveAnyTables debug n (tables + 1) t vs₀ = reserveAnyTables debug n tables (t + 1) vs)
  := by
  obtain ⟨res, pdt, table, heq, hcase⟩ := reserveAnyTable_eq h ht hb hn hlocked
  rw [reserveAnyTables, hdir]
  simp only [Except.ok_bind]
  rw [if_neg (by simp), hby, if_neg (by simp), hent]
  simp only [Except.ok_bind]
  rw [if_neg (by simp), heq]
  simp only [Except.ok_bind]
  rcases hcase with ⟨hzero, hself, hlt⟩ | ⟨index, hge, haddr, hend, htook⟩
  · right
    rw [hzero, if_neg (by simp), hself]
    exact ⟨hlt, rfl⟩
  · left
    refine ⟨hge, index, _, hend, htook, ?_⟩
    rw [haddr]
    rfl

/-- A table that has been entered has room, or is passed. -/
theorem reserveAnyTables_looked (h : Passed debug vs (t + 1) vs' c)
    (hp : (vs'.pdpt (t / 0x200)).present = true) (hlocked : debug = true → vs.locked = true)
    (hn : n ≠ 0) (hle : n ≤ 0x200) {vs₀ : Vspace}
    (hdir : enterPdt debug vs₀ (t / 0x200) = .ok (true, vs')) (tables : ℕ) :
  (∃ index vs₁, vs.lookTable n t c = .room ∧ index + n ≤ 0x200 ∧
    Took debug vs vs₁ ⟨t * 0x200 + index, n⟩ ∧
    reserveAnyTables debug n (tables + 1) t vs₀ =
      if t % 0x800 * 0x200000 + index * 0x1000 ≠ 0 then
        .ok (t % 0x800 * 0x200000 + index * 0x1000, vs₁)
      else reserveAnyTables debug n tables (t + 1) vs₁) ∨
  ∃ c₁ vs₁, vs.lookTable n t c = .on c₁ ∧ Passed debug vs (t + 1) vs₁ c₁ ∧
    reserveAnyTables debug n (tables + 1) t vs₀ = reserveAnyTables debug n tables (t + 1) vs₁
  := by
  have hcur := h.entry t hp
  have hlocked' : debug = true → vs'.locked = true := by
    rw [h.same.locked]
    apply hlocked
  rw [lookTable, ← hcur]
  by_cases hb : (vs'.pdt t).bypass = true
  · right
    rw [if_pos hb, reserveAnyTables, hdir]
    simp only [Except.ok_bind]
    rw [if_neg (by simp), if_pos hb]
    exact ⟨c, vs', rfl, h, rfl⟩
  rw [if_neg hb]
  rw [Bool.not_eq_true] at hb
  have hby : vs'.bypassed t = false := by
    rw [bypassed, hb, Bool.and_false]
  by_cases hpt : (vs'.pdt t).present = true
  · have hhas : vs'.hasTable t = true := by
      rw [hasTable, hp, hpt, Bool.and_self]
    have hent : enterPt debug vs' t = .ok (true, vs') := by
      rw [enterPt, if_pos hpt]
    rw [if_pos hpt]
    rcases reserveAny_present h.same.orderly hhas hby hlocked' hn hdir hb hent tables
      with ⟨hge, index, vs₁, hend, htook, heq⟩ | ⟨hlt, heq⟩
    · left
      rw [if_pos hge]
      exact ⟨index, vs₁, rfl, hend, h.same.took htook, heq⟩
    · right
      rw [if_neg (by omega)]
      exact ⟨c, vs', rfl, h, heq⟩
  · rw [if_neg hpt]
    rw [Bool.not_eq_true] at hpt
    have hnew : enterPt debug vs' t = newPt debug vs' t false := by
      rw [enterPt, hpt, if_neg Bool.false_ne_true]
    obtain ⟨res, vs₁, hpt₁, hsame, -, hhas, -, -⟩ := newPt_same h.same.orderly hp hpt hb false
    by_cases h0 : (vs'.pm.allocate .NONE).1 = 0
    · right
      have hrefused := newPt_refused debug false .NONE hpt hb rfl h0
      rw [hpt₁] at hrefused
      cases hrefused
      rw [FramePool.allocate_none_eq_zero_iff, h.answer_eq] at h0
      rw [if_pos h0, reserveAnyTables, hdir]
      simp only [Except.ok_bind]
      rw [if_neg (by simp), hb, if_neg (by simp), hnew, hpt₁]
      simp only [Except.ok_bind, if_true]
      exact ⟨c + 1, _, rfl, h.called (by simp) (by simp) hsame, rfl⟩
    · left
      obtain ⟨pdt, table, hinit, hw, hclear, -, -, -⟩ := initPt_eq debug (vs'.pm.allocate .NONE).1
      have hdone := newPt_done false .NONE hpt hb rfl h0 hinit
      rw [hpt₁] at hdone
      cases hdone
      have hmax : getMaxSize ((vs'.withPt t pdt table (vs'.pm.allocate .NONE).2).pdt t) = 0x200 := by
        simp only [withPt, setTable, Function.update_self]
        apply hw.getMaxSize_of_isFree
        intro i _
        rw [← PTE.isFree_untagged, hclear]
        rfl
      rw [FramePool.allocate_none_eq_zero_iff, h.answer_eq] at h0
      rw [if_neg h0]
      have hby₁ := hby
      rw [← hsame.bypassed] at hby₁
      have hlocked₁ := hlocked'
      rw [← hsame.locked] at hlocked₁
      rcases reserveAny_present hsame.orderly (hhas rfl) hby₁ hlocked₁ hn hdir hb
          (hnew.trans hpt₁) tables
        with ⟨-, index, vs₁, hend, htook, heq⟩ | ⟨hlt, -⟩
      · exact ⟨index, vs₁, rfl, hend, (h.same.trans hsame).took htook, heq⟩
      · lia

/-! ### Looking below 4 GB -/

/-- What a search for `n` pages of the space `vs` comes to, when one has looked at the tables before
`t`. `out` is what the search comes to, and `rest` what it comes to from there on. -/
def Comes (debug : Bool) (vs : Vspace) (n t : ℕ) (rest : Vspace → Except Fault (ℕ × Vspace))
    (out : Except Fault (ℕ × Vspace)) : Look → Prop
  | .room => ∃ q vs₁, out = .ok (q * 0x1000, vs₁) ∧ q ≠ 0 ∧ Took debug vs vs₁ ⟨q, n⟩
  | .stuck => ∃ vs₁, out = .ok (0, vs₁) ∧ Same debug vs vs₁
  | .on calls => ∃ vs₁, Passed debug vs t vs₁ calls ∧ out = rest vs₁

/-- `reserve_any` in the tables below 4 GB. -/
theorem reserveAnyTables_comes (hn : n ≠ 0) (hle : n ≤ 0x200)
    (hlocked : debug = true → vs.locked = true) (hzero : ¬ vs.Vacant 0) (rest : ℕ) :
    ∀ (tables t : ℕ) (vs' : Vspace) (c : ℕ), Passed debug vs t vs' c → tables + t ≤ 0x800 →
      Comes debug vs n (tables + t) (reserveAnyTables debug n rest (tables + t))
        (reserveAnyTables debug n (tables + rest) t vs') (vs.lookAny n tables t c)
  | 0, t, vs', c, h, _ => by
      rw [lookAny, Nat.zero_add, Nat.zero_add]
      exact ⟨vs', h, rfl⟩
  | tables + 1, t, vs', c, h, hlt => by
      rw [lookAny, show tables + 1 + rest = (tables + rest) + 1 by omega]
      obtain ⟨l, hl⟩ : ∃ l, (if t % 0x200 = 0 then vs.lookDirectory (t / 0x200) c else .on c) = l :=
        ⟨_, rfl⟩
      rw [hl]
      rcases enterPdt_looked h (show t < 0x40000 by omega) hl.symm
        with ⟨rfl, vs₁, heq, hsame⟩ | ⟨c₁, vs₁, rfl, heq, hpassed, hp⟩
      · refine ⟨vs₁, ?_, hsame⟩
        rw [reserveAnyTables, heq]
        simp only [Except.ok_bind, if_true]
        rfl
      · rw [Look.andThen]
        rcases reserveAnyTables_looked hpassed hp hlocked hn hle heq (tables + rest)
          with ⟨index, vs₂, hlook, hend, htook, hsearch⟩ | ⟨c₂, vs₂, hlook, hpassed₂, hsearch⟩
        · -- the address is not 0, as the first page is not vacant
          have hself := htook.ne_zero hzero hn
          have haddr : t % 0x800 * 0x200000 + index * 0x1000 = (t * 0x200 + index) * 0x1000 := by
            rw [Nat.mod_eq_of_lt (by omega)]
            lia
          rw [hlook, hsearch, haddr, if_pos (Nat.mul_ne_zero hself (by decide))]
          exact ⟨_, vs₂, rfl, hself, htook⟩
        · rw [hlook, hsearch, Look.andThen]
          have hnext := reserveAnyTables_comes hn hle hlocked hzero rest tables (t + 1) vs₂ c₂ hpassed₂
            (by omega)
          rwa [show tables + (t + 1) = tables + 1 + t by omega] at hnext

/-- A row of free tables is looked for in what is recorded of the tables in their directory. -/
theorem scanDirectory_congr {pdt pdt' : ℕ → PDTE} {a : ℕ} (h : ∀ i < 0x200, pdt i = pdt' i) :
    ∀ (rest i : ℕ) (avl : Available), i + rest = 0x200 →
      scanDirectory pdt a rest i avl = scanDirectory pdt' a rest i avl
  | 0, _, _, _ => rfl
  | rest + 1, i, avl, hi => by
      rw [scanDirectory, scanDirectory, h i (by omega)]
      simp only [scanDirectory_congr h rest (i + 1) _ (show i + 1 + rest = 0x200 by omega)]

/-- A directory that has been entered has room for a large reservation, or is passed. -/
theorem reserveBigDirectories_looked (h : Passed debug vs (d * 0x200 + 1) vs' c)
    (hp : (vs'.pdpt d).present = true) (hlocked : debug = true → vs.locked = true)
    (hn : n ≠ 0) {vs₀ : Vspace} (hdir : enterPdt debug vs₀ d = .ok (true, vs'))
    (directories : ℕ) :
  (∃ base vs₁, vs.lookRow n d c = .room ∧ base < 0x200 ∧
    Took debug vs vs₁ ⟨(d * 0x200 + base) * 0x200, n⟩ ∧
    reserveBigDirectories debug n (directories + 1) d vs₀ =
      .ok ((d * 0x40000000 + base * 0x200000) % 2 ^ 32, vs₁)) ∨
  ∃ c₁ vs₁, vs.lookRow n d c = .on c₁ ∧ Passed debug vs ((d + 1) * 0x200) vs₁ c₁ ∧
    reserveBigDirectories debug n (directories + 1) d vs₀
      = reserveBigDirectories debug n directories (d + 1) vs₁
  := by
  have hdiv : ∀ i < 0x200, (d * 0x200 + i) / 0x200 = d := by lia
  have hnext : Passed debug vs ((d + 1) * 0x200) vs' c :=
    h.mono (by lia) (Nat.mul_mod_left _ _)
  have hlocked' : debug = true → vs'.locked = true := by
    rw [h.same.locked]
    apply hlocked
  obtain ⟨a, ha⟩ : ∃ a, (n + 0x1FF) / 0x200 = a := ⟨_, rfl⟩
  have hscan : scanDirectory (fun i => vs'.pdt (d * 0x200 + i)) a 0x200 0 {}
      = scanDirectory (fun i => vs.dirEntry (d * 0x200 + i)) a 0x200 0 {} := by
    apply scanDirectory_congr _ _ _ _ (by omega)
    intro i hi
    apply h.entry
    rw [hdiv i hi]
    exact hp
  obtain ⟨avl, havl⟩ : ∃ avl, scanDirectory (fun i => vs'.pdt (d * 0x200 + i)) a 0x200 0 {} = avl :=
    ⟨_, rfl⟩
  have hsound : avl.Sound (fun i => vs'.pdt (d * 0x200 + i)) := by
    rw [← havl]
    apply scanDirectory_sound _ _ 0x200 0 {} (by omega) rfl
    exact ⟨by simp only; omega, rfl, by simp only; omega⟩
  rw [lookRow, ha, ← hscan, havl, reserveBigDirectories, hdir]
  simp only [Except.ok_bind]
  rw [if_neg Bool.true_eq_false.mp, ha, havl]
  by_cases hpages : avl.pages = a
  · rw [if_pos hpages, if_pos hpages, assert_eq_ok (fun _ => hsound.le), Except.ok_bind]
    have hsame := same_reserve h.same.orderly avl.reserveCount
    rw [← h.answer_eq]
    by_cases hres : (vs'.pm.reserve avl.reserveCount).1 = false
    · right
      rw [if_pos hres, if_pos ((FramePool.reserve_eq_false_iff _ _).mp hres)]
      exact ⟨c + 1, _, rfl, hnext.called (by simp) (by simp) hsame, rfl⟩
    · left
      obtain ⟨vs₁, htake, htook⟩ := takeRow_eq hsame.orderly hlocked' hp hsound
        (hpages.trans ha.symm)
      rw [if_neg hres, if_neg (fun h0 => hres ((FramePool.reserve_eq_false_iff _ _).mpr h0)), htake]
      simp only [Except.ok_bind]
      rw [assert_eq_ok (fun _ => trivial)]
      have hle := hsound.le
      exact ⟨avl.base, vs₁, trivial, by lia, (h.same.trans hsame).took htook, rfl⟩
  · right
    rw [if_neg hpages, if_neg hpages]
    exact ⟨c, vs', rfl, hnext, rfl⟩

/-- `reserve_big` in the directories below 4 GB. -/
theorem reserveBigDirectories_comes (hn : n ≠ 0) (hlocked : debug = true → vs.locked = true)
    (hzero : ¬ vs.Vacant 0) (rest directories d : ℕ) (h : Passed debug vs (d * 0x200) vs' c)
    (hlt : directories + d ≤ 4) :
  Comes debug vs n ((directories + d) * 0x200)
    (reserveBigDirectories debug n rest (directories + d))
    (reserveBigDirectories debug n (directories + rest) d vs') (vs.lookBig n directories d c)
  := by
  induction directories generalizing d vs' c with
  | zero =>
      rw [lookBig, Nat.zero_add, Nat.zero_add]
      exact ⟨vs', h, rfl⟩
  | succ directories ih =>
      rw [lookBig, show directories + 1 + rest = (directories + rest) + 1 by omega]
      have hdiv : d * 0x200 / 0x200 = d := Nat.mul_div_cancel _ (by decide)
      have hmod : d * 0x200 % 0x200 = 0 := Nat.mul_mod_left _ _
      have hlook := enterPdt_looked h (show d * 0x200 < 0x40000 by lia) rfl
      rw [if_pos hmod, hdiv] at hlook
      rcases hlook with ⟨hl, vs₁, heq, hsame⟩ | ⟨c₁, vs₁, hl, heq, hpassed, hp⟩
      · rw [hl]
        refine ⟨vs₁, ?_, hsame⟩
        rw [reserveBigDirectories, heq]
        simp only [Except.ok_bind, if_true]
        rfl
      · rw [hl, Look.andThen]
        rcases reserveBigDirectories_looked hpassed hp hlocked hn heq (directories + rest)
          with ⟨base, vs₂, hlook, hend, htook, hsearch⟩ | ⟨c₂, vs₂, hlook, hpassed₂, hsearch⟩
        · have hself := htook.ne_zero hzero hn
          have haddr : (d * 0x40000000 + base * 0x200000) % 2 ^ 32
              = (d * 0x200 + base) * 0x200 * 0x1000 := by
            rw [Nat.mod_eq_of_lt (by lia)]
            lia
          rw [hlook, hsearch, haddr]
          exact ⟨_, vs₂, rfl, hself, htook⟩
        · rw [hlook, hsearch, Look.andThen]
          have hnext := ih (d + 1) hpassed₂ (by lia)
          rwa [show directories + (d + 1) = directories + 1 + d by lia] at hnext

/-- What a search comes to that has looked at the tables below 4 GB. -/
theorem Comes.looked {rest : Vspace → Except Fault (ℕ × Vspace)} {out : Except Fault (ℕ × Vspace)}
    {l : Look} (h : Comes debug vs n t rest out l) (hlocked : debug = true → vs.locked = true)
    (hall : ∃ res vs', out = .ok (res, vs') ∧ Searched debug vs 0 n res vs')
    (hrest : ∀ vs₁, Orderly debug vs₁ → (debug = true → vs₁.locked = true) →
      ∃ res vs', rest vs₁ = .ok (res, vs') ∧ Searched debug vs₁ 0x800 n res vs') :
  ∃ res vs', out = .ok (res, vs') ∧ Placed n res ∧ Orderly debug vs' ∧
    vs'.bypassed = vs.bypassed ∧
    (l = .room → res ≠ 0 ∧ Took debug vs vs' ⟨res / 0x1000, n⟩) ∧
    (l ≠ .room → ∀ p < 0x100000, vs'.entry p = vs.entry p)
  := by
  obtain ⟨res, vs', rfl, hsearch⟩ := hall
  refine ⟨res, vs', rfl, hsearch.placed, hsearch.orderly, hsearch.bypassed, ?_, ?_⟩
  · rintro rfl
    obtain ⟨q, vs₁, heq, hq, htook⟩ := h
    cases heq
    rw [Nat.mul_div_cancel _ (by decide)]
    exact ⟨Nat.mul_ne_zero hq (by decide), htook⟩
  · intro hl p hp
    cases l with
    | room => exact absurd rfl hl
    | stuck =>
        obtain ⟨vs₁, heq, hsame⟩ := h
        cases heq
        rw [hsame.entry]
    | on calls =>
        obtain ⟨vs₁, hpassed, heq⟩ := h
        have hlocked₁ : debug = true → vs₁.locked = true := by
          rw [hpassed.same.locked]
          apply hlocked
        obtain ⟨res₁, vs₂, heq₁, hsearch₁⟩ := hrest vs₁ hpassed.same.orderly hlocked₁
        rw [← heq] at heq₁
        cases heq₁
        rw [hsearch₁.before p (by lia), hpassed.same.entry]

/-- The search for `n` pages anywhere, with the lock held. -/
def reserveSearch (debug : Bool) (vs : Vspace) (n : ℕ) : Except Fault (ℕ × Vspace) :=
  if n < 0x200 then reserveAny debug vs n else reserveBig debug vs n

/-- The search finds its pages where there is room below 4 GB. Where there is none, it fails, or
finds pages above 4 GB. -/
theorem reserveSearch_looked (h : Orderly debug vs) (hlocked : vs.locked = true)
    (hzero : ¬ vs.Vacant 0) (hn : n ≠ 0) :
  ∃ res vs', reserveSearch debug vs n = .ok (res, vs') ∧ Placed n res ∧ Orderly debug vs' ∧
    vs'.bypassed = vs.bypassed ∧
    (vs.lookBelow n = .room → res ≠ 0 ∧ Took debug vs vs' ⟨res / 0x1000, n⟩) ∧
    (vs.lookBelow n ≠ .room → ∀ p < 0x100000, vs'.entry p = vs.entry p)
  := by
  have hlocked' : debug = true → vs.locked = true := fun _ => hlocked
  rw [reserveSearch, lookBelow]
  by_cases hsmall : n < 0x200
  · rw [if_pos hsmall, if_pos hsmall, reserveAny, assert_eq_ok (fun _ => hlocked),
      assert_eq_ok (fun _ => by omega)]
    have hcomes := reserveAnyTables_comes hn (Nat.le_of_lt hsmall) hlocked' hzero (0x40000 - 0x800)
      0x800 0 vs _ (Passed.zero h) (le_refl _)
    apply hcomes.looked hlocked'
    · apply reserveAnyTables_searched hn _ _ _ h hlocked' (le_refl _)
    · intro vs₁ h₁ hlocked₁
      apply reserveAnyTables_searched hn _ _ _ h₁ hlocked₁ (le_refl _)
  · rw [if_neg hsmall, if_neg hsmall, reserveBig, assert_eq_ok (fun _ => hlocked)]
    have hcomes := reserveBigDirectories_comes hn hlocked' hzero (0x200 - 4) 4 0 (Passed.zero h)
      (le_refl _)
    apply hcomes.looked hlocked'
    · apply reserveBigDirectories_searched hn _ _ _ h hlocked' (le_refl _)
    · intro vs₁ h₁ hlocked₁
      apply reserveBigDirectories_searched hn _ _ _ h₁ hlocked₁ (le_refl _)

end Vspace

end UOS
