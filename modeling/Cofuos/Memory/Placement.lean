import Cofuos.Memory.Search

/-!
# Reserving pages anywhere

A reservation without an address looks for a table with enough free pages in a row, or, if it
is larger than a table, for enough free tables in a row. Both keep the space in order, and both
leave the tables that are bypassed alone.

The address that is returned is computed in 32 bits, apart from the pages that are reserved.
-/

namespace UOS

open Fault

/-- In a table whose recorded size is that of a whole table, every entry is free. -/
theorem WellFormed.isFree_of_getMaxSize {debug : Bool} {pdt : PDTE} {table : Table}
    (h : WellFormed debug pdt table) (hmax : getMaxSize pdt = 0x200) {i : ℕ} (hi : i < 0x200) :
  (table i).isFree = true
  := by
  obtain ⟨l, hchain, -⟩ := h
  have hlast : 0x200 ≤ lastSize l := by
    have := (decodeSize_encodeSize hchain.lastSize_le).1
    rw [← hchain.remain] at this
    rw [getMaxSize] at hmax
    omega
  rcases List.eq_nil_or_concat l with rfl | ⟨l', r, rfl⟩
  · simp at hlast
  · rw [List.concat_eq_append, lastSize_concat] at hlast
    have hr := hchain.maximal r (by simp)
    have hle := hr.le
    apply hr.free
    rw [Run.mem_iff]
    lia

namespace Vspace

variable {debug : Bool} {vs vs' vs'' : Vspace} {t q n : ℕ}

/-- The space is in order, and the same tables are bypassed. -/
structure Kept (debug : Bool) (vs vs' : Vspace) : Prop where
  inv : Inv debug vs'
  bypassed : vs'.bypassed = vs.bypassed
  locked : vs'.locked = vs.locked
  balance : Balanced vs vs'

namespace Kept

theorem trans (h : Kept debug vs vs') (h' : Kept debug vs' vs'') : Kept debug vs vs'' := by
  constructor
  · apply h'.inv
  · rw [h'.bypassed, h.bypassed]
  · rw [h'.locked, h.locked]
  · apply h.balance.trans h'.balance

theorem of_grown (h : Grown debug vs vs') : Kept debug vs vs' :=
  ⟨h.inv, h.bypassed, h.locked, h.balance⟩

theorem of_reserved {c : Run} (h : Reserved debug vs vs' c) : Kept debug vs vs' :=
  ⟨h.inv, h.bypassed, h.locked, h.balance⟩

end Kept

/-- The address of `n` pages that are reserved anywhere, or `0`. As it is computed in 32 bits, the
pages end at 4 GB at the latest. -/
def Placed (n res : ℕ) : Prop := res ≠ 0 → res % 0x1000 = 0 ∧ res + n * 0x1000 ≤ 2 ^ 32

theorem placed_zero (n : ℕ) : Placed n 0 := fun h => absurd rfl h

/-- What a search for `n` pages from the table `first` on has done. -/
structure Searched (debug : Bool) (vs : Vspace) (first n res : ℕ) (vs' : Vspace) : Prop where
  orderly : Orderly debug vs'
  bypassed : vs'.bypassed = vs.bypassed
  placed : Placed n res
  before : ∀ p, p / 0x200 < first → vs'.entry p = vs.entry p
  kept : Inv debug vs → Kept debug vs vs'
  taken : ∀ p, vs'.entry p = vs.entry p ∨ vs.Vacant p ∧ vs'.entry p = (vs.entry p).reserved

/-- Nothing is found. -/
theorem Same.searched (h : Same debug vs vs') (first n : ℕ) : Searched debug vs first n 0 vs' := by
  refine ⟨h.orderly, h.bypassed, placed_zero n, ?_, ?_, ?_⟩
  · intro p _
    rw [h.entry]
  · intro hinv
    exact Kept.of_grown (h.grown hinv)
  · intro p
    left
    rw [h.entry]

/-- A search goes on in a later table. -/
theorem Same.search {first first' res : ℕ} (h : Same debug vs vs')
    (h' : Searched debug vs' first' n res vs'') (hle : first ≤ first') :
  Searched debug vs first n res vs''
  := by
  refine ⟨h'.orderly, h'.bypassed.trans h.bypassed, h'.placed, ?_, ?_, ?_⟩
  · intro p hp
    rw [h'.before p (by omega), h.entry]
  · intro hinv
    exact (Kept.of_grown (h.grown hinv)).trans (h'.kept (h.grown hinv).inv)
  · intro p
    have htaken := h'.taken p
    rwa [Vacant, h.entry, h.bypassed] at htaken

/-- The address of a table in 32 bits. -/
theorem mod_base (t : ℕ) : t * 0x200000 % 2 ^ 32 = t % 0x800 * 0x200000 :=
  Nat.mul_mod_mul_right 0x200000 t 0x800

theorem placed_base (r index : ℕ) (hle : r * 0x200 + index + n ≤ 0x100000) :
  Placed n (r * 0x200000 + index * 0x1000)
  := by
  intro _
  norm_num
  lia

/-- Pages before the ones that are taken are as they were. -/
theorem Took.before (h : Took debug vs vs' ⟨q, n⟩) {p : ℕ} (hp : p < q) : vs'.entry p = vs.entry p := by
  rw [h.entry, if_neg]
  rw [Run.mem_iff]
  simp only
  omega

/-- The pages that are taken were vacant. -/
theorem Took.taken {c : Run} (h : Took debug vs vs' c) (p : ℕ) :
  vs'.entry p = vs.entry p ∨ vs.Vacant p ∧ vs'.entry p = (vs.entry p).reserved
  := by
  by_cases hp : p ∈ c
  · right
    rw [h.entry, if_pos hp]
    exact ⟨h.vacant p hp, rfl⟩
  · left
    rw [h.entry, if_neg hp]

/-- Pages from a place in a table on are taken, and their address is returned. -/
theorem Took.searched {index first : ℕ} (h : Took debug vs vs' ⟨t * 0x200 + index, n⟩)
    (hfirst : first ≤ t) (hle : t % 0x800 * 0x200 + index + n ≤ 0x100000) :
  Searched debug vs first n (t % 0x800 * 0x200000 + index * 0x1000) vs'
  := by
  refine ⟨h.orderly, h.bypassed, placed_base _ index hle, ?_, ?_, h.taken⟩
  · intro p hp
    apply h.before
    lia
  · intro hinv
    exact Kept.of_reserved (h.reserved hinv)

/-- Pages whose address is `0` in 32 bits are taken, and the search goes on. -/
theorem Took.search {index res : ℕ} (h : Took debug vs vs' ⟨t * 0x200 + index, n⟩)
    (h' : Searched debug vs' (t + 1) n res vs'') :
  Searched debug vs t n res vs''
  := by
  refine ⟨h'.orderly, h'.bypassed.trans h.bypassed, h'.placed, ?_, ?_, ?_⟩
  · intro p hp
    rw [h'.before p (by lia), h.before (by lia)]
  · intro hinv
    have hres := h.reserved hinv
    exact (Kept.of_reserved hres).trans (h'.kept hres.inv)
  · intro p
    rcases h.taken p with hsame | ⟨hvacant, hreserved⟩
    · have htaken := h'.taken p
      rwa [Vacant, hsame, h.bypassed] at htaken
    · right
      refine ⟨hvacant, ?_⟩
      rcases h'.taken p with hsame | ⟨⟨hfree, _⟩, _⟩
      · rw [hsame, hreserved]
      · -- a page that has been taken is not taken again
        rw [hreserved, PTE.isFree_reserved] at hfree
        cases hfree

/-! ### In one table -/

/-- A table that is present and not bypassed has its directory entry in order. -/
theorem present_of_hasTable (ht : vs.hasTable t = true) (hb : vs.bypassed t = false) :
  (vs.pdt t).present = true ∧ (vs.pdt t).bypass = false
  := by
  rw [hasTable, Bool.and_eq_true] at ht
  rw [bypassed, ht.1, Bool.true_and] at hb
  exact ⟨ht.2, hb⟩

/-- A reservation anywhere in a table that is present. -/
theorem reserveAnyTable_eq (h : Orderly debug vs) (ht : vs.hasTable t = true)
    (hb : vs.bypassed t = false) (hn : n ≠ 0) (hlocked : debug = true → vs.locked = true) :
  ∃ res pdt table, impReserveAny debug vs.locked (vs.pdt t) (vs.pt t) (t * 0x200000 % 2 ^ 32) n
      = .ok (res, pdt, table) ∧
    ((res = 0 ∧ vs.setTable t pdt table = vs ∧ getMaxSize (vs.pdt t) < n) ∨
      ∃ index, n ≤ getMaxSize (vs.pdt t) ∧ res = t % 0x800 * 0x200000 + index * 0x1000 ∧ index + n ≤ 0x200 ∧
        Took debug vs (vs.setTable t pdt table) ⟨t * 0x200 + index, n⟩)
  := by
  rw [mod_base]
  rcases impReserveAny_eq (h t ht hb) (t % 0x800 * 0x200000) hn hlocked
      (fun _ => present_of_hasTable ht hb)
    with ⟨heq, hlt⟩ | ⟨index, pdt, table, heq, hge, hle, hw, hfree, hed, hu⟩
  · exact ⟨0, vs.pdt t, vs.pt t, heq, .inl ⟨rfl, setTable_self vs t, hlt⟩⟩
  · refine ⟨_, pdt, table, heq, .inr ⟨index, hge, ?_, hle, took_setTable h ht hb hw hfree hed hu hle⟩⟩
    apply Nat.mod_eq_of_lt
    lia

/-- The loop of `reserve_any`. -/
theorem reserveAnyTables_searched (hn : n ≠ 0) :
    ∀ (tables t : ℕ) (vs : Vspace), Orderly debug vs → (debug = true → vs.locked = true) →
      tables + t ≤ 0x40000 →
      ∃ res vs', reserveAnyTables debug n tables t vs = .ok (res, vs') ∧
        Searched debug vs t n res vs'
  | 0, t, vs, h, _, _ => ⟨0, vs, rfl, (Same.refl h).searched t n⟩
  | tables + 1, t, vs, h, hlocked, hle => by
      rw [reserveAnyTables]
      obtain ⟨res, vs₁, heq₁, hs₁, hdir⟩ := enterPdt_same h (show t / 0x200 < 0x200 by omega)
      have hlocked₁ : debug = true → vs₁.locked = true := by
        rw [hs₁.locked]
        apply hlocked
      rw [heq₁]
      simp only [Except.ok_bind]
      cases res with
      | false =>
          rw [if_pos rfl]
          exact ⟨0, vs₁, rfl, hs₁.searched _ n⟩
      | true =>
      rw [if_neg (by simp)]
      by_cases hb : (vs₁.pdt t).bypass = true
      · rw [if_pos hb]
        obtain ⟨res, vs₂, heq₂, hsearch⟩ := reserveAnyTables_searched hn tables (t + 1) vs₁
          hs₁.orderly hlocked₁ (by omega)
        exact ⟨res, vs₂, heq₂, hs₁.search hsearch (Nat.le_succ t)⟩
      rw [if_neg hb]
      rw [Bool.not_eq_true] at hb
      obtain ⟨res, vs₂, heq₂, hs₂, hhas⟩ := enterPt_same hs₁.orderly (hdir rfl) hb
      have hsame := hs₁.trans hs₂
      have hlocked₂ : debug = true → vs₂.locked = true := by
        rw [hs₂.locked]
        apply hlocked₁
      have hby : vs₂.bypassed t = false := by
        rw [hs₂.bypassed, bypassed, hb, Bool.and_false]
      rw [heq₂]
      simp only [Except.ok_bind]
      cases res with
      | false =>
          rw [if_pos rfl]
          obtain ⟨res, vs₃, heq₃, hsearch⟩ := reserveAnyTables_searched hn tables (t + 1) vs₂
            hs₂.orderly hlocked₂ (by omega)
          exact ⟨res, vs₃, heq₃, hsame.search hsearch (Nat.le_succ t)⟩
      | true =>
      rw [if_neg (by simp)]
      obtain ⟨res, pdt, table, heq₃, hcase⟩ := reserveAnyTable_eq hs₂.orderly (hhas rfl) hby hn
        hlocked₂
      rw [heq₃]
      simp only [Except.ok_bind]
      have hlocked₃ : debug = true → (vs₂.setTable t pdt table).locked = true := hlocked₂
      by_cases hres : res ≠ 0
      · rw [if_pos hres]
        rcases hcase with ⟨hzero, -⟩ | ⟨index, -, haddr, hend, htook⟩
        · exact absurd hzero hres
        · rw [haddr]
          exact ⟨_, _, rfl, hsame.search (htook.searched (le_refl t) (by lia)) (le_refl t)⟩
      · rw [if_neg hres]
        rw [not_not] at hres
        rcases hcase with ⟨-, hself, -⟩ | ⟨index, -, haddr, hend, htook⟩
        · rw [hself]
          obtain ⟨res, vs₄, heq₄, hsearch⟩ := reserveAnyTables_searched hn tables (t + 1) vs₂
            hs₂.orderly hlocked₂ (by omega)
          exact ⟨res, vs₄, heq₄, hsame.search hsearch (Nat.le_succ t)⟩
        · obtain ⟨res', vs₄, heq₄, hsearch⟩ := reserveAnyTables_searched hn tables (t + 1) _
            htook.orderly hlocked₃ (by lia)
          exact ⟨res', vs₄, heq₄, hsame.search (htook.search hsearch) (le_refl t)⟩

/-- The loop of `reserve_any` keeps a space in order. -/
theorem reserveAnyTables_eq (hn : n ≠ 0) (tables t : ℕ) (vs : Vspace) (h : Inv debug vs)
    (hlocked : debug = true → vs.locked = true) (hle : tables + t ≤ 0x40000) :
  ∃ res vs', reserveAnyTables debug n tables t vs = .ok (res, vs') ∧ Kept debug vs vs' ∧
    Placed n res
  := by
  obtain ⟨res, vs', heq, hsearch⟩ := reserveAnyTables_searched hn tables t vs h.orderly hlocked hle
  exact ⟨res, vs', heq, hsearch.kept h, hsearch.placed⟩

/-! ### In whole tables -/

/-- The number of tables that are not present, of `n` tables from `t` on. -/
def absent (pdt : ℕ → PDTE) (t : ℕ) : ℕ → ℕ
  | 0 => 0
  | n + 1 => (if (pdt t).present = true then 0 else 1) + absent pdt (t + 1) n

theorem absent_succ (pdt : ℕ → PDTE) (t n : ℕ) :
  absent pdt t (n + 1) = absent pdt t n + if (pdt (t + n)).present = true then 0 else 1
  := by
  induction n generalizing t with
  | zero => simp [absent]
  | succ n ih =>
      rw [absent, ih (t + 1), absent, show t + 1 + n = t + (n + 1) by omega]
      omega

theorem absent_shift (pdt : ℕ → PDTE) (k t n : ℕ) :
  absent (fun i => pdt (k + i)) t n = absent pdt (k + t) n
  := by
  induction n generalizing t with
  | zero => rfl
  | succ n ih => rw [absent, absent, ih (t + 1), Nat.add_assoc]

theorem absent_congr {pdt pdt' : ℕ → PDTE} {t : ℕ} :
    ∀ {n : ℕ}, (∀ i, t ≤ i → i < t + n → pdt' i = pdt i) → absent pdt' t n = absent pdt t n := by
  intro n h
  induction n generalizing t with
  | zero => rfl
  | succ n ih =>
      rw [absent, absent, h t (by omega) (by omega), ih]
      intro i hi hi'
      apply h i (by omega) (by omega)

/-- A table that can be taken as a whole: it is not present, or all of its pages are free. -/
def Whole (pdt : PDTE) : Prop :=
  pdt.bypass = false ∧ (pdt.present = true → getMaxSize pdt = 0x200)

/-- The tables found so far lie in a row and can be taken as a whole. -/
structure Available.Sound (pdt : ℕ → PDTE) (avl : Available) : Prop where
  whole : ∀ i, avl.base ≤ i → i < avl.base + avl.pages → Whole (pdt i)
  reserveCount : avl.reserveCount = absent pdt avl.base avl.pages
  le : avl.base + avl.pages ≤ 0x200

/-- The loop over a directory finds tables that can be taken as a whole. -/
theorem scanDirectory_sound (pdt : ℕ → PDTE) (a : ℕ) :
    ∀ (rest i : ℕ) (avl : Available), i + rest = 0x200 → avl.base + avl.pages = i →
      avl.Sound pdt → (scanDirectory pdt a rest i avl).Sound pdt
  | 0, i, avl, _, _, h => h
  | rest + 1, i, avl, hi, hend, h => by
      rw [scanDirectory]
      dsimp only
      by_cases hc : (pdt i).bypass = true ∨ ((pdt i).present = true ∧ getMaxSize (pdt i) ≠ 0x200)
      · rw [if_pos hc]
        apply scanDirectory_sound pdt a rest (i + 1) _ (by omega) rfl
        exact ⟨by simp only; omega, rfl, by simp only; omega⟩
      · rw [if_neg hc]
        have hwhole : Whole (pdt i) := by
          rw [not_or, not_and, not_not, Bool.not_eq_true] at hc
          exact hc
        have hsound : Available.Sound pdt { avl with
            pages := avl.pages + 1
            reserveCount := if (pdt i).present = true then avl.reserveCount
              else avl.reserveCount + 1 } := by
          constructor
          · intro j hj hj'
            simp only at hj hj'
            by_cases hji : j = i
            · rw [hji]
              apply hwhole
            · apply h.whole j hj
              lia
          · simp only
            rw [absent_succ, hend, ← h.reserveCount]
            split_ifs
            · rfl
            · rfl
          · simp only
            lia
        by_cases ha : avl.pages + 1 = a
        · rw [if_pos ha]
          apply hsound
        · rw [if_neg ha]
          apply scanDirectory_sound pdt a rest (i + 1) _ (by omega) _ hsound
          simp only
          lia

/-- A table that has been found free is entered. All of its pages are vacant. -/
theorem takePt_eq (h : Orderly debug vs) (hdir : (vs.pdpt (t / 0x200)).present = true)
    (hw : Whole (vs.pdt t)) (reserveCount : ℕ)
    (hcount : (vs.pdt t).present = false → reserveCount ≠ 0) :
  ∃ vs', takePt debug vs t reserveCount
      = .ok (if (vs.pdt t).present = true then reserveCount else reserveCount - 1, vs') ∧
    Same debug vs vs' ∧ vs'.hasTable t = true ∧ vs'.pdpt = vs.pdpt ∧
    (∀ t', t' ≠ t → vs'.pdt t' = vs.pdt t') ∧ ∀ i < 0x200, vs'.Vacant (t * 0x200 + i)
  := by
  have hdiv : ∀ i < 0x200, (t * 0x200 + i) / 0x200 = t := by lia
  have hby : vs.bypassed t = false := by
    rw [bypassed, hw.1, Bool.and_false]
  rw [takePt]
  by_cases hp : (vs.pdt t).present = true
  · have hhas : vs.hasTable t = true := by
      rw [hasTable, hdir, hp, Bool.and_self]
    rw [if_pos hp, if_pos hp, assert_eq_ok (fun _ => hw.2 hp)]
    refine ⟨vs, rfl, Same.refl h, hhas, rfl, fun _ _ => rfl, ?_⟩
    intro i hi
    constructor
    · have hview := view_eq hhas hi
      rw [view] at hview
      rw [hview, PTE.isFree_untagged]
      apply (h t hhas hby).isFree_of_getMaxSize (hw.2 hp) hi
    · rw [hdiv i hi, hby]
  · rw [if_neg hp, if_neg hp]
    rw [Bool.not_eq_true] at hp
    obtain ⟨res, vs₁, heq, hs, htake, hyes, hpdpt, hpdt⟩ := newPt_same h hdir hp hw.1 true
    rw [assert_eq_ok (fun _ => hcount hp), Except.ok_bind, heq]
    refine ⟨vs₁, rfl, hs, hyes (htake rfl), hpdpt, hpdt, ?_⟩
    intro i hi
    rw [hs.vacant_iff]
    constructor
    · rw [entry_of_not_hasTable]
      · rfl
      · rw [hdiv i hi, hasTable, hp, Bool.and_false]
    · rw [hdiv i hi, hby]

/-- The vacant pages at the beginning of a table are reserved. -/
theorem takeTable_eq (h : Orderly debug vs) (ht : vs.hasTable t = true) (hb : vs.bypassed t = false)
    {size : ℕ} (hsize : size ≠ 0) (hle : size ≤ 0x200) (hlocked : debug = true → vs.locked = true)
    (hvac : ∀ i < 0x200, vs.Vacant (t * 0x200 + i)) :
  ∃ pdt table, impReserveFixed debug vs.locked (vs.pdt t) (vs.pt t) 0 size = .ok (true, pdt, table) ∧
    Took debug vs (vs.setTable t pdt table) ⟨t * 0x200, size⟩
  := by
  have hfree : ∀ i < 0x200, (vs.pt t i).isFree = true := by
    intro i hi
    have hview := view_eq ht hi
    rw [← PTE.isFree_untagged, ← hview]
    apply (hvac i hi).1
  have hw := h t ht hb
  have hmax : getMaxSize (vs.pdt t) > 0 := by
    obtain ⟨l, hchain, hl⟩ := hw
    obtain ⟨x, hx, -⟩ := MaximalRun.exists_of_free (show 0 < 0x200 by decide) (hfree 0 (by decide))
    have hne : getMaxSize (vs.pdt t) ≠ 0 := by
      rw [Ne, hchain.getMaxSize_eq_zero_iff]
      rintro rfl
      exact absurd (hl x hx) List.not_mem_nil
    omega
  have hpresent := present_of_hasTable ht hb
  rcases impReserveFixed_eq hw hsize (show 0 + size ≤ 0x200 by omega) hlocked
      (fun _ => ⟨hpresent.1, hpresent.2, hmax⟩) (fun _ x _ heq => by omega)
    with ⟨-, i, hi, hnot⟩ | ⟨pdt, table, heq, hw', hfree', hed, hu⟩
  · rw [Run.mem_iff] at hi
    simp only at hi
    rw [hfree i (by omega)] at hnot
    cases hnot
  · have htook := took_setTable h ht hb hw' hfree' hed hu (by simp only; omega)
    simp only [Nat.add_zero] at htook
    exact ⟨pdt, table, heq, htook⟩

/-- The loop over the tables that were found. -/
theorem takeTables_eq (tables t pagecount : ℕ) (h : Orderly debug vs)
    (hlocked : debug = true → vs.locked = true)
    (hall : ∀ i, t ≤ i → i < t + tables →
      (vs.pdpt (i / 0x200)).present = true ∧ Whole (vs.pdt i))
    (hlt : tables ≠ 0 → (tables - 1) * 0x200 < pagecount) (hle : pagecount ≤ tables * 0x200) :
  ∃ vs', takeTables debug tables t pagecount (absent vs.pdt t tables) vs = .ok (0, vs') ∧
    Took debug vs vs' ⟨t * 0x200, pagecount⟩
  := by
  induction tables generalizing t pagecount vs with
  | zero =>
      obtain rfl : pagecount = 0 := by omega
      exact ⟨vs, rfl, Took.nil h _⟩
  | succ tables ih =>
      obtain ⟨hdir, hw⟩ := hall t (le_refl _) (by omega)
      have hpc : pagecount ≠ 0 := by lia
      obtain ⟨vs₁, heq₁, hs₁, hhas, hpdpt, hpdt, hvac⟩ := takePt_eq h hdir hw
        (absent vs.pdt t (tables + 1)) (by
          intro hp
          rw [absent, hp]
          simp)
      have hcount : (if (vs.pdt t).present = true then absent vs.pdt t (tables + 1)
          else absent vs.pdt t (tables + 1) - 1) = absent vs.pdt (t + 1) tables := by
        rw [absent]
        split_ifs
        · omega
        · lia
      rw [takeTables, assert_eq_ok (fun _ => hpc), assert_eq_ok (fun _ => hw.1), heq₁]
      simp only [Except.ok_bind, hcount]
      have hlocked₁ : debug = true → vs₁.locked = true := by
        rw [hs₁.locked]
        apply hlocked
      have hby : vs₁.bypassed t = false := by
        rw [hs₁.bypassed, bypassed, hw.1, Bool.and_false]
      obtain ⟨size, hsize⟩ : ∃ size, min 0x200 pagecount = size := ⟨_, rfl⟩
      obtain ⟨pdt, table, heq₂, htook⟩ := takeTable_eq hs₁.orderly hhas hby
        (show size ≠ 0 by lia) (by lia) hlocked₁ hvac
      rw [hsize, heq₂]
      simp only [Except.ok_bind]
      rw [if_neg (by simp)]
      have hpdt₂ : ∀ i, t + 1 ≤ i → (vs₁.setTable t pdt table).pdt i = vs.pdt i := by
        intro i hi
        simp only [setTable]
        rw [Function.update_of_ne (by lia), hpdt i (by lia)]
      have hall₂ : ∀ i, t + 1 ≤ i → i < t + 1 + tables →
          ((vs₁.setTable t pdt table).pdpt (i / 0x200)).present = true ∧
          Whole ((vs₁.setTable t pdt table).pdt i) := by
        intro i hi hi'
        have hpd : (vs₁.setTable t pdt table).pdpt = vs.pdpt := hpdpt
        rw [hpdt₂ i hi, hpd]
        apply hall i (by lia) (by lia)
      obtain ⟨vs₃, heq₃, htook₃⟩ := ih (t + 1) (pagecount - size) htook.orderly hlocked₁ hall₂
        (by lia) (by lia)
      rw [absent_congr (fun i hi _ => hpdt₂ i hi)] at heq₃
      refine ⟨vs₃, heq₃, hs₁.took ?_⟩
      by_cases hlast : pagecount = size
      · rw [show pagecount - size = 0 by lia] at htook₃
        have htrans := htook.trans (htook₃.move (t * 0x200 + size))
        rwa [Nat.add_zero, ← hlast] at htrans
      · have hfull : size = 0x200 := by lia
        subst hfull
        have htrans := htook.trans (m := pagecount - 0x200) (by rwa [← Nat.succ_mul])
        rwa [Nat.add_sub_cancel' (by lia)] at htrans

/-- The tables in a row that were found in a directory are taken. -/
theorem takeRow_eq (h : Orderly debug vs) (hlocked : debug = true → vs.locked = true)
    {d : ℕ} (hdir : (vs.pdpt d).present = true) {avl : Available}
    (hsound : avl.Sound (fun i => vs.pdt (d * 0x200 + i)))
    (hpages : avl.pages = (n + 0x1FF) / 0x200) :
  ∃ vs', takeTables debug avl.pages (d * 0x200 + avl.base) n avl.reserveCount vs = .ok (0, vs') ∧
    Took debug vs vs' ⟨(d * 0x200 + avl.base) * 0x200, n⟩
  := by
  have hle := hsound.le
  have hcount : avl.reserveCount = absent vs.pdt (d * 0x200 + avl.base) avl.pages := by
    rw [hsound.reserveCount]
    apply absent_shift
  rw [hcount]
  apply takeTables_eq avl.pages (d * 0x200 + avl.base) n h hlocked
  · intro i hi hi'
    rw [show i / 0x200 = d by lia]
    refine ⟨hdir, ?_⟩
    have := hsound.whole (i - d * 0x200) (by lia) (by lia)
    rwa [show d * 0x200 + (i - d * 0x200) = i by lia] at this
  · lia
  · lia

/-- The loop of `reserve_big` over the directories. -/
theorem reserveBigDirectories_searched (hn : n ≠ 0) :
    ∀ (directories d : ℕ) (vs : Vspace), Orderly debug vs → (debug = true → vs.locked = true) →
      directories + d ≤ 0x200 →
      ∃ res vs', reserveBigDirectories debug n directories d vs = .ok (res, vs') ∧
        Searched debug vs (d * 0x200) n res vs'
  | 0, d, vs, h, _, _ => ⟨0, vs, rfl, (Same.refl h).searched _ n⟩
  | directories + 1, d, vs, h, hlocked, hd => by
      rw [reserveBigDirectories]
      have hnext : d * 0x200 ≤ (d + 1) * 0x200 := Nat.mul_le_mul_right _ (Nat.le_succ d)
      obtain ⟨res, vs₁, heq₁, hs₁, hdir⟩ := enterPdt_same h (show d < 0x200 by omega)
      have hlocked₁ : debug = true → vs₁.locked = true := by
        rw [hs₁.locked]
        apply hlocked
      rw [heq₁]
      simp only [Except.ok_bind]
      cases res with
      | false =>
          rw [if_pos rfl]
          exact ⟨0, vs₁, rfl, hs₁.searched _ n⟩
      | true =>
      rw [if_neg (by simp)]
      obtain ⟨avl, havl⟩ : ∃ avl, scanDirectory (fun i => vs₁.pdt (d * 0x200 + i))
          ((n + 0x1FF) / 0x200) 0x200 0 {} = avl := ⟨_, rfl⟩
      have hsound : avl.Sound (fun i => vs₁.pdt (d * 0x200 + i)) := by
        rw [← havl]
        apply scanDirectory_sound _ _ 0x200 0 {} (by omega) rfl
        exact ⟨by simp only; omega, rfl, by simp only; omega⟩
      rw [havl]
      by_cases hpages : avl.pages = (n + 0x1FF) / 0x200
      · rw [if_pos hpages, assert_eq_ok (fun _ => hsound.le)]
        simp only [Except.ok_bind]
        have hs₂ : Same debug vs { vs₁ with pm := (vs₁.pm.reserve avl.reserveCount).2 } :=
          hs₁.trans (same_reserve hs₁.orderly avl.reserveCount)
        by_cases hres : (vs₁.pm.reserve avl.reserveCount).1 = false
        · rw [if_pos hres]
          obtain ⟨res, vs₃, heq₃, hsearch⟩ := reserveBigDirectories_searched hn directories (d + 1)
            _ hs₂.orderly hlocked₁ (by omega)
          exact ⟨res, vs₃, heq₃, hs₂.search hsearch hnext⟩
        · rw [if_neg hres]
          have hle := hsound.le
          obtain ⟨vs₃, heq₃, htook⟩ := takeRow_eq hs₂.orderly hlocked₁ (hdir rfl) hsound hpages
          rw [heq₃]
          simp only [Except.ok_bind]
          rw [assert_eq_ok (fun _ => trivial)]
          obtain ⟨addr, haddr⟩ : ∃ addr, (d * 0x40000000 + avl.base * 0x200000) % 2 ^ 32 = addr :=
            ⟨_, rfl⟩
          have htable : d * 0x40000000 + avl.base * 0x200000
              = (d * 0x200 + avl.base) * 0x200000 := by lia
          have hbase : addr = (d * 0x200 + avl.base) % 0x800 * 0x200000 + 0 * 0x1000 := by
            rw [← haddr, ← mod_base, htable, Nat.zero_mul, Nat.add_zero]
          rw [haddr, hbase]
          rw [← Nat.add_zero ((d * 0x200 + avl.base) * 0x200)] at htook
          have hsearch := htook.searched (show d * 0x200 ≤ d * 0x200 + avl.base by lia) (by lia)
          exact ⟨_, vs₃, rfl, hs₂.search hsearch (le_refl _)⟩
      · rw [if_neg hpages]
        obtain ⟨res, vs₂, heq₂, hsearch⟩ := reserveBigDirectories_searched hn directories (d + 1)
          vs₁ hs₁.orderly hlocked₁ (by omega)
        exact ⟨res, vs₂, heq₂, hs₁.search hsearch hnext⟩

/-- The loop of `reserve_big` keeps a space in order. -/
theorem reserveBigDirectories_eq (hn : n ≠ 0) (directories d : ℕ) (vs : Vspace)
    (h : Inv debug vs) (hlocked : debug = true → vs.locked = true) (hle : directories + d ≤ 0x200) :
  ∃ res vs', reserveBigDirectories debug n directories d vs = .ok (res, vs') ∧
    Kept debug vs vs' ∧ Placed n res
  := by
  obtain ⟨res, vs', heq, hsearch⟩ := reserveBigDirectories_searched hn directories d vs h.orderly
    hlocked hle
  exact ⟨res, vs', heq, hsearch.kept h, hsearch.placed⟩

end Vspace

end UOS
