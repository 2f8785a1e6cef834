import Cofuos.Process.HandleTable

/-!
# When handles run out

`handle_table::put` searches for an empty slot from the first handle that is not reserved. Where
more than three quarters of the slots below `top` are in use, it searches from `top` on instead.
There are no slots from `top` on when the last slot of the table is in use, and so handles run out
although slots are empty.
-/

namespace UOS

namespace HandleTable

variable {ω : Type} {t t' : HandleTable ω} {index n : ℕ} {obj : ω}

/-- All slots that are not reserved hold an object. -/
def Full (t : HandleTable ω) : Prop :=
  ∀ i, avlBase ≤ i → i < limit → (t.slot i).isSome = true

/-- The slots are in use up to the end of the table, and more than three quarters of them, but one
of them is empty. -/
def Crowded (t : HandleTable ω) : Prop :=
  limit ≤ t.top ∧ t.top * 3 < t.count * 4 ∧ ¬ t.Full

/-! ### Where an object is put -/

/-- If there is memory for pages, `put` takes the first empty slot from where it searches. -/
theorem putFrom_room (t : HandleTable ω) (obj : ω) (hn : index + n = limit) :
  (t.putFrom true obj n index = some (0, t) ∧
    ∀ i, index ≤ i → i < limit → (t.slot i).isSome = true) ∨
  ∃ h pg, t.putFrom true obj n index = some (h, t.occupy pg h obj) ∧ index ≤ h ∧ h < limit ∧
    t.slot h = none ∧ t.Content h pg ∧ ∀ i, index ≤ i → i < h → (t.slot i).isSome = true
  := by
  induction n generalizing index with
  | zero =>
      left
      refine ⟨rfl, ?_⟩
      intro i hle hlt
      omega
  | succ n ih =>
      have hindex : index < limit := by omega
      rw [putFrom, page_eq hindex]
      cases hpage : t.table (index / handleOfPage) with
      | none =>
          right
          refine ⟨index, zeroPage, rfl, le_rfl, hindex, slot_of_none hpage, content_of_none hpage,
            ?_⟩
          intro i hle hlt
          lia
      | some pg =>
          dsimp only
          by_cases hslot : (pg (index % handleOfPage)).isSome = true
          · -- the slot is taken
            rw [if_pos hslot]
            have hfirst : ∀ {i}, index ≤ i → ¬ index + 1 ≤ i → (t.slot i).isSome = true := by
              intro i hle hgt
              obtain rfl : i = index := by lia
              rw [slot_of_some hpage, hslot]
            rcases ih (show index + 1 + n = limit by omega) with
              ⟨heq, hall⟩ | ⟨h, pg', heq, hle, hlt, hempty, hpg, hbefore⟩
            · left
              refine ⟨heq, ?_⟩
              intro i hi hlt
              by_cases hnext : index + 1 ≤ i
              · exact hall i hnext hlt
              · exact hfirst hi hnext
            · right
              refine ⟨h, pg', heq, by lia, hlt, hempty, hpg, ?_⟩
              intro i hi hlt'
              by_cases hnext : index + 1 ≤ i
              · exact hbefore i hnext hlt'
              · exact hfirst hi hnext
          · rw [if_neg hslot]
            right
            refine ⟨index, pg, rfl, le_rfl, hindex, ?_, content_of_some hpage, ?_⟩
            · rw [slot_of_some hpage]
              exact Option.not_isSome_iff_eq_none.1 hslot
            · intro i hle hlt
              omega

/-- `put` fails exactly if all slots from where it searches hold an object. -/
theorem put_eq_zero_iff (t : HandleTable ω) (obj : ω) :
  (∃ t', t.put true obj = some (0, t')) ↔
    ∀ i, t.putIndex ≤ i → i < limit → (t.slot i).isSome = true
  := by
  rw [put]
  by_cases hindex : t.putIndex ≤ limit
  · rcases putFrom_room t obj (Nat.add_sub_cancel' hindex) with
      ⟨heq, hall⟩ | ⟨h, pg, heq, hle, hlt, hempty, -, -⟩
    · rw [heq]
      exact iff_of_true ⟨t, rfl⟩ hall
    · rw [heq]
      apply iff_of_false
      · rintro ⟨t', heq'⟩
        have hbase := avlBase_le_putIndex.trans hle
        cases heq'
        exact absurd hbase (by decide)
      · intro hall
        have hsome := hall h hle hlt
        rw [hempty] at hsome
        cases hsome
  · rw [Nat.sub_eq_zero_of_le (Nat.le_of_not_le hindex)]
    apply iff_of_true ⟨t, rfl⟩
    intro i hle hlt
    omega

/-- Handles run out when they are used up, or when the table is crowded. -/
theorem Valid.put_eq_zero_iff (h : t.Valid) (obj : ω) :
  (∃ t', t.put true obj = some (0, t')) ↔ t.Full ∨ t.Crowded
  := by
  rw [HandleTable.put_eq_zero_iff, putIndex]
  by_cases hdense : t.top * 3 < t.count * 4
  · rw [if_pos hdense]
    constructor
    · intro hall
      by_cases hfull : t.Full
      · exact .inl hfull
      · right
        refine ⟨?_, hdense, hfull⟩
        by_contra htop
        -- the slot at the index is empty
        have hlt : max avlBase t.top < limit := max_lt (by decide) (Nat.lt_of_not_le htop)
        have hsome := hall _ le_rfl hlt
        rw [h.above _ (by rw [max_comm]) hlt] at hsome
        cases hsome
    · rintro (hfull | ⟨htop, -, -⟩)
      · intro i hle hlt
        exact hfull i ((le_max_left _ _).trans hle) hlt
      · intro i hle hlt
        have := (le_max_right _ _).trans hle
        omega
  · rw [if_neg hdense]
    constructor
    · intro hall
      exact .inl hall
    · rintro (hfull | ⟨-, hdense', -⟩)
      · exact hfull
      · exact absurd hdense' hdense

/-! ### Runs -/

/-- The search for a new `top` below the first handle leaves the table. -/
theorem scan_wrapped (t : HandleTable ω) : t.scan ((0 + 2 ^ 32 - 1) % 2 ^ 32) = none := by
  have hout : t.page (2 ^ 32 - 1) = none := by
    rw [page, if_neg (by decide)]
  have hsucc : (0 + 2 ^ 32 - 1) % 2 ^ 32 = 2 ^ 32 - 2 + 1 := by norm_num
  rw [hsucc, scan, if_pos (by decide)]
  have hlast : 2 ^ 32 - 2 + 1 = 2 ^ 32 - 1 := by norm_num
  rw [hlast, hout]

/-- Closing the first handle, if it is possible. -/
theorem Valid.vacate_zero {pg : HandlePage ω} (h : t.Valid) (hpg : t.Content 0 pg)
    (hslot : t.slot 0 = some obj) (hvacate : t.vacate pg 0 = some t') :
  t'.Valid
  := by
  have hlt : 0 < limit := by decide
  have hcount := hpg.occupied_store hlt none
  have hslots := hpg.slot_store none
  have hpos : t.count ≠ 0 := Valid.count_pos h.count hlt (by rw [hslot]; rfl)
  rw [hslot] at hcount
  rw [HandleTable.vacate, if_neg hpos] at hvacate
  dsimp only at hvacate
  rw [scan_wrapped, Option.map_none] at hvacate
  split_ifs at hvacate with htop
  cases hvacate
  constructor
  · change t.count - 1 = (t.store pg 0 none).occupied
    rw [h.count]
    simp only [Option.isSome_some, Bool.toNat_true, Option.isSome_none, Bool.toNat_false] at hcount
    omega
  · intro i hle hlti
    change (t.store pg 0 none).slot i = none
    rw [hslots]
    split_ifs
    · rfl
    · exact h.above i hle hlti

/-- An operation keeps the invariant, if it is possible. -/
theorem Valid.step (h : t.Valid) {a : Action ω} (hstep : (machine ω).step t a = some t') :
  t'.Valid
  := by
  change (t.exec a).map Prod.snd = some t' at hstep
  by_cases hallowed : t.Allowed a
  · obtain ⟨r, t'', heq, -, hvalid⟩ := h.exec hallowed
    rw [heq] at hstep
    cases hstep
    exact hvalid
  cases a with
  | put room obj => exact absurd trivial hallowed
  | clear => exact absurd trivial hallowed
  | assign room i ptr =>
      have hle : avlBase ≤ i := Nat.le_of_not_lt hallowed
      cases ptr with
      | none =>
          cases hstep
          exact h
      | some obj =>
          rw [HandleTable.exec, HandleTable.assign, if_pos hle] at hstep
          cases hstep
          exact h
  | close i =>
      obtain rfl : i = 0 := Nat.lt_one_iff.1 (Nat.lt_of_not_le hallowed)
      rw [HandleTable.exec, HandleTable.close, if_neg (by decide), page_eq (by decide)] at hstep
      cases hpage : t.table (0 / handleOfPage) with
      | none =>
          rw [hpage] at hstep
          cases hstep
          exact h
      | some pg =>
          rw [hpage] at hstep
          dsimp only at hstep
          cases hslot : pg (0 % handleOfPage) with
          | none =>
              rw [hslot] at hstep
              cases hstep
              exact h
          | some obj =>
              rw [hslot] at hstep
              dsimp only at hstep
              rw [Option.map_map, Option.map_map, Option.map_eq_some_iff] at hstep
              obtain ⟨s, hvacate, rfl⟩ := hstep
              exact h.vacate_zero (content_of_some hpage) ((slot_of_some hpage).trans hslot) hvacate

/-- In every run handles run out when they are used up, or when the table is crowded. -/
theorem full_of_put_iff (h : (machine ω).Reachable Machine.anyStep t) (obj : ω) :
  (∀ t', t.put true obj = some (0, t') → t.Full) ↔ ¬ t.Crowded
  := by
  have hvalid : t.Valid := by
    apply h.invariant
    · rintro t rfl
      exact valid_empty
    · intro t a t' hvalid _ hstep
      exact hvalid.step hstep
  constructor
  · intro hall hcrowded
    obtain ⟨t', heq⟩ := (hvalid.put_eq_zero_iff obj).2 (.inr hcrowded)
    exact hcrowded.2.2 (hall t' heq)
  · intro hnot t' heq
    rcases (hvalid.put_eq_zero_iff obj).1 ⟨t', heq⟩ with hfull | hcrowded
    · exact hfull
    · exact absurd hcrowded hnot

/-- A table with one object, from which another one has been taken: the next object gets the handle
that is free. -/
theorem full_of_put_reused :
  ∃ t : HandleTable ℕ, (machine ℕ).exec {} [.put true 7, .put true 8, .close 4] = some t ∧
    (t.put true 9).map Prod.fst = some 4 ∧ ∀ t', t.put true 9 = some (0, t') → t.Full
  := by
  obtain ⟨t, ht, htop, hput⟩ : ∃ t : HandleTable ℕ,
      (machine ℕ).exec {} [.put true 7, .put true 8, .close 4] = some t ∧ t.top = 6 ∧
      (t.put true 9).map Prod.fst = some 4 :=
    ⟨_, rfl, rfl, rfl⟩
  have hreach : (machine ℕ).Reachable Machine.anyStep t :=
    (Machine.Reachable.start rfl).exec ht fun _ _ _ => trivial
  refine ⟨t, ht, hput, (full_of_put_iff hreach 9).2 ?_⟩
  rintro ⟨hlimit, -, -⟩
  rw [htop] at hlimit
  exact absurd hlimit (by decide)
/-! ### A crowded table -/

/-- So many objects have been put into a table, and no handle has been closed. -/
structure Filled (n : ℕ) (t : HandleTable ω) : Prop where
  valid : t.Valid
  count : t.count = n
  top : max t.top avlBase = avlBase + n
  below : ∀ i, avlBase ≤ i → i < avlBase + n → (t.slot i).isSome = true

/-- One more object is put after the others. -/
theorem Filled.put (h : t.Filled n) (hn : avlBase + n < limit) (obj : ω) :
  ∃ t', t.put true obj = some (avlBase + n, t') ∧ t'.Filled (n + 1)
  := by
  have habove : ∀ {i}, avlBase + n ≤ i → i < limit → t.slot i = none := by
    intro i hle hlt
    apply h.valid.above i _ hlt
    rw [h.top]
    exact hle
  have hindex : t.putIndex ≤ avlBase + n := by
    rw [putIndex]
    split_ifs
    · rw [max_comm, h.top]
    · exact Nat.le_add_right _ _
  have hput : t.put true obj = t.putFrom true obj (limit - t.putIndex) t.putIndex := rfl
  rcases putFrom_room t obj (Nat.add_sub_cancel' (hindex.trans hn.le)) with
    ⟨-, hall⟩ | ⟨i, pg, heq, hle, hlt, hempty, hpg, hbefore⟩
  · have hsome := hall _ hindex hn
    rw [habove le_rfl hn] at hsome
    cases hsome
  -- the first empty slot is that after the others
  have hi : i = avlBase + n := by
    rcases Nat.lt_trichotomy i (avlBase + n) with hlt' | heq' | hgt
    · have hsome := h.below i (avlBase_le_putIndex.trans hle) hlt'
      rw [hempty] at hsome
      cases hsome
    · exact heq'
    · have hsome := hbefore _ hindex hgt
      rw [habove le_rfl hn] at hsome
      cases hsome
  rw [hi] at heq hpg hempty
  have hvalid : (t.occupy pg (avlBase + n) obj).Valid := by
    rcases h.valid.put true obj with hzero | ⟨j, t', heq', hvalid, -⟩
    · rw [hput, heq] at hzero
      have hnil := (Prod.mk.inj (Option.some.inj hzero)).1
      exact absurd hnil (by rw [avlBase]; omega)
    · rw [hput, heq] at heq'
      cases heq'
      exact hvalid
  refine ⟨_, hput.trans heq, hvalid, ?_, ?_, ?_⟩
  · change t.count + 1 = n + 1
    rw [h.count]
  · have htop := h.top
    change max (max t.top (avlBase + n + 1)) avlBase = avlBase + (n + 1)
    lia
  · intro j hle hlt'
    have hslots := hpg.slot_store (some obj) j
    change ((t.store pg (avlBase + n) (some obj)).slot j).isSome = true
    rw [hslots]
    split_ifs with hj
    · rfl
    · exact h.below j hle (by lia)

theorem filled_empty : Filled 0 ({} : HandleTable ω) := by
  refine ⟨valid_empty, rfl, rfl, ?_⟩
  intro i hle hlt
  omega

/-- Objects are put until no slot is left. -/
theorem exists_filled (obj : ω) (hn : avlBase + n ≤ limit) :
  ∃ t, (machine ω).Reachable Machine.anyStep t ∧ t.Filled n
  := by
  induction n with
  | zero => exact ⟨{}, .start rfl, filled_empty⟩
  | succ n ih =>
      obtain ⟨t, ht, hfilled⟩ := ih (by omega)
      obtain ⟨t', hput, hfilled'⟩ := hfilled.put (by omega) obj
      refine ⟨t', ht.step (.put true obj) trivial ?_, hfilled'⟩
      change (t.exec (.put true obj)).map Prod.snd = some t'
      rw [exec, hput]
      rfl

/-- Closing a handle that is not the last one does not change `top`. -/
theorem close_below {v : Option ω} (hclose : t.close index = some (true, v, t'))
    (htop : index + 1 < t.top) :
  t'.top = t.top ∧ t'.count = t.count - 1
  := by
  rw [close] at hclose
  by_cases hlimit : limit ≤ index
  · rw [if_pos hlimit] at hclose
    cases hclose
  rw [if_neg hlimit, page_eq (Nat.lt_of_not_le hlimit)] at hclose
  cases hpage : t.table (index / handleOfPage) with
  | none =>
      rw [hpage] at hclose
      cases hclose
  | some pg =>
      rw [hpage] at hclose
      dsimp only at hclose
      cases hslot : pg (index % handleOfPage) with
      | none =>
          rw [hslot] at hclose
          cases hclose
      | some obj =>
          rw [hslot] at hclose
          dsimp only at hclose
          obtain ⟨s, hvacate, heq⟩ := Option.map_eq_some_iff.1 hclose
          cases heq
          rw [vacate] at hvacate
          split_ifs at hvacate with hzero hlast
          · omega
          · cases hvacate
            exact ⟨rfl, rfl⟩

/-- All handles are put, and the first of them is closed. Then no object is put, although the slot
is empty. -/
theorem closed_of_filled :
  ∃ t : HandleTable ℕ, (machine ℕ).Reachable Machine.anyStep t ∧ t.put true 7 = some (0, t) ∧
    t.slot 4 = none
  := by
  obtain ⟨s, hs, hfilled⟩ := exists_filled (n := limit - avlBase) 7 (by decide)
  obtain ⟨t, hclose, hvalid, hslots⟩ := hfilled.valid.close (show 1 ≤ 4 by decide)
  have hslot : t.slot 4 = none := by
    rw [hslots, if_pos (by decide)]
  have hsome : (s.slot 4).isSome = true := hfilled.below 4 (by decide) (by decide)
  have hlast : s.top = limit := by
    have htop := hfilled.top
    rw [avlBase, limit] at htop
    rw [limit]
    omega
  rw [if_pos (by decide), hsome] at hclose
  obtain ⟨htop, hcount⟩ := close_below hclose (by rw [hlast]; decide)
  refine ⟨t, ?_, ?_, hslot⟩
  · apply hs.step (.close 4) trivial
    change (s.exec (.close 4)).map Prod.snd = some t
    rw [exec, hclose]
    rfl
  · have hindex : t.putIndex = limit := by
      rw [putIndex, htop, hcount, hlast, hfilled.count]
      decide
    rw [put, hindex]
    rfl

end HandleTable

end UOS
