import Cofuos.Memory.Addresses

/-!
# Room above 4 GB

A search that finds no room below 4 GB goes on above. Where it finds room, pages are reserved, even
if the address that is returned is not theirs or is `0`. Where it finds none anywhere, the pages
are as they were.
-/

namespace UOS

open Fault

namespace Vspace

variable {debug : Bool} {vs vs' : Vspace} {n t d c res : ℕ} {l : Look}

/-- Looks for room anywhere. -/
def lookWhole (vs : Vspace) (n : ℕ) : Look :=
  if n < 0x200 then vs.lookAny n 0x40000 0 vs.pm.calls else vs.lookBig n 0x200 0 vs.pm.calls

/-- A search for pages of the space `vs` has reserved a page if there has been room, and nothing
otherwise. -/
def Found (debug : Bool) (vs : Vspace) (l : Look) (out : Except Fault (ℕ × Vspace)) : Prop :=
  ∃ res vs₁, out = .ok (res, vs₁) ∧
    (l = .room → ∃ p, vs.Vacant p ∧ (vs₁.entry p).isFree = false) ∧
    (l ≠ .room → res = 0 ∧ Same debug vs vs₁)

/-- A search that has failed. -/
theorem found_of_same {vs₁ : Vspace} (h : Same debug vs vs₁) (hl : l ≠ .room) :
  Found debug vs l (.ok (0, vs₁))
  := ⟨0, vs₁, rfl, fun hroom => absurd hroom hl, fun _ => ⟨rfl, h⟩⟩

/-- The first of the pages that have been taken. -/
theorem Took.first {q : ℕ} (h : Took debug vs vs' ⟨q, n⟩) (hn : n ≠ 0) :
  vs.Vacant q ∧ (vs'.entry q).isFree = false
  := by
  have hmem : q ∈ Run.mk q n := by
    rw [Run.mem_iff]
    simp only
    lia
  refine ⟨h.vacant q hmem, ?_⟩
  rw [h.entry, if_pos hmem, PTE.isFree_reserved]

/-- `reserve_any` finds pages where there is room. -/
theorem reserveAnyTables_found (hn : n ≠ 0) (hle : n ≤ 0x200)
    (hlocked : debug = true → vs.locked = true) :
    ∀ (tables t : ℕ) (vs' : Vspace) (c : ℕ), Passed debug vs t vs' c → tables + t ≤ 0x40000 →
      Found debug vs (vs.lookAny n tables t c) (reserveAnyTables debug n tables t vs')
  | 0, t, vs', c, h, _ => found_of_same h.same (by simp [lookAny])
  | tables + 1, t, vs', c, h, hlt => by
      rw [lookAny]
      obtain ⟨l, hl⟩ : ∃ l, (if t % 0x200 = 0 then vs.lookDirectory (t / 0x200) c else .on c) = l :=
        ⟨_, rfl⟩
      rw [hl]
      rcases enterPdt_looked h (show t < 0x40000 by omega) hl.symm
        with ⟨rfl, vs₁, heq, hsame⟩ | ⟨c₁, vs₁, rfl, heq, hpassed, hp⟩
      · have hout : reserveAnyTables debug n (tables + 1) t vs' = .ok (0, vs₁) := by
          rw [reserveAnyTables, heq]
          simp only [Except.ok_bind, if_true]
          rfl
        rw [hout]
        exact found_of_same hsame (by simp [Look.andThen])
      · rw [Look.andThen]
        rcases reserveAnyTables_looked hpassed hp hlocked hn hle heq tables
          with ⟨index, vs₂, hlook, hend, htook, hsearch⟩ | ⟨c₂, vs₂, hlook, hpassed₂, hsearch⟩
        · rw [hlook, hsearch]
          obtain ⟨hvacant, hreserved⟩ := htook.first hn
          by_cases haddr : t % 0x800 * 0x200000 + index * 0x1000 ≠ 0
          · rw [if_pos haddr]
            exact ⟨_, vs₂, rfl, fun _ => ⟨_, hvacant, hreserved⟩, fun hno => absurd rfl hno⟩
          · -- the page stays reserved while the search goes on
            rw [if_neg haddr]
            have hlocked₂ : debug = true → vs₂.locked = true := by
              rw [htook.locked]
              exact hlocked
            obtain ⟨res, vs₃, heq₃, hsearched⟩ := reserveAnyTables_searched hn tables (t + 1) vs₂
              htook.orderly hlocked₂ (by lia)
            refine ⟨res, vs₃, heq₃, fun _ => ⟨_, hvacant, ?_⟩, fun hno => absurd rfl hno⟩
            rw [hsearched.before _ (by lia)]
            exact hreserved
        · rw [hlook, hsearch, Look.andThen]
          exact reserveAnyTables_found hn hle hlocked tables (t + 1) vs₂ c₂ hpassed₂ (by omega)

/-- `reserve_big` finds pages where there is room. -/
theorem reserveBigDirectories_found (hn : n ≠ 0) (hlocked : debug = true → vs.locked = true)
    (directories d : ℕ) (h : Passed debug vs (d * 0x200) vs' c) (hlt : directories + d ≤ 0x200) :
  Found debug vs (vs.lookBig n directories d c) (reserveBigDirectories debug n directories d vs')
  := by
  induction directories generalizing d vs' c with
  | zero => exact found_of_same h.same (by simp [lookBig])
  | succ directories ih =>
      rw [lookBig]
      have hdiv : d * 0x200 / 0x200 = d := Nat.mul_div_cancel _ (by decide)
      have hmod : d * 0x200 % 0x200 = 0 := Nat.mul_mod_left _ _
      have hlook := enterPdt_looked h (show d * 0x200 < 0x40000 by lia) rfl
      rw [if_pos hmod, hdiv] at hlook
      rcases hlook with ⟨hl, vs₁, heq, hsame⟩ | ⟨c₁, vs₁, hl, heq, hpassed, hp⟩
      · have hout : reserveBigDirectories debug n (directories + 1) d vs' = .ok (0, vs₁) := by
          rw [reserveBigDirectories, heq]
          simp only [Except.ok_bind, if_true]
          rfl
        rw [hl, hout]
        exact found_of_same hsame (by simp [Look.andThen])
      · rw [hl, Look.andThen]
        rcases reserveBigDirectories_looked hpassed hp hlocked hn heq directories
          with ⟨base, vs₂, hlook, hend, htook, hsearch⟩ | ⟨c₂, vs₂, hlook, hpassed₂, hsearch⟩
        · rw [hlook, hsearch]
          obtain ⟨hvacant, hreserved⟩ := htook.first hn
          exact ⟨_, vs₂, rfl, fun _ => ⟨_, hvacant, hreserved⟩, fun hno => absurd rfl hno⟩
        · rw [hlook, hsearch, Look.andThen]
          exact ih (d + 1) hpassed₂ (by lia)

theorem lookWhole_lock (vs : Vspace) (locked : Bool) (n : ℕ) :
  { vs with locked := locked }.lookWhole n = vs.lookWhole n
  := by
  rw [lookWhole, lookWhole, lookAny_lock, lookBig_lock]

/-- A reservation anywhere reserves a page if there is room, and nothing otherwise. -/
theorem reserve_found (h : Orderly debug vs) (hn : n ≠ 0) (hle : n ≤ 0x40000) :
  ∃ res vs', reserve debug vs 0 n = .ok (res, vs') ∧
    (vs.lookWhole n = .room → ∃ p, vs.Vacant p ∧ (vs'.entry p).isFree = false) ∧
    (vs.lookWhole n ≠ .room → res = 0 ∧ vs'.map = vs.map)
  := by
  have h' : Orderly debug { vs with locked := true } := h
  have hfound : Found debug { vs with locked := true } (vs.lookWhole n)
      (if n < 0x200 then reserveAny debug { vs with locked := true } n
        else reserveBig debug { vs with locked := true } n) := by
    rw [← lookWhole_lock vs true, lookWhole]
    by_cases hsmall : n < 0x200
    · rw [if_pos hsmall, if_pos hsmall, reserveAny, assert_eq_ok (fun _ => rfl),
        assert_eq_ok (fun _ => by omega)]
      exact reserveAnyTables_found hn (Nat.le_of_lt hsmall) (fun _ => rfl) _ _ _ _
        (Passed.zero h') (le_refl _)
    · rw [if_neg hsmall, if_neg hsmall, reserveBig, assert_eq_ok (fun _ => rfl)]
      exact reserveBigDirectories_found hn (fun _ => rfl) _ _ (Passed.zero h') (le_refl _)
  obtain ⟨res, vs₁, heq, hroom, hno⟩ := hfound
  refine ⟨res, { vs₁ with locked := false }, ?_, hroom, ?_⟩
  · rw [reserve, if_neg (by simp), if_neg (by omega), withLock, heq]
    rfl
  · intro hl
    obtain ⟨hres, hsame⟩ := hno hl
    refine ⟨hres, ?_⟩
    funext p
    change map vs₁ p = map { vs with locked := true } p
    rw [map, map, hsame.bypassed, hsame.entry]

end Vspace

end UOS
