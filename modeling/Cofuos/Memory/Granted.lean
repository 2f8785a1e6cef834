import Cofuos.Memory.SpaceReserve

/-!
# Reservations that are granted their tables

A reservation allocates a frame for each directory and each table that it finds missing.
`Granted` says that the physical memory manager refuses none of these. A reservation that is
granted its directories and tables can fail only at a page that is not vacant.
-/

namespace UOS

open Fault

namespace Vspace

variable {debug res : Bool} {vs vs' : Vspace} {a b i t : ℕ}

/-- The number of directories and tables that the tables from `a` to `b` lack. -/
def missing (vs : Vspace) (a b : ℕ) : ℕ :=
  ((Finset.Icc (a / 0x200) (b / 0x200)).filter fun d => (vs.pdpt d).present = false).card +
    ((Finset.Icc a b).filter fun t => vs.hasTable t = false).card

/-- The physical memory manager does not refuse the directories and tables that are missing. -/
def Granted (vs : Vspace) (a b : ℕ) : Prop :=
  ∀ i < vs.missing a b, vs.pm.answers (vs.pm.calls + i) ≠ 0

/-- A directory or a table is entered. If it is absent, a frame is asked for, and the answer
decides the result `res`. -/
structure Asked (pm pm' : FramePool) (absent res : Bool) : Prop where
  answers : pm'.answers = pm.answers
  calls : pm'.calls = pm.calls + absent.toNat
  res_iff : res = true ↔ (absent = true → pm.answers pm.calls ≠ 0)
  refusals : res = true → pm'.refusals = pm.refusals

theorem Asked.present (pm : FramePool) : Asked pm pm false true :=
  ⟨rfl, rfl, by simp, fun _ => rfl⟩

theorem Asked.allocate (pm : FramePool) (hres : res = true ↔ (pm.allocate .NONE).1 ≠ 0) :
  Asked pm (pm.allocate .NONE).2 true res
  := by
  rw [FramePool.allocate] at hres ⊢
  by_cases hanswer : pm.answer = 0
  · rw [if_pos ⟨rfl, hanswer⟩] at hres ⊢
    refine ⟨rfl, rfl, ?_, fun hyes => absurd rfl (hres.mp hyes)⟩
    rw [hres]
    exact ⟨fun hne => absurd rfl hne, fun hne => absurd hanswer (hne rfl)⟩
  · rw [if_neg fun hand => hanswer hand.2] at hres ⊢
    refine ⟨rfl, rfl, ?_, fun _ => rfl⟩
    rw [hres]
    exact ⟨fun _ _ => hanswer, fun _ => pm.next_spec.2⟩

/-- What entering a directory does. -/
theorem enterPdt_asked (heq : enterPdt debug vs i = .ok (res, vs')) :
  Asked vs.pm vs'.pm (!(vs.pdpt i).present) res ∧ (res = true → (vs'.pdpt i).present = true) ∧
    (∀ d, d ≠ i → vs'.pdpt d = vs.pdpt d) ∧ ∀ t, vs'.hasTable t = vs.hasTable t
  := by
  rw [enterPdt] at heq
  by_cases hp : (vs.pdpt i).present = true
  · rw [if_pos hp] at heq
    cases heq
    rw [hp]
    exact ⟨.present vs.pm, fun _ => rfl, fun _ _ => rfl, fun _ => rfl⟩
  rw [if_neg hp] at heq
  rw [Bool.not_eq_true] at hp
  rw [newPdt, assert_eq_ok (fun _ => hp), Except.ok_bind] at heq
  rw [hp]
  dsimp only at heq
  by_cases h0 : (vs.pm.allocate .NONE).1 = 0
  · rw [if_pos h0] at heq
    cases heq
    exact ⟨.allocate vs.pm (by simp [h0]), by simp, fun _ _ => rfl, fun _ => rfl⟩
  · rw [if_neg h0] at heq
    cases heq
    refine ⟨.allocate vs.pm (by simp [h0]), ?_, ?_, ?_⟩
    · simp
    · intro d hd
      simp only [Function.update_of_ne hd]
    · intro t
      by_cases ht : t / 0x200 = i
      · simp [hasTable, ht, hp]
      · simp [hasTable, ht]

/-- What entering a table of a directory that is present does. -/
theorem enterPt_asked (hdir : (vs.pdpt (t / 0x200)).present = true)
    (heq : enterPt debug vs t = .ok (res, vs')) :
  Asked vs.pm vs'.pm (!vs.hasTable t) res ∧ vs'.pdpt = vs.pdpt ∧
    ∀ t', t' ≠ t → vs'.hasTable t' = vs.hasTable t'
  := by
  have hhas : vs.hasTable t = (vs.pdt t).present := by
    rw [hasTable, hdir, Bool.true_and]
  rw [enterPt] at heq
  rw [hhas]
  by_cases hp : (vs.pdt t).present = true
  · rw [if_pos hp] at heq
    cases heq
    rw [hp]
    exact ⟨.present vs.pm, rfl, fun _ _ => rfl⟩
  rw [if_neg hp, newPt] at heq
  rw [Bool.not_eq_true] at hp
  obtain ⟨u, -, hnew⟩ := Except.bind_eq_ok_iff.mp heq
  rw [hp]
  simp only [Bool.false_eq_true, if_false] at hnew
  by_cases h0 : (vs.pm.allocate .NONE).1 = 0
  · rw [if_pos h0] at hnew
    cases hnew
    exact ⟨.allocate vs.pm (by simp [h0]), rfl, fun _ _ => rfl⟩
  · rw [if_neg h0] at hnew
    obtain ⟨⟨pdt, table⟩, -, hmade⟩ := Except.bind_eq_ok_iff.mp hnew
    cases hmade
    refine ⟨.allocate vs.pm (by simp [h0]), rfl, ?_⟩
    intro t' ht'
    simp only [hasTable, setTable, Function.update_of_ne ht']

/-- An element that is among those of a set, and not among those of another one. -/
theorem toNat_add_card_le {α : Type} [DecidableEq α] {s s' : Finset α} {x : α} {c : Bool}
    (hsub : s' ⊆ s.erase x) (hc : c = true → x ∈ s) :
  c.toNat + s'.card ≤ s.card
  := by
  have hle := Finset.card_le_card hsub
  cases c with
  | false => simpa using hle.trans Finset.card_erase_le
  | true =>
      have hcard := Finset.card_erase_add_one (hc rfl)
      rw [Bool.toNat_true]
      lia

/-- What one table lacks. -/
theorem missing_self (vs : Vspace) (t : ℕ) :
  vs.missing t t = (!(vs.pdpt (t / 0x200)).present).toNat + (!vs.hasTable t).toNat
  := by
  rw [missing, Finset.Icc_self, Finset.Icc_self, Finset.filter_singleton, Finset.filter_singleton]
  cases (vs.pdpt (t / 0x200)).present <;> cases vs.hasTable t <;> rfl

/-- What the first table lacks is missing. -/
theorem needs_le (vs : Vspace) (hle : a ≤ b) :
  (!(vs.pdpt (a / 0x200)).present).toNat + (!vs.hasTable a).toNat ≤ vs.missing a b
  := by
  rw [← missing_self, missing, missing]
  apply Nat.add_le_add
  · apply Finset.card_le_card
    apply Finset.filter_subset_filter
    apply Finset.Icc_subset_Icc_right (by lia)
  · apply Finset.card_le_card
    apply Finset.filter_subset_filter
    apply Finset.Icc_subset_Icc_right hle

/-- When the first table has been entered, what it lacked is not missing any more. -/
theorem missing_enter (hle : a ≤ b) (hp : (vs'.pdpt (a / 0x200)).present = true)
    (hdirs : ∀ d, d ≠ a / 0x200 → vs'.pdpt d = vs.pdpt d)
    (htables : ∀ t, t ≠ a → vs'.hasTable t = vs.hasTable t) :
  (!(vs.pdpt (a / 0x200)).present).toNat + (!vs.hasTable a).toNat + vs'.missing (a + 1) b ≤
    vs.missing a b
  := by
  have hcardDirs : (!(vs.pdpt (a / 0x200)).present).toNat +
      ((Finset.Icc ((a + 1) / 0x200) (b / 0x200)).filter fun d => (vs'.pdpt d).present = false).card ≤
      ((Finset.Icc (a / 0x200) (b / 0x200)).filter fun d => (vs.pdpt d).present = false).card := by
    apply toNat_add_card_le (x := a / 0x200)
    · intro d hd
      rw [Finset.mem_filter, Finset.mem_Icc] at hd
      have hne : d ≠ a / 0x200 := by
        rintro rfl
        rw [hp] at hd
        cases hd.2
      rw [Finset.mem_erase, Finset.mem_filter, Finset.mem_Icc, ← hdirs d hne]
      exact ⟨hne, by lia, hd.2⟩
    · intro habsent
      rw [Finset.mem_filter, Finset.mem_Icc]
      exact ⟨by lia, by simpa using habsent⟩
  have hcardTables : (!vs.hasTable a).toNat +
      ((Finset.Icc (a + 1) b).filter fun t => vs'.hasTable t = false).card ≤
      ((Finset.Icc a b).filter fun t => vs.hasTable t = false).card := by
    apply toNat_add_card_le (x := a)
    · intro t ht
      rw [Finset.mem_filter, Finset.mem_Icc] at ht
      have hne : t ≠ a := by lia
      rw [Finset.mem_erase, Finset.mem_filter, Finset.mem_Icc, ← htables t hne]
      exact ⟨hne, by lia, ht.2⟩
    · intro habsent
      rw [Finset.mem_filter, Finset.mem_Icc]
      exact ⟨by lia, by simpa using habsent⟩
  rw [missing, missing]
  lia

/-- A reservation that is granted its directories and tables is refused nothing. -/
theorem reserveTables_granted (pageCount : ℕ) :
    ∀ (tables t q count m n : ℕ) (vs vs' : Vspace),
      reserveTables debug pageCount tables t (q * 0x1000) count vs = .ok (n, vs') →
      count + m = pageCount → (m ≠ 0 → t = q / 0x200 ∧ vs.Granted t ((q + m - 1) / 0x200)) →
      vs'.pm.refusals = vs.pm.refusals
  | 0, _, _, _, _, _, _, _, heq, _, _ => by
      cases heq
      rfl
  | tables + 1, t, q, count, m, n, vs, vs', heq, hcount, hgranted => by
      rw [reserveTables] at heq
      by_cases hm : m = 0
      · rw [if_neg (by lia)] at heq
        cases heq
        rfl
      rw [if_pos (by lia)] at heq
      obtain ⟨rfl, hgranted⟩ := hgranted hm
      obtain ⟨b, hb⟩ : ∃ b, b = (q + m - 1) / 0x200 := ⟨_, rfl⟩
      rw [← hb] at hgranted
      have hle : q / 0x200 ≤ b := by lia
      -- the directory
      obtain ⟨⟨res₁, vs₁⟩, heq₁, hrest₁⟩ := Except.bind_eq_ok_iff.mp heq
      obtain ⟨hasked₁, hp₁, hdirs₁, htables₁⟩ := enterPdt_asked heq₁
      have hneeds := needs_le vs hle
      have hres₁ : res₁ = true := by
        rw [hasked₁.res_iff]
        intro habsent
        apply hgranted 0
        rw [habsent, Bool.toNat_true] at hneeds
        lia
      subst hres₁
      dsimp only at hrest₁
      rw [if_neg (by simp)] at hrest₁
      by_cases hby : (vs₁.pdt (q / 0x200)).bypass = true
      · rw [if_pos hby] at hrest₁
        cases hrest₁
        exact hasked₁.refusals rfl
      rw [if_neg hby] at hrest₁
      -- the table
      obtain ⟨⟨res₂, vs₂⟩, heq₂, hrest₂⟩ := Except.bind_eq_ok_iff.mp hrest₁
      obtain ⟨hasked₂, hdirs₂, htables₂⟩ := enterPt_asked (hp₁ rfl) heq₂
      rw [htables₁] at hasked₂
      have hres₂ : res₂ = true := by
        rw [hasked₂.res_iff, hasked₁.answers, hasked₁.calls]
        intro habsent
        apply hgranted
        rw [habsent, Bool.toNat_true] at hneeds
        lia
      subst hres₂
      have hrefusals : vs₂.pm.refusals = vs.pm.refusals := by
        rw [hasked₂.refusals rfl, hasked₁.refusals rfl]
      dsimp only at hrest₂
      rw [if_neg (by simp)] at hrest₂
      obtain ⟨⟨res₃, pdt, table⟩, -, hrest₃⟩ := Except.bind_eq_ok_iff.mp hrest₂
      cases res₃ with
      | false =>
          cases hrest₃
          exact hrefusals
      | true =>
      obtain ⟨size, hsize⟩ :
          ∃ size, size = min (pageCount - count) (0x200 - q * 0x1000 / 0x1000 % 0x200) := ⟨_, rfl⟩
      simp only [Bool.true_eq_false, if_false, ← hsize] at hrest₃
      rw [show q * 0x1000 + 0x1000 * size = (q + size) * 0x1000 by ring] at hrest₃
      rw [← hrefusals]
      apply reserveTables_granted pageCount tables _ (q + size) _ (m - size) n _ vs' hrest₃ (by lia)
      intro hmore
      refine ⟨by lia, ?_⟩
      rw [show (q + size + (m - size) - 1) / 0x200 = b by lia]
      have hmissing := @missing_enter vs (vs₂.setTable (q / 0x200) pdt table) (q / 0x200) b hle
        (by simp only [setTable]; rw [hdirs₂]; exact hp₁ rfl)
        (by intro d hd; simp only [setTable]; rw [hdirs₂]; exact hdirs₁ d hd)
        (by
          intro t ht
          rw [← htables₁, ← htables₂ t ht]
          simp only [hasTable, setTable, Function.update_of_ne ht])
      intro i hi
      simp only [setTable]
      rw [hasked₂.answers, hasked₁.answers, hasked₂.calls, hasked₁.calls]
      rw [Nat.add_assoc, Nat.add_assoc]
      apply hgranted
      lia

/-- Two questions of which each is asked or not. -/
theorem answered {answers : ℕ → ℕ} {c : ℕ} {a b : Bool} (ha : a = true → answers c ≠ 0)
    (hb : b = true → answers (c + a.toNat) ≠ 0) :
  ∀ i < a.toNat + b.toNat, answers (c + i) ≠ 0
  := by
  intro i hi
  by_cases hlt : i < a.toNat
  · have hi0 : i = 0 := by
      have := a.toNat_le
      lia
    subst hi0
    apply ha
    cases a with
    | false => cases hlt
    | true => rfl
  · have hia : i = a.toNat := by
      have := b.toNat_le
      lia
    subst hia
    apply hb
    cases b with
    | false =>
        rw [Bool.toNat_false] at hi
        lia
    | true => rfl

/-- A reservation that comes to its second table has been granted the first one. -/
theorem granted_of_reserveTables {pageCount tables q count n : ℕ}
    (heq : reserveTables debug pageCount tables t (q * 0x1000) count vs = .ok (n, vs')) (hne : n ≠ count) :
  vs.Granted t t
  := by
  cases tables with
  | zero =>
      cases heq
      exact absurd rfl hne
  | succ tables =>
      rw [reserveTables] at heq
      by_cases hlt : count < pageCount
      · rw [if_pos hlt] at heq
        obtain ⟨⟨res₁, vs₁⟩, heq₁, hrest₁⟩ := Except.bind_eq_ok_iff.mp heq
        obtain ⟨hasked₁, hp₁, -, htables₁⟩ := enterPdt_asked heq₁
        cases res₁ with
        | false =>
            cases hrest₁
            exact absurd rfl hne
        | true =>
        dsimp only at hrest₁
        rw [if_neg (by simp)] at hrest₁
        by_cases hby : (vs₁.pdt t).bypass = true
        · rw [if_pos hby] at hrest₁
          cases hrest₁
          exact absurd rfl hne
        rw [if_neg hby] at hrest₁
        obtain ⟨⟨res₂, vs₂⟩, heq₂, hrest₂⟩ := Except.bind_eq_ok_iff.mp hrest₁
        obtain ⟨hasked₂, -, -⟩ := enterPt_asked (hp₁ rfl) heq₂
        cases res₂ with
        | false =>
            cases hrest₂
            exact absurd rfl hne
        | true =>
        have hfirst := hasked₁.res_iff.mp rfl
        have hsecond := hasked₂.res_iff.mp rfl
        rw [hasked₁.answers, hasked₁.calls, htables₁] at hsecond
        intro i hi
        rw [missing_self] at hi
        exact answered hfirst hsecond i hi
      · rw [if_neg hlt] at heq
        cases heq
        exact absurd rfl hne

end Vspace

end UOS
