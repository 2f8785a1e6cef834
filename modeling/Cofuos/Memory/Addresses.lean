import Cofuos.Memory.Room
import Cofuos.Memory.Reachable

/-!
# The address of a reservation anywhere

A reservation without an address returns the address of the pages that it has reserved, as long as
it has found them below 4 GB. Beyond, the address of a table is computed in 32 bits, and the pages that
are returned are not the ones that are reserved.
-/

namespace UOS

open Fault

namespace Vspace

variable {debug : Bool} {vs vs' : Vspace} {n res : ℕ} {allowed : Vspace → Request → Prop}

/-- A reservation of `n` pages has returned the address of the pages that it has reserved. -/
structure ReservedAt (vs vs' : Vspace) (addr n : ℕ) : Prop where
  aligned : addr % 0x1000 = 0
  below : addr + n * 0x1000 ≤ 512 * 2 ^ 30
  outside : ∀ p ∈ Run.mk (addr / 0x1000) n, vs.map p ≠ .bypassed
  free : ∀ p ∈ Run.mk (addr / 0x1000) n, vs.map p = .free
  changed : ∀ p, vs.map p = .free ∧ vs'.map p = .reserved ↔ p ∈ Run.mk (addr / 0x1000) n

/-! ### The first page -/

/-- A request leaves the first page bypassed. -/
theorem Outcome.map_zero {r : Request} (h : Outcome debug vs r res vs')
    (hzero : vs.map 0 = .bypassed) :
  vs'.map 0 = .bypassed
  := by
  by_cases hres : res = 0
  · rw [(h.failure hres).1]
    exact hzero
  · obtain ⟨-, hpre, heffect⟩ := h.success hres
    have hnot : 0 ∉ r.pages := by
      intro hmem
      cases r with
      | reserve addr n =>
          have := hpre 0 hmem
          simp [hzero] at this
      | commit addr n =>
          have := hpre 0 hmem
          simp [hzero] at this
      | protect addr n attrib =>
          have := hpre 0 hmem
          simp [hzero] at this
      | release addr n =>
          have := hpre 0 hmem
          simp [hzero] at this
    cases r with
    | reserve addr n =>
        rw [heffect 0, if_neg hnot]
        exact hzero
    | commit addr n =>
        rw [heffect.1 0 hnot]
        exact hzero
    | protect addr n attrib =>
        rw [heffect.1 0 hnot]
        exact hzero
    | release addr n =>
        rw [heffect 0, if_neg hnot]
        exact hzero

/-- A search for pages, with the lock taken and given back. -/
theorem reserve_looked (h : Orderly debug vs) (hzero : ¬ vs.Vacant 0) (hn : n ≠ 0)
    (hle : n ≤ 0x40000) :
  ∃ res vs', reserve debug vs 0 n = .ok (res, vs') ∧ Placed n res ∧
    vs'.bypassed = vs.bypassed ∧
    (vs.lookBelow n = .room → res ≠ 0 ∧ (∀ p ∈ Run.mk (res / 0x1000) n, vs.Vacant p) ∧
      ∀ p, vs'.entry p =
        if p ∈ Run.mk (res / 0x1000) n then (vs.entry p).reserved else vs.entry p) ∧
    (vs.lookBelow n ≠ .room → ∀ p < 0x100000, vs'.entry p = vs.entry p)
  := by
  have h' : Orderly debug { vs with locked := true } := h
  obtain ⟨res, vs₁, heq, hplaced, -, hby, hroom, hno⟩ := reserveSearch_looked h' rfl hzero hn
  rw [lookBelow_lock] at hroom hno
  refine ⟨res, { vs₁ with locked := false }, ?_, hplaced, hby, ?_, hno⟩
  · have haccepted : ¬ (n = 0 ∨ n > 0x40000) := by
      rw [not_or, not_lt]
      exact ⟨hn, hle⟩
    rw [reserve, if_neg (by simp), if_neg haccepted, withLock]
    rw [reserveSearch] at heq
    rw [heq]
    rfl
  · intro hlook
    obtain ⟨hne, htook⟩ := hroom hlook
    exact ⟨hne, htook.vacant, htook.entry⟩

/-- A reservation anywhere leaves the first page bypassed. -/
theorem map_zero_of_reserve (h : Orderly debug vs) (hzero : vs.map 0 = .bypassed)
    (heq : reserve debug vs 0 n = .ok (res, vs')) :
  vs'.map 0 = .bypassed
  := by
  by_cases hn : n = 0 ∨ n > 0x40000
  · rw [reserve, if_neg (by simp), if_pos hn] at heq
    cases heq
    exact hzero
  · rw [not_or, Nat.not_lt] at hn
    obtain ⟨res', vs₁, heq', -, hby, -⟩ := reserve_looked h
      (by simp [vacant_iff_map, hzero]) hn.1 hn.2
    rw [heq'] at heq
    cases heq
    have hbypassed : vs.bypassed (0 / 0x200) = true := by
      by_contra hne
      rw [map, if_neg hne] at hzero
      rw [PTE.state] at hzero
      split_ifs at hzero
    rw [map, hby, if_pos hbypassed]

/-- In every run the first page is bypassed. -/
theorem Reachable.map_zero (h : Reachable debug allowed vs)
    (hallowed : debug = true → ∀ vs r, allowed vs r → r.Safe vs) :
  vs.map 0 = .bypassed
  := by
  induction h with
  | create pm => rfl
  | @request vs vs' res r hvs hr heq ih =>
      have hinv := hvs.inv hallowed
      by_cases haddr : ∃ addr n, r = .reserve addr n ∧ addr.toNat = 0
      · obtain ⟨addr, n, rfl, haddr⟩ := haddr
        rw [Request.exec, haddr] at heq
        apply map_zero_of_reserve hinv.orderly ih heq
      · have hout : ∃ res vs', r.exec debug vs = .ok (res, vs') ∧ Outcome debug vs r res vs' := by
          cases r with
          | reserve addr n =>
              apply exec_reserve hinv (fun h0 => haddr ⟨addr, n, rfl, h0⟩)
              intro hd
              apply hallowed hd _ _ hr
          | commit addr n => apply exec_commit hinv addr n
          | protect addr n attrib =>
              obtain ⟨res, vs', heq, ho, -⟩ := exec_protect hinv addr n attrib
              exact ⟨res, vs', heq, ho⟩
          | release addr n =>
              obtain ⟨res, vs', heq, ho, -⟩ := exec_release hinv (fun hd => hallowed hd _ _ hr)
              exact ⟨res, vs', heq, ho⟩
        obtain ⟨res', vs₁, heq', hout⟩ := hout
        rw [heq'] at heq
        cases heq
        apply Outcome.map_zero hout ih
  | others pm _ _ ih => exact ih

/-! ### The address -/

/-- What is vacant and then reserved, the page map shows as free and then reserved. -/
theorem reservedAt_of_looked (hby : vs'.bypassed = vs.bypassed) (hplaced : Placed n res)
    (hne : res ≠ 0) (hvacant : ∀ p ∈ Run.mk (res / 0x1000) n, vs.Vacant p)
    (hentry : ∀ p, vs'.entry p =
      if p ∈ Run.mk (res / 0x1000) n then (vs.entry p).reserved else vs.entry p) :
  ReservedAt vs vs' res n
  := by
  obtain ⟨haligned, hend⟩ := hplaced hne
  have hfree : ∀ p ∈ Run.mk (res / 0x1000) n, vs.map p = .free := by
    intro p hp
    rw [← vacant_iff_map]
    apply hvacant p hp
  refine ⟨haligned, le_trans hend (by norm_num), ?_, hfree, ?_⟩
  · intro p hp
    rw [hfree p hp]
    simp
  · intro p
    constructor
    · rintro ⟨hbefore, hafter⟩
      by_contra hp
      have hsame : vs'.map p = vs.map p := by
        rw [map, map, hby, hentry, if_neg hp]
      rw [hsame, hbefore] at hafter
      cases hafter
    · intro hp
      refine ⟨hfree p hp, ?_⟩
      obtain ⟨hfree', hnb⟩ := hvacant p hp
      rw [map, hby, hnb, if_neg (by simp), hentry, if_pos hp]
      apply PTE.state_reserved hfree'

/-- Pages below 4 GB are as they were, and so the pages whose address is returned are not reserved. -/
theorem not_reserved_of_above (hby : vs'.bypassed = vs.bypassed) (hplaced : Placed n res)
    (hn : 1 ≤ n) (hres : res ≠ 0) (habove : ∀ p < 0x100000, vs'.entry p = vs.entry p) :
  ¬ (vs.map (res / 0x1000) = .free ∧ vs'.map (res / 0x1000) = .reserved)
  := by
  obtain ⟨-, hend⟩ := hplaced hres
  have hpos : 0 < n * 0x1000 := Nat.mul_pos hn (by decide)
  have hlt : res / 0x1000 < 0x100000 := by
    rw [Nat.div_lt_iff_lt_mul (by decide)]
    exact Nat.lt_of_lt_of_le (Nat.lt_add_of_pos_right hpos) hend
  rintro ⟨hbefore, hafter⟩
  rw [map, hby, habove _ hlt, ← map, hbefore] at hafter
  cases hafter

/-- In every run, the address that a reservation of `n` pages anywhere returns is that of the pages
that it has reserved if and only if there is room for them below 4 GB. -/
theorem Reachable.reservedAt_iff (h : Reachable debug allowed vs)
    (hallowed : debug = true → ∀ vs r, allowed vs r → r.Safe vs) (hn : 1 ≤ n) (hle : n ≤ 0x40000)
    (heq : reserve debug vs 0 n = .ok (res, vs')) (hres : res ≠ 0) :
  ReservedAt vs vs' res n ↔ vs.lookBelow n = .room
  := by
  have hzero : ¬ vs.Vacant 0 := by
    rw [vacant_iff_map, h.map_zero hallowed]
    simp
  obtain ⟨res', vs₁, heq', hplaced, hby, hroom, hno⟩ :=
    reserve_looked (h.inv hallowed).orderly hzero (by omega) hle
  rw [heq'] at heq
  cases heq
  constructor
  · intro hat
    by_contra hlook
    have hmem : res / 0x1000 ∈ Run.mk (res / 0x1000) n := by
      rw [Run.mem_iff]
      simp only
      omega
    apply not_reserved_of_above hby hplaced hn hres (hno hlook) ((hat.changed _).mpr hmem)
  · intro hlook
    obtain ⟨-, hvacant, hentry⟩ := hroom hlook
    apply reservedAt_of_looked hby hplaced hres hvacant hentry

/-- In a new space a page is reserved below 4 GB. -/
theorem reservedAt_iff_create :
  ∃ res vs', (create pool).reserve false 0 1 = .ok (res, vs') ∧
    (ReservedAt (create pool) vs' res 1 ↔ (create pool).lookBelow 1 = .room)
  := by
  obtain ⟨res, vs', hres, heq⟩ := reserve_create (n := 1) (by decide) (by decide)
  refine ⟨res, vs', heq, ?_⟩
  have hreach : Reachable false (fun _ _ => True) (create pool) := Reachable.create pool
  apply hreach.reservedAt_iff (by simp) (by decide) (by decide) heq hres

/-- A physical memory manager that is short of frames: it makes room for directories only, until
five of them have been created, and refuses the first table of the fifth. -/
def short : FramePool :=
  { used := ∅
    answers := fun i =>
      if i < 3 ∨ i = 514 ∨ i = 1027 ∨ i = 1540 ∨ i = 2053 ∨ 2055 ≤ i then i + 1 else 0 }

/-- If no table can be created below 4 GB, a page of the second table above is reserved. What is
returned is the address of a page of the second table of all, which is not even present. -/
theorem reservedAt_above :
  Reachable false (fun _ _ => True) (create short) ∧
    ∃ res vs', (create short).reserve false 0 1 = .ok (res, vs') ∧ res ≠ 0 ∧
      ¬ ReservedAt (create short) vs' res 1
  := by
  use Reachable.create short
  obtain ⟨vs, hvs⟩ : ∃ vs, { create short with locked := true } = vs := ⟨_, rfl⟩
  have horderly : Orderly false vs := by
    rw [← hvs]
    exact (inv_create false short).orderly
  have hzero : ¬ vs.Vacant 0 := by
    rw [← hvs]
    rintro ⟨-, hnb⟩
    cases hnb
  have hlocked : false = true → vs.locked = true := by simp
  -- below 4 GB there is nothing
  have hlook : vs.lookAny 1 0x800 0 vs.pm.calls = .on 2053 := by
    rw [← hvs]
    decide +kernel
  have hn : 1 ≠ 0 := by decide
  have hsmall : 1 ≤ 0x200 := by decide
  have hcomes := reserveAnyTables_comes hn hsmall hlocked hzero (0x3f7fe + 2) 0x800 0 vs _
    (Passed.zero horderly) (by decide)
  rw [hlook] at hcomes
  obtain ⟨vs₁, hpassed₁, heq₁⟩ := hcomes
  -- the first table above is refused
  have hdir : vs.lookDirectory 4 2053 = .on 2054 := by
    rw [← hvs]
    rfl
  have hfirst : vs.lookTable 1 0x800 2054 = .on 2055 := by
    rw [← hvs]
    rfl
  rcases enterPdt_looked hpassed₁ (show 0x800 + 0 < 0x40000 by decide) rfl
    with ⟨hl, -⟩ | ⟨c, vs₂, hl, hent, hpassed₂, hp⟩
  · exact absurd (hdir.symm.trans hl) (by simp)
  obtain rfl : 2054 = c := by
    have := hdir.symm.trans hl
    simpa using this
  rcases reserveAnyTables_looked hpassed₂ hp hlocked hn hsmall hent (0x3f7fe + 1)
    with ⟨-, -, hl, -⟩ | ⟨c, vs₃, hl, hpassed₃, heq₂⟩
  · exact absurd (hfirst.symm.trans hl) (by simp)
  obtain rfl : 2055 = c := by
    have := hfirst.symm.trans hl
    simpa using this
  -- the second one has room
  have hsecond : vs.lookTable 1 0x801 2055 = .room := by
    rw [← hvs]
    rfl
  rcases enterPdt_looked hpassed₃ (show 0x800 + 0 + 1 < 0x40000 by decide) rfl
    with ⟨hl, -⟩ | ⟨c, vs₄, hl, hent₄, hpassed₄, hp₄⟩
  · exact absurd hl (by simp)
  obtain rfl : 2055 = c := by
    simpa using hl
  rcases reserveAnyTables_looked hpassed₄ hp₄ hlocked hn hsmall hent₄ 0x3f7fe
    with ⟨index, vs₅, -, hend, htook, heq₃⟩ | ⟨c, -, hl, -⟩
  · have haddr : (0x800 + 0 + 1) % 0x800 * 0x200000 + index * 0x1000 = 0x200000 + index * 0x1000 := rfl
    rw [haddr, if_pos (by omega)] at heq₃
    have hany : reserveAny false vs 1 = .ok (0x200000 + index * 0x1000, vs₅) := by
      rw [reserveAny, assert_release, assert_release]
      exact heq₁.trans (heq₂.trans heq₃)
    refine ⟨0x200000 + index * 0x1000, { vs₅ with locked := false }, ?_, by omega, ?_⟩
    · rw [reserve, if_neg (by simp), if_neg (by decide), withLock, hvs, if_pos (by decide), hany]
      rfl
    · intro hat
      have hmem : 0x801 * 0x200 + index ∈ Run.mk (0x801 * 0x200 + index) 1 := by
        rw [Run.mem_iff]
        simp only
        omega
      obtain ⟨hfree, hnb⟩ := htook.vacant _ hmem
      have hbefore : (create short).map (0x801 * 0x200 + index) = .free := by
        rw [← vacant_iff_map]
        rw [← hvs] at hfree hnb
        exact ⟨hfree, hnb⟩
      have hafter : vs₅.map (0x801 * 0x200 + index) = .reserved := by
        rw [map, htook.bypassed, hnb, if_neg (by simp), htook.entry, if_pos hmem]
        apply PTE.state_reserved hfree
      have hin := (hat.changed (0x801 * 0x200 + index)).mp ⟨hbefore, hafter⟩
      rw [Run.mem_iff] at hin
      simp only at hin
      omega
  · exact absurd (hsecond.symm.trans hl) (by simp)

end Vspace

end UOS
