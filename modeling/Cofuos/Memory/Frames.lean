import Cofuos.Memory.Bitmap

/-!
# Histories of the physical memory manager

A history is a sequence of calls, of which each returns. Beside it a ledger records the frames
that have been handed out and not taken back, and how many frames have been set aside and taken.
The bitmap keeps its integrity in every history, and reservations are honoured as long as a
frame is left beyond the reserved ones when one of these is taken.
-/

namespace UOS.PM

open Fault

/-- The calls of the manager. -/
inductive Call where
  | allocate (mode : MODE)
  | reserve (pageCount : ℕ)
  | release (pa : ℕ)
  | setMpCount (count : ℕ)

/-- The answers of the manager. -/
inductive Reply where
  | frame (pa : ℕ)
  | granted (result : Bool)
  | done

/-- Performs a call. The numbers of pages and of processors are double words. -/
def exec (debug : Bool) (pm : PM) : Call → Except Fault (Reply × PM)
  | .allocate mode => do
    let (pa, pm) ← allocate debug mode pm
    return (.frame pa, pm)
  | .reserve pageCount =>
    let (result, pm) := pm.reserve (pageCount % 2 ^ 32)
    return (.granted result, pm)
  | .release pa => do
    let pm ← release debug pa pm
    return (.done, pm)
  | .setMpCount count => do
    let pm ← pm.setMpCount (count % 2 ^ 32)
    return (.done, pm)

/-- What the clients know of a history. -/
structure Ledger where
  /-- The frames handed out and not taken back. -/
  held : Finset ℕ := ∅
  /-- The number of frames set aside. -/
  granted : ℕ := 0
  /-- The number of allocations from the frames set aside. -/
  taken : ℕ := 0

/-- The ledger after a call. An allocation that returns `0` hands out nothing. -/
def Ledger.after (ledger : Ledger) : Call → Reply → Ledger
  | .allocate mode, .frame pa => { ledger with
      held := if pa = 0 then ledger.held else Insert.insert (pa / PAGE_SIZE) ledger.held
      taken := if mode = .TAKE then ledger.taken + 1 else ledger.taken }
  | .reserve pageCount, .granted true =>
      { ledger with granted := ledger.granted + pageCount % 2 ^ 32 }
  | .release pa, _ => { ledger with held := ledger.held.erase (pa / PAGE_SIZE) }
  | _, _ => ledger

/-- The histories from a state, with the calls that clients may make in each state. -/
inductive Run (debug : Bool) (allowed : PM → Ledger → Call → Prop) (start : PM)
    (ledger₀ : Ledger) : PM → Ledger → Prop
  | start : Run debug allowed start ledger₀ start ledger₀
  | call {pm pm' : PM} {ledger : Ledger} {c : Call} {reply : Reply} :
      Run debug allowed start ledger₀ pm ledger → allowed pm ledger c →
      exec debug pm c = .ok (reply, pm') →
      Run debug allowed start ledger₀ pm' (ledger.after c reply)

/-- Only a frame that has been handed out is released. -/
def Call.Owned (ledger : Ledger) : Call → Prop
  | .release pa => pa % PAGE_SIZE = 0 ∧ pa / PAGE_SIZE ∈ ledger.held
  | _ => True

/-- Frames in the ledger are in use, and counted. -/
structure Ledger.Right (ledger : Ledger) (pm : PM) : Prop where
  used : ∀ k ∈ ledger.held, k < pm.bmpSize ∧ (pm.bmp k).free = false
  card_le : ledger.held.card ≤ pm.used

variable {debug : Bool} {pm pm' start : PM} {ledger ledger₀ : Ledger} {mode : MODE}

/-! ### One call -/

/-- A reservation that is granted leaves a frame beyond the reserved ones. -/
theorem reserve_cases {n : ℕ} (hi : pm.Integrity) (hs : pm.Sane) (hn : n < 2 ^ 32) :
  (pm.reserve n = (false, pm)) ∨
    (pm.reserve n = (true, { pm with reserved := pm.reserved + n }) ∧
      pm.used + pm.reserved + n + pm.hardCriticalLimit < pm.total)
  := by
  obtain ⟨hused, htotal, hreserved, hsum⟩ := hi.small hs
  have hlimit := hs.limit_lt
  rw [reserve]
  split_ifs with h
  · right
    rw [Nat.mod_eq_of_lt (by lia)] at h
    rw [Nat.mod_eq_of_lt (by lia)]
    exact ⟨rfl, h⟩
  · left
    rfl

/-- Setting frames aside leaves the bitmap alone. -/
theorem Integrity.setReserved (hi : pm.Integrity) (n : ℕ) :
  Integrity { pm with reserved := n }
  := ⟨hi.marked, hi.free⟩

/-- The changes that the limit makes. -/
theorem setMpCount_eq {n : ℕ} (h : pm.setMpCount n = .ok pm') :
  pm' = { pm with hardCriticalLimit := 4 * n % 2 ^ 16 }
  := by
  rw [setMpCount] at h
  split_ifs at h
  cases h
  rfl

/-- Frames are given by their addresses. -/
theorem mul_PAGE_SIZE_div (frame : ℕ) :
  frame * PAGE_SIZE / PAGE_SIZE = frame
  := Nat.mul_div_cancel _ (by decide)

/-- A frame that is handed out enters the ledger. -/
theorem Taken.right {frame : ℕ} (h : Taken debug mode pm frame pm') (hl : ledger.Right pm) :
  (ledger.after (.allocate mode) (.frame (frame * PAGE_SIZE))).Right pm'
  := by
  constructor
  · intro k hk
    rw [h.bmpSize, h.frees]
    by_cases hkf : k = frame
    · rw [if_pos hkf, hkf]
      exact ⟨h.lt, rfl⟩
    · rw [if_neg hkf]
      apply hl.used k
      simp only [Ledger.after, mul_PAGE_SIZE_div] at hk
      split_ifs at hk
      · apply hk
      · apply Finset.mem_of_mem_insert_of_ne hk hkf
  · have := hl.card_le
    have := Finset.card_insert_le frame ledger.held
    rw [h.used]
    simp only [Ledger.after, mul_PAGE_SIZE_div]
    split_ifs <;> lia

/-- A call keeps the integrity of the bitmap, the ranges of the data and the ledger. -/
theorem exec_keeps {c : Call} {reply : Reply} (hi : pm.Integrity) (hs : pm.Sane)
    (hl : ledger.Right pm) (howned : c.Owned ledger)
    (hkept : debug = false → c = .allocate .TAKE → pm.reserved ≠ 0)
    (h : exec debug pm c = .ok (reply, pm')) :
  pm'.Integrity ∧ pm'.Sane ∧ (ledger.after c reply).Right pm'
  := by
  cases c with
  | allocate mode =>
      rw [exec, Except.bind_eq_ok_iff] at h
      obtain ⟨⟨pa, pm₁⟩, heq, hres⟩ := h
      cases hres
      rcases allocate_cases hi hs heq with ⟨rfl, -, rfl, rfl⟩ | ⟨frame, rfl, htaken⟩
      · exact ⟨hi, hs, hl⟩
      · refine ⟨htaken.integrity hi, htaken.sane hs ?_, htaken.right hl⟩
        intro hmode
        subst hmode
        cases debug with
        | false => apply hkept rfl rfl
        | true => apply htaken.kept rfl rfl
  | reserve n =>
      rw [exec] at h
      rcases reserve_cases hi hs (Nat.mod_lt n (by decide)) with hr | ⟨hr, hlt⟩
      · rw [hr] at h
        cases h
        exact ⟨hi, hs, hl⟩
      · rw [hr] at h
        cases h
        refine ⟨hi.setReserved _, ?_, ⟨hl.used, hl.card_le⟩⟩
        refine ⟨hs.bmpSize_lt, hs.padding, hs.total_le, ?_, hs.limit_lt, hs.next_lt⟩
        dsimp only
        lia
  | release pa =>
      obtain ⟨hpa, hheld⟩ := howned
      obtain ⟨hlt, hfree⟩ := hl.used _ hheld
      have hpos : 0 < ledger.held.card := Finset.card_pos.mpr ⟨_, hheld⟩
      have hcard := hl.card_le
      obtain ⟨pm₁, heq, hi', hs', hused, -, -, hsize, hfrees⟩ :=
        release_eq debug hi hs hpa hlt hfree (by omega)
      rw [exec, heq] at h
      cases h
      refine ⟨hi', hs', ?_, ?_⟩
      · intro k hk
        simp only [Ledger.after, Finset.mem_erase] at hk
        rw [hsize, hfrees, if_neg hk.1]
        apply hl.used k hk.2
      · have := Finset.card_erase_add_one hheld
        simp only [Ledger.after]
        lia
  | setMpCount n =>
      rw [exec, Except.bind_eq_ok_iff] at h
      obtain ⟨pm₁, heq, hres⟩ := h
      cases hres
      cases setMpCount_eq heq
      refine ⟨⟨hi.marked, hi.free⟩, ?_, ⟨hl.used, hl.card_le⟩⟩
      refine ⟨hs.bmpSize_lt, hs.padding, hs.total_le, hs.reserved_le, ?_, hs.next_lt⟩
      apply Nat.mod_lt _ (by decide)

/-! ### Integrity in every history -/

/-- Calls that clients may make: a frame is released only by one to whom it has been handed
out. Without the assertion of `PM::allocate` that frames are set aside when one of them is
taken, it is the clients who see to that. -/
def Proper (debug : Bool) (pm : PM) (ledger : Ledger) (c : Call) : Prop :=
  c.Owned ledger ∧ (debug = false → c = .allocate .TAKE → pm.reserved ≠ 0)

/-- Every state of a history is as the first one. -/
theorem Run.keeps {allowed : PM → Ledger → Call → Prop} (hi : start.Integrity) (hs : start.Sane)
    (hl : ledger₀.Right start) (hall : ∀ pm ledger c, allowed pm ledger c → Proper debug pm ledger c)
    (h : Run debug allowed start ledger₀ pm ledger) :
  pm.Integrity ∧ pm.Sane ∧ ledger.Right pm
  := by
  induction h with
  | start => exact ⟨hi, hs, hl⟩
  | call _ hallowed hexec ih =>
      obtain ⟨howned, hkept⟩ := hall _ _ _ hallowed
      apply exec_keeps ih.1 ih.2.1 ih.2.2 howned hkept hexec

/-- From any bitmap whose marks and counters are right, every history keeps them right. A frame
that is handed out was free, is used from then on, and is not one that has been handed out and
not taken back. An allocation that may be refused never stops, whichever group the hint is. -/
theorem Run.bitmap_integrity (hi : start.Integrity) (hs : start.Sane) (hl : ledger₀.Right start)
    (h : Run debug (Proper debug) start ledger₀ pm ledger) :
  pm.Integrity ∧
    (∀ mode pa pm', allocate debug mode pm = .ok (pa, pm') → pa ≠ 0 →
      pa % PAGE_SIZE = 0 ∧ pa / PAGE_SIZE < pm.bmpSize ∧ (pm.bmp (pa / PAGE_SIZE)).free = true ∧
      (pm'.bmp (pa / PAGE_SIZE)).free = false ∧ pa / PAGE_SIZE ∉ ledger.held) ∧
    ∀ next < pm.pageCount, ∃ result, allocate debug .NONE { pm with next := next } = .ok result
  := by
  obtain ⟨hi', hs', hl'⟩ := h.keeps hi hs hl fun _ _ _ hp => hp
  refine ⟨hi', ?_, ?_⟩
  · intro mode pa pm' heq hpa
    rcases allocate_cases hi' hs' heq with ⟨-, -, hzero, -⟩ | ⟨frame, rfl, htaken⟩
    · apply absurd hzero hpa
    · rw [mul_PAGE_SIZE_div, htaken.frees, if_pos rfl]
      refine ⟨Nat.mul_mod_left _ _, htaken.lt, htaken.was_free, rfl, ?_⟩
      intro hheld
      have hused := (hl'.used frame hheld).2
      rw [htaken.was_free] at hused
      cases hused
  · intro next hnext
    have hin : Integrity { pm with next := next } := ⟨hi'.marked, hi'.free⟩
    have hsn : Sane { pm with next := next } :=
      ⟨hs'.bmpSize_lt, hs'.padding, hs'.total_le, hs'.reserved_le, hs'.limit_lt, hnext⟩
    by_cases hrefused : pm.total ≤ (pm.used + pm.reserved + pm.hardCriticalLimit) % 2 ^ 64
    · rw [allocate, if_pos ⟨rfl, hrefused⟩]
      exact ⟨_, rfl⟩
    · have hsmall := (hi'.small hs').2.2.2
      rw [Nat.mod_eq_of_lt hsmall] at hrefused
      have hfree := hi'.free
      apply allocate_eq debug .NONE hin hsn
      · apply Finset.card_pos.mp
        change 0 < pm.freeFrames.card
        omega
      · intro _
        dsimp only
        omega
      · intro _ hc
        cases hc

/-- A machine with 48 MB of memory, of which all but two frames are in use. -/
def twoLeft : PM where
  bmp k := { solid := k < 0x2000 ∨ 0x2201 ≤ k, free := k = 0x2200 ∨ k = 0x2201 }
  bmpSize := 0x3000
  total := 0x2f00
  used := 0x2efe

theorem freeFrames_twoLeft :
  twoLeft.freeFrames = {0x2200, 0x2201}
  := by
  ext k
  simp only [mem_freeFrames, twoLeft, decide_eq_true_eq, Finset.mem_insert, Finset.mem_singleton]
  lia

theorem integrity_twoLeft : twoLeft.Integrity := by
  constructor
  · intro page hpage i hi
    have hpage' : page < 3 := hpage
    simp only [twoLeft, PAGE_SIZE, decide_eq_true_eq, decide_eq_false_iff_not] at hi ⊢
    constructor
    · intro h j hij hj
      lia
    · intro h
      have h₀ := h 0x200
      have h₁ := h 0x201
      lia
  · rw [freeFrames_twoLeft]
    rfl

theorem sane_twoLeft : twoLeft.Sane := by
  refine ⟨by decide, ?_, by decide, by decide, by decide, by decide⟩
  intro k hk
  have hk' : 0x3000 ≤ k := hk
  simp only [twoLeft, decide_eq_false_iff_not]
  omega

/-- A reservation on this machine is a history, after which the bitmap is right and an
allocation that may be refused returns from each of the three groups. -/
theorem integrity_reserved :
  ∃ pm ledger, Run true (Proper true) twoLeft {} pm ledger ∧ ledger.granted = 1 ∧ pm.Integrity ∧
    ∀ next < 3, ∃ result, allocate true .NONE { pm with next := next } = .ok result
  := by
  have hl : Ledger.Right {} twoLeft :=
    ⟨fun k hk => absurd hk (Finset.notMem_empty k), Nat.zero_le _⟩
  have hrun : Run true (Proper true) twoLeft {} { twoLeft with reserved := 1 } { granted := 1 } :=
    .call .start ⟨trivial, fun _ hc => by cases hc⟩
      (rfl : exec true twoLeft (.reserve 1) = .ok (.granted true, _))
  obtain ⟨hi, -, hnone⟩ := hrun.bitmap_integrity integrity_twoLeft sane_twoLeft hl
  exact ⟨_, _, hrun, rfl, hi, hnone⟩

/-! ### Reservations -/

/-- The manager as it is built: no frame is set aside, and the first frame is in use. -/
structure Built (pm : PM) : Prop where
  integrity : pm.Integrity
  sane : pm.Sane
  reserved : pm.reserved = 0
  first : (pm.bmp 0).free = false

/-- Frames are taken only when some of those granted are left. -/
def Credited (ledger : Ledger) (c : Call) : Prop :=
  c.Owned ledger ∧ (c = .allocate .TAKE → ledger.taken < ledger.granted)

/-- Where assertions are checked, a frame that is set aside is taken only while another one is
neither used nor set aside. Where they are not, an allocation that must succeed is made only
then. -/
def Spared (debug : Bool) (pm : PM) (c : Call) : Prop :=
  c = .allocate (if debug = true then .TAKE else .MUST_SUCCEED) → pm.used + pm.reserved < pm.total

/-- The counters agree with the ledger. -/
structure Ledger.Agrees (ledger : Ledger) (pm : PM) : Prop where
  reserved : ledger.taken + pm.reserved = ledger.granted
  le : pm.used + pm.reserved ≤ pm.total
  first : (pm.bmp 0).free = false ∧ 0 ∉ ledger.held

/-- A call keeps the counters and the ledger in agreement. -/
theorem exec_agrees {c : Call} {reply : Reply} (hi : pm.Integrity) (hs : pm.Sane)
    (hl : ledger.Right pm) (ha : ledger.Agrees pm) (hc : Credited ledger c)
    (hspared : Spared debug pm c) (h : exec debug pm c = .ok (reply, pm')) :
  (ledger.after c reply).Agrees pm'
  := by
  obtain ⟨hsmall, htotal, -, -⟩ := hi.small hs
  have hle := ha.le
  have hsum := ha.reserved
  cases c with
  | allocate mode =>
      rw [exec, Except.bind_eq_ok_iff] at h
      obtain ⟨⟨pa, pm₁⟩, heq, hres⟩ := h
      cases hres
      rcases allocate_cases hi hs heq with ⟨rfl, -, rfl, rfl⟩ | ⟨frame, rfl, htaken⟩
      · exact ⟨ha.reserved, ha.le, ha.first⟩
      · have hframe : frame ≠ 0 := by
          rintro rfl
          have := htaken.was_free
          rw [ha.first.1] at this
          cases this
        have hpa : frame * PAGE_SIZE ≠ 0 := by
          simp only [PAGE_SIZE]
          lia
        have hreserved := htaken.reserved
        refine ⟨?_, ?_, ?_, ?_⟩
        · simp only [Ledger.after]
          split_ifs at hreserved ⊢ with hmode
          · have := hc.2 (by rw [hmode])
            lia
          · lia
        · rw [htaken.used, htaken.total]
          split_ifs at hreserved with hmode
          · have := hc.2 (by rw [hmode])
            lia
          · -- the assertion, the limit or the condition has left a frame
            have hlt : pm.used + pm.reserved < pm.total := by
              cases debug with
              | true => apply htaken.spare rfl
              | false =>
                  cases mode with
                  | NONE =>
                      have := htaken.permitted rfl
                      lia
                  | MUST_SUCCEED => apply hspared rfl
                  | TAKE => apply absurd rfl hmode
            lia
        · rw [htaken.frees]
          split_ifs
          · rfl
          · apply ha.first.1
        · simp only [Ledger.after, if_neg hpa, mul_PAGE_SIZE_div, Finset.mem_insert, not_or]
          exact ⟨hframe.symm, ha.first.2⟩
  | reserve n =>
      rw [exec] at h
      rcases reserve_cases hi hs (Nat.mod_lt n (by decide)) with hr | ⟨hr, hlt⟩
      · rw [hr] at h
        cases h
        exact ⟨ha.reserved, ha.le, ha.first⟩
      · rw [hr] at h
        cases h
        refine ⟨?_, ?_, ha.first⟩
        · simp only [Ledger.after]
          lia
        · dsimp only
          lia
  | release pa =>
      obtain ⟨hpa, hheld⟩ := hc.1
      obtain ⟨hlt, hfree⟩ := hl.used _ hheld
      have hpos : 0 < ledger.held.card := Finset.card_pos.mpr ⟨_, hheld⟩
      have hcard := hl.card_le
      obtain ⟨pm₁, heq, -, -, hused, htot, hres, -, hfrees⟩ :=
        release_eq debug hi hs hpa hlt hfree (by omega)
      rw [exec, heq] at h
      cases h
      have hframe : 0 ≠ pa / PAGE_SIZE := by
        intro hz
        rw [← hz] at hheld
        apply ha.first.2 hheld
      refine ⟨by rw [hres]; apply ha.reserved, by lia, ?_, ?_⟩
      · rw [hfrees, if_neg hframe]
        apply ha.first.1
      · intro hmem
        apply ha.first.2 (Finset.mem_of_mem_erase hmem)
  | setMpCount n =>
      rw [exec, Except.bind_eq_ok_iff] at h
      obtain ⟨pm₁, heq, hres⟩ := h
      cases hres
      cases setMpCount_eq heq
      exact ⟨ha.reserved, ha.le, ha.first⟩

/-- In every history in which a frame is left whenever one of those set aside is taken, the
frames in use and those set aside are at most all there are, and each frame that has been
granted can be taken. -/
theorem Run.honoured (hb : start.Built)
    (h : Run debug (fun pm ledger c => Credited ledger c ∧ Spared debug pm c) start {} pm ledger) :
  pm.used + pm.reserved ≤ pm.total ∧
    (Credited ledger (.allocate .TAKE) → Spared debug pm (.allocate .TAKE) →
      ∃ pa pm', allocate debug .TAKE pm = .ok (pa, pm') ∧ pa ≠ 0 ∧
        (pm.bmp (pa / PAGE_SIZE)).free = true)
  := by
  have hkeeps : (pm.Integrity ∧ pm.Sane ∧ ledger.Right pm) ∧ ledger.Agrees pm := by
    induction h with
    | start =>
        refine ⟨⟨hb.integrity, hb.sane, ?_⟩, ?_⟩
        · exact ⟨fun k hk => absurd hk (Finset.notMem_empty k), Nat.zero_le _⟩
        · have := hb.integrity.free
          refine ⟨by rw [hb.reserved], ?_, hb.first, Finset.notMem_empty 0⟩
          rw [hb.reserved]
          omega
    | call _ hallowed hexec ih =>
        obtain ⟨⟨hi, hs, hl⟩, ha⟩ := ih
        refine ⟨exec_keeps hi hs hl hallowed.1.1 ?_ hexec,
          exec_agrees hi hs hl ha hallowed.1 hallowed.2 hexec⟩
        rintro - rfl
        have := hallowed.1.2 rfl
        have := ha.reserved
        omega
  obtain ⟨⟨hi, hs, hl⟩, ha⟩ := hkeeps
  refine ⟨ha.le, ?_⟩
  intro hcredit hspared
  have hpos := hcredit.2 rfl
  have hreserved := ha.reserved
  have hle := ha.le
  have hfree := hi.free
  obtain ⟨⟨pa, pm'⟩, heq⟩ := allocate_eq debug .TAKE hi hs
    (Finset.card_pos.mp (by omega)) (by rintro rfl; apply hspared rfl) (by omega)
  refine ⟨pa, pm', heq, ?_⟩
  rcases allocate_cases hi hs heq with ⟨hc, -⟩ | ⟨frame, rfl, htaken⟩
  · cases hc
  · rw [mul_PAGE_SIZE_div]
    refine ⟨?_, htaken.was_free⟩
    have hne : frame ≠ 0 := by
      rintro rfl
      have := htaken.was_free
      rw [ha.first.1] at this
      cases this
    simp only [PAGE_SIZE]
    omega

/-- A frame set aside on the machine with two frames left can be taken. -/
theorem honoured_twoLeft :
  ∃ pm ledger, Run true (fun pm ledger c => Credited ledger c ∧ Spared true pm c) twoLeft {} pm
      ledger ∧ ledger.granted = 1 ∧ ∃ pa pm', allocate true .TAKE pm = .ok (pa, pm') ∧ pa ≠ 0
  := by
  have hrun : Run true (fun pm ledger c => Credited ledger c ∧ Spared true pm c) twoLeft {}
      { twoLeft with reserved := 1 } { granted := 1 } :=
    .call .start ⟨⟨trivial, fun hc => by cases hc⟩, fun hc => by cases hc⟩
      (rfl : exec true twoLeft (.reserve 1) = .ok (.granted true, _))
  obtain ⟨pa, pm', heq, hpa, -⟩ := (hrun.honoured
    ⟨integrity_twoLeft, sane_twoLeft, rfl, rfl⟩).2 ⟨trivial, fun _ => by decide⟩ fun _ => by decide
  exact ⟨_, _, hrun, rfl, pa, pm', heq, hpa⟩

/-- On the machine with two frames left, one is set aside and the other handed out by an
allocation that must succeed. The one set aside is free then, but taking it fails. -/
theorem take_fails_twoLeft :
  twoLeft.Built ∧ ∃ pm ledger, Run true (fun _ => Credited) twoLeft {} pm ledger ∧
    ledger.taken < ledger.granted ∧ pm.reserved = 1 ∧ pm.freeFrames.Nonempty ∧
    allocate true .TAKE pm = .error .assertFailed
  := by
  refine ⟨⟨integrity_twoLeft, sane_twoLeft, rfl, rfl⟩, ?_⟩
  have hrun : Run true (fun _ => Credited) twoLeft {} { twoLeft with reserved := 1 }
      { granted := 1 } :=
    .call .start ⟨trivial, fun hc => by cases hc⟩
      (rfl : exec true twoLeft (.reserve 1) = .ok (.granted true, _))
  have hi : Integrity { twoLeft with reserved := 1 } := integrity_twoLeft.setReserved 1
  have hs : Sane { twoLeft with reserved := 1 } :=
    ⟨sane_twoLeft.bmpSize_lt, sane_twoLeft.padding, sane_twoLeft.total_le, by decide,
      sane_twoLeft.limit_lt, sane_twoLeft.next_lt⟩
  have hfree : (freeFrames { twoLeft with reserved := 1 }).Nonempty := by
    use 0x2200
    rw [mem_freeFrames]
    exact ⟨by decide, rfl⟩
  obtain ⟨⟨pa, pm⟩, heq⟩ := allocate_eq true .MUST_SUCCEED hi hs hfree (fun _ => by decide)
    fun _ hc => by cases hc
  rcases allocate_cases hi hs heq with ⟨hc, -⟩ | ⟨frame, rfl, htaken⟩
  · cases hc
  · have hi' := htaken.integrity hi
    have hs' := htaken.sane hs fun hc => by cases hc
    have hused : pm.used = 0x2eff := htaken.used
    have htotal : pm.total = 0x2f00 := htaken.total
    have hreserved : pm.reserved = 1 := htaken.reserved
    have hcount := hi'.free
    have hleft : pm.freeFrames.Nonempty := Finset.card_pos.mp (by omega)
    have hexec : exec true { twoLeft with reserved := 1 } (.allocate .MUST_SUCCEED) =
        .ok (.frame (frame * PAGE_SIZE), pm) := by
      rw [exec, heq]
      rfl
    have hcredited : Credited { granted := 1 } (.allocate .MUST_SUCCEED) :=
      ⟨trivial, fun hc => by cases hc⟩
    refine ⟨_, _, .call hrun hcredited hexec, ?_, hreserved, hleft, ?_⟩
    · apply Nat.zero_lt_one
    · apply allocate_overdrawn hi' hs' hleft (by decide) (by omega)

end UOS.PM
