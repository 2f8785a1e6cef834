import Cofuos.Disk.Moves

/-!
# Partially valid pages

A page of which only some sectors are valid comes from writes, and has dirty sectors: this is
what `slot::load` asserts. Flushing such a page makes its sectors clean and leaves it as it is
otherwise, so that the assertion fails when the page is read. As long as the cache does not
flush pages that are partially valid, other than to load another page, and as long as its
clients only use sectors that they have obtained, no assertion fails.
-/

namespace UOS

open Fault

namespace Disk

variable {σ : Type} {n : ℕ} {s s' : State σ} {t : ℕ}

/-! ### Pages that can be used -/

/-- A slot holds no page, or a whole page, or it has dirty sectors. -/
def Slot.Usable (slot : Slot σ) : Prop :=
  slot.valid = 0 ∨ slot.valid = 0xFF ∨ slot.dirty ≠ 0

/-- The slot `k` has been flushed, and is about to lose its page. -/
def State.Leaving (s : State σ) (k : ℕ) : Prop :=
  ∃ t cont, s.pc t = .flushed k cont true ∧ cont.call ≠ none

/-- A slot that is flushed and keeps its page holds a whole page. -/
def Pc.Whole (s : State σ) : Pc → Prop
  | .flush k cont => cont.call = none → (s.slot k).dirty ≠ 0 → (s.slot k).valid = 0xFF
  | .flushLoop k _ _ cont => cont.call = none → (s.slot k).valid = 0xFF
  | _ => True

/-- The slot `k` is held by a client that has obtained it with the call `c`. -/
structure State.Obtained (n : ℕ) (s : State σ) (k : ℕ) (c : Call) : Prop where
  keeps : ∃ t, s.Keeps n t k
  lbaBase : (s.slot k).lbaBase = c.page
  read : c.write = false → (s.slot k).valid = 0xFF
  write : c.write = true → c.count ≠ 0 → (s.slot k).valid ≠ 0

/-- The inputs that the cache is made for. Commands to the disk succeed. A slot that is flushed
in the background or by `relax` holds a whole page. Clients ask for sectors of the page that
they have obtained; if they have obtained it with a write, it has a valid sector, and only
valid sectors are upgraded. -/
def Sound (n : ℕ) (v : View σ) (s : State σ) : Input σ → Prop
  | .get _ _ | .flush _ => True
  | .upgrade _ k lba cnt => ∃ c ∈ v.obtained k, c.write = true →
      ∀ i ∈ (s.slot k).sectors lba cnt, (s.slot k).valid.getLsbD i = true
  | .data _ k lba | .edit _ k lba _ => ∃ c ∈ v.obtained k, pageLba lba = c.page ∧
      (c.write = true → c.count = 0 → (s.slot k).valid ≠ 0)
  | .relax _ k flush => flush = true → (s.slot k).dirty ≠ 0 → (s.slot k).valid = 0xFF
  | .run t ok _ => ok = true ∧ ∀ index, s.pc t = .sweep index → index < n →
      s.free index = true → (s.slot index).dirty ≠ 0 → (s.slot index).valid = 0xFF

/-- The masks of the slots in a run. -/
structure State.Masks (n : ℕ) (v : View σ) (s : State σ) : Prop where
  ok : s.Ok n
  checked : s.Checked
  usable : ∀ k, (s.slot k).Usable ∨ s.Leaving k
  whole : ∀ t, (s.pc t).Whole s
  obtained : ∀ k c, v.obtained k = some c → s.Obtained n k c

/-! ### What a step does to the masks -/

/-- Whether a slot is flushed as a whole does not depend on the slots of others. -/
theorem Pc.Whole.frame {p : Pc} {t' : ℕ} (h : p.Whole s) (hok : p.Ok n s t') (hf : Frame s s' t)
    (ht : t' ≠ t) :
  p.Whole s'
  := by
  cases p with
  | flush k cont =>
      rw [Pc.Whole, hf.slot k t' hok.1.2 ht]
      apply h
  | flushLoop k i head cont =>
      rw [Pc.Whole, hf.slot k t' hok.1.2 ht]
      apply h
  | _ => trivial

/-- Marking sectors keeps a slot usable. -/
theorem Slot.Usable.upgrade {debug : Bool} {slot slot' : Slot σ} (h : slot.Usable) {lba cnt : ℕ}
    (hup : slot.upgrade debug lba cnt = .ok slot') :
  slot'.Usable
  := by
  obtain ⟨dirty, rfl, hbit⟩ := Slot.upgrade_post hup
  rcases h with h | h | h
  · left
    apply h
  · right
    left
    apply h
  · right
    right
    intro hd
    apply h
    apply eq_zero_of_subset (fun j hj h => (hbit j hj).mpr (.inl h)) hd

/-- A slot that a client has obtained is not changed by others. -/
theorem State.Obtained.of_slot {k : ℕ} {c : Call} (h : s.Obtained n k c)
    (hk : ∃ t, s'.Keeps n t k) (hslot : (s'.slot k).lbaBase = (s.slot k).lbaBase ∧
      (s'.slot k).valid = (s.slot k).valid) :
  s'.Obtained n k c
  := by
  constructor
  · apply hk
  · rw [hslot.1, h.lbaBase]
  · rw [hslot.2]
    apply h.read
  · rw [hslot.2]
    apply h.write

variable [Zero σ] {debug : Bool}

/-- Filling sectors keeps a slot usable. -/
theorem Slot.Usable.fill {slot slot' : Slot σ} (h : slot.Usable) {lba cnt now : ℕ}
    (hfill : slot.fill debug lba cnt now = .ok slot') :
  slot'.Usable
  := by
  obtain ⟨dirty, rfl, hbit⟩ := Slot.fill_post hfill
  by_cases hd : dirty = 0
  · have hold : slot.dirty = 0 := eq_zero_of_subset (fun j hj h => (hbit j hj).mpr (.inl h)) hd
    rcases h with h | h | h
    · left
      simp only [h, hd]
      rfl
    · right
      left
      simp only [h, hd]
      rfl
    · apply absurd hold h
  · right
    right
    apply hd

/-- A step keeps the slots usable, but for those that are about to lose their pages. -/
theorem Move.usable_slot {input : Input σ} {v : View σ} (h : Move debug n s input s')
    (hm : s.Masks n v) (k : ℕ) :
  (s'.slot k).Usable ∨ s'.Leaving k
  := by
  have hleave : ∀ {t p}, s.pc t = p → (∀ cont, p = .flushed k cont true → cont.call = none) →
      ∀ {s' : State σ} {p' : Pc}, s'.pc = s.pc → s.Leaving k → (s'.goto t p').Leaving k := by
    rintro t p rfl hp s' p' hpc ⟨t', cont, hp', hc⟩
    refine ⟨t', cont, ?_, hc⟩
    rw [State.goto_pc_of_ne, hpc, hp']
    rintro rfl
    apply hc (hp cont hp')
  -- no slot changes
  have hgoto : ∀ {t p p'}, s.pc t = p → (∀ cont, p = .flushed k cont true → cont.call = none) →
      ((s.goto t p').slot k).Usable ∨ (s.goto t p').Leaving k := by
    intro t p p' hp hne
    rcases hm.usable k with hu | hl
    · left
      apply hu
    · right
      apply hleave hp hne rfl hl
  -- the slot `k'` changes, and stays usable if it was
  have hset : ∀ {t p p' k' slot}, s.pc t = p →
      (∀ cont, p = .flushed k cont true → cont.call = none) →
      (k = k' → (s.slot k').Usable → slot.Usable) →
      (((s.setSlot k' slot).goto t p').slot k).Usable ∨
        ((s.setSlot k' slot).goto t p').Leaving k := by
    intro t p p' k' slot hp hne hslot
    rcases hm.usable k with hu | hl
    · left
      rw [State.goto_slot]
      by_cases hk : k = k'
      · subst hk
        rw [State.setSlot_slot_self]
        apply hslot rfl hu
      · rwa [State.setSlot_slot_of_ne _ _ hk]
    · right
      apply hleave hp hne rfl hl
  -- the slot `k'` loses its page
  have hrebase : ∀ {t k' cont page p'}, s.pc t = .flushed k' cont true →
      (((s.setSlot k' ((s.slot k').rebase page)).goto t p').slot k).Usable ∨
        ((s.setSlot k' ((s.slot k').rebase page)).goto t p').Leaving k := by
    intro t k' cont page p' hp
    by_cases hk : k = k'
    · subst hk
      left
      rw [State.goto_slot, State.setSlot_slot_self]
      left
      rfl
    · apply hset hp
      · rintro cont' ⟨⟩
        apply absurd rfl hk
      · intro hkk
        apply absurd hkk hk
  have hout : ∀ {t : ℕ}, (s.pc t).outside = true → ∀ cont, s.pc t = .flushed k cont true →
      cont.call = none := by
    intro t ho cont hp
    rw [hp] at ho
    cases ho
  cases h with
  | get ho => exact hgoto rfl (hout ho)
  | flush ho => exact hgoto rfl (hout ho)
  | data hh => exact hgoto rfl (hout (State.holds_iff.mp hh).1)
  | relaxFlush hh => exact hgoto rfl (hout (State.holds_iff.mp hh).1)
  | relax hh => exact hgoto rfl (hout (State.holds_iff.mp hh).1)
  | upgrade hh _ _ hup => exact hset rfl (hout (State.holds_iff.mp hh).1) fun _ hu => hu.upgrade hup
  | edit hh => exact hset rfl (hout (State.holds_iff.mp hh).1) fun _ => id
  | hit hp | miss hp | again hp | stay hp | probe hp | loadFull hp | loadPart hp | reload hp
  | readFail hp | storeOther hp | storeSame hp | clean hp | flushStart hp | skip hp
  | write hp | writeFail hp | nothing hp | sweepSkip hp | sweepEnd hp =>
      exact hgoto hp (by rintro _ ⟨⟩)
  | fail hp => exact hgoto hp (by rintro _ ⟨⟩)
  | take hp | lock hp | leave hp | sweepTake hp =>
      exact hset hp (by rintro _ ⟨⟩) fun _ => id
  | relaxed hp => exact hset hp (by rintro _ ⟨⟩; rfl) fun _ => id
  | swept hp => exact hset hp (by rintro _ ⟨⟩; rfl) fun _ => id
  | read hp => exact hset hp (by rintro _ ⟨⟩) fun _ _ => .inr (.inl rfl)
  | fill hp hfill => exact hset hp (by rintro _ ⟨⟩) fun _ hu => hu.fill hfill
  | @done t now ok k' i head cont hp _ =>
      by_cases hk : k = k' ∧ cont.call ≠ none
      · obtain ⟨rfl, hc⟩ := hk
        right
        exact ⟨t, cont, State.goto_pc_self .., hc⟩
      · apply hset hp (by rintro _ ⟨⟩)
        intro hkk _
        have hwhole := hm.whole t
        rw [hp] at hwhole
        right
        left
        apply hwhole
        by_contra hc
        apply hk ⟨hkk, hc⟩
  | rebaseReload hp => exact hrebase hp
  | rebaseStore hp => exact hrebase hp

/-- A step only flushes whole pages, but for pages that are given up. -/
theorem Move.whole {input : Input σ} {v : View σ} (h : Move debug n s input s')
    (hm : s.Masks n v) (hs : Sound n v s input) (t : ℕ) :
  (s'.pc t).Whole s'
  := by
  have hf := h.frame hm.ok
  by_cases ht : t = input.thread
  swap
  · rw [hf.pc t ht]
    apply (hm.whole t).frame (hm.ok t) hf ht
  subst ht
  have hold : ∀ {t p}, s.pc t = p → p.Whole s := by
    intro t p hp
    rw [← hp]
    apply hm.whole t
  cases h with
  | get | data | flush | relax | upgrade | edit | hit | miss | again | lock | leave | probe
  | loadFull | loadPart | readFail | storeSame | clean | writeFail | done | rebaseReload
  | rebaseStore | fail | relaxed | swept | sweepSkip | sweepEnd | read | fill =>
      rw [Input.thread, State.goto_pc_self]
      trivial
  | take hp =>
      rw [Input.thread, State.goto_pc_self]
      split_ifs
      · trivial
      · trivial
  | stay hp =>
      rw [Input.thread, State.goto_pc_self]
      split_ifs
      · trivial
      · trivial
  | reload hp =>
      rw [Input.thread, State.goto_pc_self]
      rintro ⟨⟩
  | storeOther hp =>
      rw [Input.thread, State.goto_pc_self]
      rintro ⟨⟩
  | relaxFlush hh hd =>
      rw [Input.thread, State.goto_pc_self]
      intro _ _
      apply hs rfl hd
  | flushStart hp hd =>
      rw [Input.thread, State.goto_pc_self]
      intro hc
      apply hold hp hc hd
  | skip hp | write hp | nothing hp =>
      rw [Input.thread, State.goto_pc_self]
      intro hc
      apply hold hp hc
  | @sweepTake t now ok index hp hi hfree =>
      rw [Input.thread, State.goto_pc_self]
      intro _
      rw [State.goto_slot, State.lock, State.setSlot_slot_self]
      apply hs.2 index hp hi hfree

/-- A slot stays obtained, unless it is given back. -/
theorem Move.obtained {input : Input σ} (h : Move debug n s input s') (hok : s.Ok n) {k : ℕ}
    {c : Call} (ho : s.Obtained n k c) (hin : ∀ t flush, input ≠ .relax t k flush) :
  s'.Obtained n k c
  := by
  by_cases hslot : input.slot = some k
  swap
  · obtain ⟨t, hk⟩ := ho.keeps
    obtain ⟨heq, hk'⟩ := h.keeps hok hk hslot
    apply ho.of_slot ⟨t, hk'⟩
    rw [heq]
    exact ⟨rfl, rfl⟩
  obtain ⟨hkeeps, hbase, hvalid, -⟩ := h.named hslot hin
  exact ho.of_slot ⟨_, hkeeps⟩ ⟨hbase, hvalid⟩

/-- A slot that `get` has returned is obtained. -/
theorem Move.got {t now : ℕ} {ok : Bool} (h : Move debug n s (.run t ok now) s') (hok : s.Ok n)
    {k : ℕ} {c : Call} (hgot : s'.pc t = .got k c) :
  s'.Obtained n k c
  := by
  have hok' := h.ok hok t
  rw [hgot] at hok'
  obtain ⟨howns, hbase⟩ := hok'
  have hkeeps : ∃ t, s'.Keeps n t k := by
    refine ⟨t, howns, ?_⟩
    rw [hgot]
    rintro ⟨⟩
  have hold : ∀ {p}, s.pc t = p → p.Ok n s t := by
    intro p hp
    rw [← hp]
    apply hok t
  have hfull : (s'.slot k).valid = 0xFF → s'.Obtained n k c := by
    intro hv
    refine ⟨hkeeps, hbase, fun _ => hv, fun _ _ => ?_⟩
    rw [hv]
    decide
  cases h with
  | loadFull hp hv =>
      rw [State.goto_pc_self] at hgot
      cases hgot
      apply hfull hv
  | read hp =>
      rw [State.goto_pc_self] at hgot
      cases hgot
      apply hfull
      rw [State.goto_slot, State.setSlot_slot_self]
      rfl
  | @fill _ _ _ k c slot hp hfill =>
      rw [State.goto_pc_self] at hgot
      cases hgot
      obtain ⟨-, hpage, hw⟩ := hold hp
      refine ⟨hkeeps, hbase, fun hr => ?_, fun _ hc => ?_⟩
      · rw [hw] at hr
        cases hr
      · rw [State.goto_slot, State.setSlot_slot_self]
        obtain ⟨dirty, rfl, hbit⟩ := Slot.fill_post hfill
        have hlt : c.lba - (s.slot k).lbaBase < 8 := by
          rw [hpage, Call.page, pageLba]
          lia
        have hmem : c.lba - (s.slot k).lbaBase ∈ (s.slot k).sectors c.lba c.count := by
          rw [Slot.sectors, List.mem_map]
          exact ⟨0, by simp; lia, rfl⟩
        have hset : ((s.slot k).valid ||| dirty).getLsbD (c.lba - (s.slot k).lbaBase) = true := by
          rw [BitVec.getLsbD_or, (hbit _ hlt).mpr (.inr hmem), Bool.or_true]
        apply ne_zero_of_getLsbD hset
  | take hp =>
      rw [State.goto_pc_self] at hgot
      split_ifs at hgot
  | stay hp =>
      rw [State.goto_pc_self] at hgot
      split_ifs at hgot
  | _ =>
      rw [State.goto_pc_self] at hgot
      cases hgot

/-- A step keeps the masks as they have to be. -/
theorem Move.masks {input : Input σ} {v : View σ} (h : Move debug n s input s')
    (hm : s.Masks n v) (hs : Sound n v s input) :
  s'.Masks n (v.after s' input)
  := by
  refine ⟨h.ok hm.ok, h.checked hm.ok hm.checked, h.usable_slot hm, h.whole hm hs, ?_⟩
  intro k c hv
  cases input with
  | get | upgrade | data | edit | flush =>
      apply h.obtained hm.ok (hm.obtained k c hv)
      rintro t flush ⟨⟩
  | relax t k' flush =>
      by_cases hk : k = k'
      · subst hk
        simp only [View.after, Function.update_self] at hv
        cases hv
      · simp only [View.after, Function.update_of_ne hk] at hv
        apply h.obtained hm.ok (hm.obtained k c hv)
        rintro t' flush' ⟨⟩
        apply hk rfl
  | run t ok now =>
      have hin : ∀ t' flush, (Input.run t ok now : Input σ) ≠ .relax t' k flush := by
        rintro t' flush ⟨⟩
      rw [View.after] at hv
      split at hv
      case h_1 k' c' hgot =>
        by_cases hk : k = k'
        · subst hk
          simp only [View.got, Function.update_self] at hv
          cases hv
          apply h.got hm.ok hgot
        · simp only [View.got, Function.update_of_ne hk] at hv
          apply h.obtained hm.ok (hm.obtained k c hv) hin
      case h_2 => apply h.obtained hm.ok (hm.obtained k c hv) hin

/-! ### No assertion fails -/

/-- No assertion fails inside the cache. -/
theorem State.Masks.run {v : View σ} (hm : s.Masks n v) {ok : Bool} {now : ℕ} :
  s.run true n t ok now ≠ .error .assertFailed
  := by
  have hold : ∀ {p}, s.pc t = p → p.Ok n s t := by
    intro p hp
    rw [← hp]
    apply hm.ok t
  rw [State.run]
  cases hpc : s.pc t with
  | idle => rintro ⟨⟩
  | got k c => rintro ⟨⟩
  | search c times index target =>
      simp only
      rw [assert_eq_ok (fun _ => c.page_eq), Except.ok_bind]
      by_cases hi : index < n
      · rw [if_pos hi]
        split_ifs
        · rintro ⟨⟩
        · rintro ⟨⟩
      · rw [if_neg hi]
        cases target with
        | none =>
            simp only
            split_ifs
            · rintro ⟨⟩
            · rintro ⟨⟩
        | some k =>
            simp only
            by_cases hf : s.free k = true
            · rw [if_pos hf]
              rintro ⟨⟩
            · rw [if_neg hf]
              split_ifs
              · rintro ⟨⟩
              · rintro ⟨⟩
  | lock c times index target => rintro ⟨⟩
  | locked c times index target =>
      simp only
      split_ifs
      · rintro ⟨⟩
      · rintro ⟨⟩
      · rintro ⟨⟩
  | probe c times index target => rintro ⟨⟩
  | load k c =>
      obtain ⟨howns, hmatch, -⟩ := hold hpc
      obtain ⟨hv, hbase⟩ := Slot.isMatch_iff.mp hmatch
      simp only
      rw [assert_eq_ok (fun _ => howns.free_eq), assert_eq_ok (fun _ => hbase)]
      simp only [Except.ok_bind]
      split_ifs with hfull
      · rintro ⟨⟩
      · have hdirty : (s.slot k).dirty ≠ 0 := by
          rcases hm.usable k with (h | h | h) | ⟨t', cont, hp, hc⟩
          · apply absurd h hv
          · apply absurd h hfull
          · apply h
          · -- the thread that is about to take the page away would have the lock as well
            have hok' := hm.ok t'
            rw [hp] at hok'
            have heq := hok'.1.2
            rw [howns.2] at heq
            cases heq
            rw [hpc] at hp
            cases hp
        rw [assert_eq_ok (fun _ => hdirty)]
        rintro ⟨⟩
  | reload k c alignedLba =>
      obtain ⟨howns, rfl, -⟩ := hold hpc
      simp only
      rw [assert_eq_ok (fun _ => howns.free_eq), assert_eq_ok (fun _ => c.page_eq)]
      rintro ⟨⟩
  | read k c =>
      simp only
      split_ifs
      · rintro ⟨⟩
      · rintro ⟨⟩
  | store k c =>
      simp only
      rw [assert_eq_ok (fun _ => (hold hpc).1.free_eq)]
      simp only [Except.ok_bind]
      split_ifs
      · rintro ⟨⟩
      · rintro ⟨⟩
  | fill k c =>
      obtain ⟨-, hbase, -⟩ := hold hpc
      have hcount : c.count ≤ count c.lba := by
        apply hm.checked t c
        rw [hpc]
        rfl
      have hsectors : ∀ i ∈ (s.slot k).sectors c.lba c.count, i < 8 := by
        intro i hi
        rw [Slot.sectors, List.mem_map] at hi
        obtain ⟨j, hj, rfl⟩ := hi
        rw [hbase]
        apply lt_of_le_count hcount (List.mem_range.mp hj)
      obtain ⟨slot, hfill⟩ := (s.slot k).fill_pre c.lba c.count now (fun _ => hsectors)
      simp only
      rw [hfill]
      rintro ⟨⟩
  | flush k cont =>
      simp only
      rw [assert_eq_ok (fun _ => (hold hpc).1.free_eq)]
      simp only [Except.ok_bind]
      split_ifs
      · rintro ⟨⟩
      · rintro ⟨⟩
  | flushLoop k i head cont =>
      simp only
      split_ifs
      all_goals rintro ⟨⟩
  | flushed k cont res =>
      simp only
      cases cont with
      | reload c alignedLba =>
          simp only
          split_ifs
          · rintro ⟨⟩
          · rintro ⟨⟩
      | store c =>
          simp only
          split_ifs
          · rintro ⟨⟩
          · rintro ⟨⟩
      | relax => rintro ⟨⟩
      | sweep => rintro ⟨⟩
  | sweep index =>
      simp only
      split_ifs
      all_goals rintro ⟨⟩

/-- No assertion fails. -/
theorem State.Masks.next {v : View σ} (hm : s.Masks n v) {input : Input σ}
    (hen : s.enabled n input = true) (hs : Sound n v s input) :
  s.next true n input ≠ .error .assertFailed
  := by
  have hdata : ∀ {k lba}, (∃ c ∈ v.obtained k, pageLba lba = c.page ∧
      (c.write = true → c.count = 0 → (s.slot k).valid ≠ 0)) →
      ∃ i, (s.slot k).data true lba = .ok i := by
    rintro k lba ⟨c, hc, hpage, hw⟩
    have ho := hm.obtained k c hc
    have hv : (s.slot k).valid ≠ 0 := by
      cases hwrite : c.write with
      | true =>
          by_cases hcount : c.count = 0
          · apply hw hwrite hcount
          · apply ho.write hwrite hcount
      | false =>
          rw [ho.read hwrite]
          decide
    rw [Slot.data, assert_eq_ok (fun _ => hv),
      assert_eq_ok (fun _ => by rw [ho.lbaBase, hpage])]
    exact ⟨_, rfl⟩
  cases input with
  | get t c =>
      rw [State.next]
      split_ifs
      · rintro ⟨⟩
      · rintro ⟨⟩
  | upgrade t k lba cnt =>
      obtain ⟨c, hc, hw⟩ := hs
      have howns := (State.holds_iff.mp hen).2
      have ho := hm.obtained k c hc
      rw [State.next, assert_eq_ok (fun _ => howns.1), assert_eq_ok (fun _ => howns.free_eq)]
      simp only [Except.ok_bind]
      split_ifs with hcheck
      · rintro ⟨⟩
      · rw [not_or, ne_eq, not_not] at hcheck
        have hsectors : ∀ i ∈ (s.slot k).sectors lba cnt,
            i < 8 ∧ (s.slot k).valid.getLsbD i = true := by
          intro i hi
          have hlt : i < 8 := by
            rw [Slot.sectors, List.mem_map] at hi
            obtain ⟨j, hj, rfl⟩ := hi
            rw [← hcheck.1]
            apply lt_of_le_count (by omega) (List.mem_range.mp hj)
          use hlt
          cases hwrite : c.write with
          | true => apply hw hwrite i hi
          | false => apply eq_full_iff.mp (ho.read hwrite) i hlt
        have hret : ∃ slot, (s.slot k).upgrade true lba cnt = .ok slot :=
          Slot.upgrade_pre _ lba cnt (fun _ => hsectors)
        obtain ⟨slot, hup⟩ := hret
        rw [hup]
        rintro ⟨⟩
  | data t k lba =>
      obtain ⟨i, hi⟩ := hdata hs
      rw [State.next, hi]
      rintro ⟨⟩
  | edit t k lba value =>
      obtain ⟨i, hi⟩ := hdata hs
      rw [State.next, hi]
      rintro ⟨⟩
  | relax t k flush =>
      rw [State.next, assert_eq_ok (fun _ => (State.holds_iff.mp hen).2.1)]
      rintro ⟨⟩
  | flush t => rintro ⟨⟩
  | run t ok now => apply hm.run

/-! ### Runs -/

/-- In every run of a debug build whose inputs are sound, a page that is partially valid has
dirty sectors unless it is about to be given up, and no sound input makes an assertion fail. -/
theorem Run.usable {disk : ℕ → σ} {v : View σ} (h : Run true n (Sound n) disk v s) :
  (∀ k, (s.slot k).Usable ∨ s.Leaving k) ∧
    ∀ input, s.enabled n input = true → Sound n v s input →
      s.next true n input ≠ .error .assertFailed
  := by
  have hm : s.Masks n v := by
    induction h with
    | new slot hslot =>
        constructor
        · intro t
          trivial
        · rintro t c ⟨⟩
        · intro k
          left
          left
          apply (hslot k).1
        · intro t
          trivial
        · rintro k c ⟨⟩
    | step input _ hen hs heq ih => apply (move_of_next hen heq).masks ih hs
  exact ⟨hm.usable, fun input hen hs => hm.next hen hs⟩

/-- A client writes a whole page, and gives it back with a flush. -/
theorem usable_whole :
  ∃ (v : View ℕ) (s : State ℕ), Run true 1 (Sound 1) (fun _ => 0) v s ∧
    s.pc 0 = .got 0 ⟨0, 8, true⟩ ∧ s.next true 1 (.relax 0 0 true) ≠ .error .assertFailed
  := by
  have h₀ : Run true 1 (Sound 1) (fun _ => 0) _ empty := Run.new _ fun _ => ⟨rfl, rfl, rfl⟩
  have h₁ := h₀.step (.get 0 ⟨0, 8, true⟩) rfl trivial rfl
  have h₂ := h₁.step (.run 0 true 0) rfl ⟨rfl, by rintro _ ⟨⟩⟩ rfl
  have h₃ := h₂.step (.run 0 true 0) rfl ⟨rfl, by rintro _ ⟨⟩⟩ rfl
  have h₄ := h₃.step (.run 0 true 0) rfl ⟨rfl, by rintro _ ⟨⟩⟩ rfl
  have h₅ := h₄.step (.run 0 true 0) rfl ⟨rfl, by rintro _ ⟨⟩⟩ rfl
  have h₆ := h₅.step (.run 0 true 0) rfl ⟨rfl, by rintro _ ⟨⟩⟩ rfl
  exact ⟨_, _, h₆, rfl, h₆.usable.2 _ rfl fun _ _ => rfl⟩

/-- Commands to the disk succeed. -/
def Succeeds : Input σ → Prop
  | .run _ ok _ => ok = true
  | _ => True

/-- The inputs of a client that writes the first sector of a page, gives it back and reads it
after a flush, up to `slot::load`. -/
def writeFlushRead : List (Input ℕ) :=
  List.flatten [
    [.get 0 ⟨0, 1, true⟩], List.replicate 5 (.run 0 true 0),
    [.relax 0 0 false, .run 0 true 0],
    [.flush 1], List.replicate 14 (.run 1 true 0),
    [.get 0 ⟨0, 1, false⟩], List.replicate 3 (.run 0 true 0)]

/-- A client writes the first sector of a page and gives it back, the page is flushed in the
background, and the client reads the sector: the assertion in `slot::load` fails. -/
theorem usable_flushed :
  ∃ v s, Run true 1 (fun _ _ input => Succeeds input) (fun _ => 0) v s ∧
    s.enabled 1 (.run 0 true 0) = true ∧ s.next true 1 (.run 0 true 0) = .error .assertFailed
  := by
  have hnew : Run true 1 (fun _ _ input => Succeeds input) (fun _ => 0) _ empty :=
    Run.new _ fun _ => ⟨rfl, rfl, rfl⟩
  have hexec : (empty.exec true 1 writeFlushRead).any (fun s =>
      s.enabled 1 (.run 0 true 0) && failed (s.next true 1 (.run 0 true 0))) = true := by
    rfl
  rw [Option.any_eq_true] at hexec
  obtain ⟨s, hexec, hlast⟩ := hexec
  rw [Bool.and_eq_true, failed_iff] at hlast
  have hok : ∀ input ∈ writeFlushRead, ∀ (_ : View ℕ) (_ : State ℕ), Succeeds input := by
    simp [writeFlushRead, Succeeds]
  obtain ⟨v, hrun⟩ := hnew.exec writeFlushRead hok hexec
  exact ⟨v, s, hrun, hlast.1, hlast.2⟩

end Disk

end UOS
