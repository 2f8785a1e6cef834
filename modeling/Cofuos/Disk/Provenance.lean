import Cofuos.Disk.Moves

/-!
# What the contents of a slot are of

The contents of a slot are read from the disk, filled with zeros by `store`, or written by the client
that holds the slot. Each of these is for some sector of the disk, which we note beside the contents.
The sectors of a slot that are marked valid are noted to be those of the page of the slot, in every run,
whatever commands to the disk fail: `reload` and `store` first mark all sectors invalid when they give a
slot another page, and `reload` marks them valid only when the command has succeeded.

What the clients do is what the cache asserts: they mark only sectors that are valid, and write to
sectors of the page of a slot.
-/

namespace UOS

open Fault

namespace Disk

variable {σ : Type}

/-- The sectors of the disk that the contents of the slots are of. -/
abbrev Origin : Type := ℕ → ℕ → Option ℕ

/-- The sectors that a call of `store` fills. -/
def Slot.filled (slot : Slot σ) (lba cnt : ℕ) (o : ℕ → Option ℕ) : ℕ → Option ℕ := fun i =>
  if i ∈ slot.sectors lba cnt then some (lba + (i - (lba - slot.lbaBase))) else o i

/-- The sectors that a successful command reads into a slot. -/
def Slot.fetched (slot : Slot σ) : ℕ → Option ℕ := fun i => some (slot.lbaBase + i)

/-- What the contents are of after a step in the state `s`. -/
def Origin.after (o : Origin) (s : State σ) : Input σ → Origin
  | .edit _ k lba _ =>
      Function.update o k (Function.update (o k) (lba - (s.slot k).lbaBase) (some lba))
  | .run t ok _ => match s.pc t with
      | .read k _ => if ok = true then Function.update o k (s.slot k).fetched else o
      | .fill k c => Function.update o k ((s.slot k).filled c.lba c.count (o k))
      | _ => o
  | _ => o

/-- What the cache asserts about its clients. -/
def Contract (s : State σ) : Input σ → Prop
  | .upgrade _ k lba cnt => ∀ i ∈ (s.slot k).sectors lba cnt, (s.slot k).valid.getLsbD i = true
  | .edit _ k lba _ => (s.slot k).lbaBase = pageLba lba
  | _ => True

/-- The runs of a cache of `n` slots, with what the contents are of. Any command may fail. -/
inductive Traced [Zero σ] (debug : Bool) (n : ℕ) : Origin → State σ → Prop
  | new (s : State σ) (o : Origin) (hslot : ∀ k, (s.slot k).valid = 0 ∧ (s.slot k).dirty = 0 ∧
      (s.slot k).objlock = none) (hpc : ∀ t, s.pc t = .idle) : Traced debug n o s
  | step {o : Origin} {s s' : State σ} (input : Input σ) : Traced debug n o s →
      s.enabled n input = true → Contract s input → s.next debug n input = .ok s' →
      Traced debug n (o.after s input) s'

/-- No slot claims contents that are not those of its page. -/
def Honest (o : Origin) (s : State σ) : Prop :=
  ∀ k, ∀ i < 8, (s.slot k).valid.getLsbD i = true → o k i = some ((s.slot k).lbaBase + i)

/-- Sectors that are dirty are valid. -/
def Slot.Tidy (slot : Slot σ) : Prop :=
  ∀ i < 8, slot.dirty.getLsbD i = true → slot.valid.getLsbD i = true

/-- A slot that is about to lose its page has no dirty sector. -/
def Pc.Clean (s : State σ) : Pc → Prop
  | .flushed k cont true => cont.call ≠ none → (s.slot k).dirty = 0
  | _ => True

/-- The origins and the masks of a run. -/
structure Noted (n : ℕ) (o : Origin) (s : State σ) : Prop where
  ok : s.Ok n
  honest : Honest o s
  tidy : ∀ k, (s.slot k).Tidy
  clean : ∀ t, (s.pc t).Clean s

variable {n : ℕ} {o o' : Origin} {s s' : State σ} {t : ℕ}

/-! ### Steps that leave the masks alone -/

/-- Whether a slot is clean does not depend on the slots of others. -/
theorem Pc.Clean.frame {p : Pc} {t' : ℕ} (h : p.Clean s) (hok : p.Ok n s t') (hf : Frame s s' t)
    (ht : t' ≠ t) :
  p.Clean s'
  := by
  cases p with
  | flushed k cont res =>
      cases res with
      | false => trivial
      | true =>
          rw [Pc.Clean, hf.slot k t' hok.1.2 ht]
          exact h
  | _ => trivial

/-- The slots keep their page and their masks. -/
def SamePages (s s' : State σ) : Prop :=
  ∀ k, (s'.slot k).lbaBase = (s.slot k).lbaBase ∧ (s'.slot k).valid = (s.slot k).valid ∧
    (s'.slot k).dirty = (s.slot k).dirty

theorem samePages_goto (p : Pc) : SamePages s (s.goto t p) := fun _ => ⟨rfl, rfl, rfl⟩

theorem samePages_setSlot {k : ℕ} {slot : Slot σ} (p : Pc) (hbase : slot.lbaBase = (s.slot k).lbaBase)
    (hvalid : slot.valid = (s.slot k).valid) (hdirty : slot.dirty = (s.slot k).dirty) :
  SamePages s ((s.setSlot k slot).goto t p)
  := by
  intro k'
  by_cases hk : k' = k
  · subst hk
    rw [State.goto_slot, State.setSlot_slot_self]
    exact ⟨hbase, hvalid, hdirty⟩
  · rw [State.goto_slot, State.setSlot_slot_of_ne _ _ hk]
    exact ⟨rfl, rfl, rfl⟩

theorem samePages_disk (disk : ℕ → σ) (p : Pc) : SamePages s ({ s with disk := disk }.goto t p) :=
  fun _ => ⟨rfl, rfl, rfl⟩

theorem samePages_lock {k : ℕ} (p : Pc) : SamePages s ((s.lock t k).goto t p) :=
  samePages_setSlot p rfl rfl rfl

theorem samePages_unlock {k : ℕ} (p : Pc) : SamePages s ((s.unlock k).goto t p) :=
  samePages_setSlot p rfl rfl rfl

theorem SamePages.honest (h : SamePages s s') (ho : Honest o s) : Honest o s' := by
  intro k i hi hv
  rw [(h k).1]
  rw [(h k).2.1] at hv
  exact ho k i hi hv

theorem SamePages.tidy (h : SamePages s s') (ht : ∀ k, (s.slot k).Tidy) (k : ℕ) :
  (s'.slot k).Tidy
  := by
  intro i hi hd
  rw [(h k).2.1]
  rw [(h k).2.2] at hd
  exact ht k i hi hd

/-- One slot is replaced by one that is honest and tidy. -/
theorem honest_setSlot {k : ℕ} {slot : Slot σ} {f : ℕ → Option ℕ} (p : Pc) (ho : Honest o s)
    (hslot : ∀ i < 8, slot.valid.getLsbD i = true → f i = some (slot.lbaBase + i)) :
  Honest (Function.update o k f) ((s.setSlot k slot).goto t p)
  := by
  intro k' i hi hv
  by_cases hk : k' = k
  · subst hk
    rw [State.goto_slot, State.setSlot_slot_self] at hv ⊢
    rw [Function.update_self]
    exact hslot i hi hv
  · rw [State.goto_slot, State.setSlot_slot_of_ne _ _ hk] at hv ⊢
    rw [Function.update_of_ne hk]
    exact ho k' i hi hv

theorem honest_setSlot_same {k : ℕ} {slot : Slot σ} (p : Pc) (ho : Honest o s)
    (hslot : ∀ i < 8, slot.valid.getLsbD i = true → o k i = some (slot.lbaBase + i)) :
  Honest o ((s.setSlot k slot).goto t p)
  := by
  have h := honest_setSlot (t := t) (k := k) p ho hslot
  rwa [Function.update_eq_self] at h

theorem tidy_setSlot {k : ℕ} {slot : Slot σ} (p : Pc) (ht : ∀ k, (s.slot k).Tidy) (hslot : slot.Tidy)
    (k' : ℕ) :
  (((s.setSlot k slot).goto t p).slot k').Tidy
  := by
  by_cases hk : k' = k
  · subst hk
    rw [State.goto_slot, State.setSlot_slot_self]
    exact hslot
  · rw [State.goto_slot, State.setSlot_slot_of_ne _ _ hk]
    exact ht k'

theorem pageLba_le (lba : ℕ) : pageLba lba ≤ lba := Nat.div_mul_le_self lba 8

/-- A step of a thread that reads nothing and fills nothing leaves the origins alone. -/
theorem after_run {ok : Bool} {now : ℕ} {p : Pc} (hp : s.pc t = p) (hread : ∀ k c, p ≠ .read k c)
    (hfill : ∀ k c, p ≠ .fill k c) :
  o.after s (.run t ok now) = o
  := by
  rw [Origin.after, hp]
  cases p with
  | read k c => exact absurd rfl (hread k c)
  | fill k c => exact absurd rfl (hfill k c)
  | _ => rfl

/-- The sectors that are filled are noted to be those of the page. -/
theorem Slot.filled_eq {slot : Slot σ} {lba cnt i : ℕ} {f : ℕ → Option ℕ} (hbase : slot.lbaBase ≤ lba)
    (hi : i ∈ slot.sectors lba cnt) :
  slot.filled lba cnt f i = some (slot.lbaBase + i)
  := by
  rw [Slot.filled, if_pos hi]
  rw [Slot.mem_sectors hbase] at hi
  congr 1
  lia

/-- A step that leaves the pages of the slots and the origins alone keeps what is noted. -/
theorem SamePages.noted (h : SamePages s s') (hn : Noted n o s) (ho : o' = o) :
  Honest o' s' ∧ ∀ k, (s'.slot k).Tidy
  := by
  rw [ho]
  exact ⟨h.honest hn.honest, h.tidy hn.tidy⟩

/-! ### Steps -/

variable [Zero σ] {debug : Bool}

/-- After a step, a slot that is about to lose its page has no dirty sector. -/
theorem Move.keeps_clean {input : Input σ} (h : Move debug n s input s') (hok : s.Ok n)
    (hc : ∀ t, (s.pc t).Clean s) :
  ∀ t, (s'.pc t).Clean s'
  := by
  have hf := h.frame hok
  suffices hsuff : (s'.pc input.thread).Clean s' by
    intro t
    by_cases ht : t = input.thread
    · rw [ht]
      exact hsuff
    · rw [hf.pc t ht]
      exact (hc t).frame (hok t) hf ht
  cases h with
  | clean hp hd =>
      rw [Input.thread, State.goto_pc_self]
      exact fun _ => hd
  | done hp hi =>
      rw [Input.thread, State.goto_pc_self]
      intro _
      rw [State.goto_slot, State.setSlot_slot_self]
  | relax hh =>
      rw [Input.thread, State.goto_pc_self]
      exact fun hcall => absurd rfl hcall
  | take | stay =>
      rw [Input.thread, State.goto_pc_self]
      split_ifs
      · trivial
      · trivial
  | _ =>
      rw [Input.thread, State.goto_pc_self]
      trivial

/-- A step of the cache, or of a client that does what the cache asserts, keeps what is noted. -/
theorem Move.noted {input : Input σ} (h : Move debug n s input s') (hn : Noted n o s)
    (hcontract : Contract s input) :
  Noted n (o.after s input) s'
  := by
  have hpc : ∀ {t p}, s.pc t = p → p.Ok n s t := by
    intro t p heq
    rw [← heq]
    apply hn.ok t
  have hclean : ∀ {t p}, s.pc t = p → p.Clean s := by
    intro t p heq
    rw [← heq]
    apply hn.clean t
  suffices hsuff : Honest (o.after s input) s' ∧ ∀ k, (s'.slot k).Tidy from
    ⟨h.ok hn.ok, hsuff.1, hsuff.2, h.keeps_clean hn.ok hn.clean⟩
  cases h with
  | get | data | relaxFlush | relax | flush => exact (samePages_goto _).noted hn rfl
  | hit hp | miss hp | again hp | stay hp | probe hp | loadFull hp | loadPart hp | reload hp
  | storeOther hp | storeSame hp | clean hp | flushStart hp | skip hp | writeFail hp | nothing hp
  | fail hp | sweepSkip hp | sweepEnd hp =>
      exact (samePages_goto _).noted hn
        (after_run hp (fun _ _ heq => by cases heq) (fun _ _ heq => by cases heq))
  | take hp | lock hp | sweepTake hp =>
      exact (samePages_lock _).noted hn
        (after_run hp (fun _ _ heq => by cases heq) (fun _ _ heq => by cases heq))
  | leave hp | relaxed hp | swept hp =>
      exact (samePages_unlock _).noted hn
        (after_run hp (fun _ _ heq => by cases heq) (fun _ _ heq => by cases heq))
  | write hp =>
      exact (samePages_disk _ _).noted hn
        (after_run hp (fun _ _ heq => by cases heq) (fun _ _ heq => by cases heq))
  | @readFail t now k c hp =>
      have hafter : o.after s (.run t false now) = o := by
        rw [Origin.after, hp]
        rfl
      exact (samePages_goto _).noted hn hafter
  | @upgrade t k lba cnt slot _ _ _ hup =>
      obtain ⟨dirty, rfl, hbit⟩ := Slot.upgrade_post hup
      constructor
      · exact honest_setSlot_same _ hn.honest fun i hi hv => hn.honest k i hi hv
      · apply tidy_setSlot _ hn.tidy
        intro i hi hd
        rcases (hbit i hi).1 hd with hold | hmem
        · exact hn.tidy k i hi hold
        · exact hcontract i hmem
  | @edit t k lba value _ =>
      constructor
      · apply honest_setSlot _ hn.honest
        intro i hi hv
        by_cases hlba : i = lba - (s.slot k).lbaBase
        · have hle : (s.slot k).lbaBase ≤ lba := by
            rw [show (s.slot k).lbaBase = pageLba lba from hcontract]
            exact pageLba_le lba
          rw [hlba, Function.update_self]
          congr 1
          exact (Nat.add_sub_cancel' hle).symm
        · rw [Function.update_of_ne hlba]
          exact hn.honest k i hi hv
      · exact tidy_setSlot _ hn.tidy fun i hi hd => hn.tidy k i hi hd
  | @read t now k c hp =>
      rw [Origin.after, hp]
      constructor
      · exact honest_setSlot _ hn.honest fun i _ _ => rfl
      · exact tidy_setSlot _ hn.tidy fun i hi _ => eq_full_iff.1 rfl i hi
  | @fill t now ok k c slot hp hfill =>
      obtain ⟨dirty, rfl, hbit⟩ := Slot.fill_post hfill
      have hbase : (s.slot k).lbaBase ≤ c.lba := by
        rw [(hpc hp).2.1]
        exact pageLba_le c.lba
      rw [Origin.after, hp]
      constructor
      · apply honest_setSlot _ hn.honest
        intro i hi hv
        by_cases hmem : i ∈ (s.slot k).sectors c.lba c.count
        · exact Slot.filled_eq hbase hmem
        · rw [Slot.filled, if_neg hmem]
          apply hn.honest k i hi
          rw [BitVec.getLsbD_or, Bool.or_eq_true] at hv
          rcases hv with hv | hd
          · exact hv
          · rcases (hbit i hi).1 hd with hold | hmem'
            · exact hn.tidy k i hi hold
            · exact absurd hmem' hmem
      · apply tidy_setSlot _ hn.tidy
        intro i hi hd
        rw [BitVec.getLsbD_or, Bool.or_eq_true]
        exact .inr hd
  | @done t now ok k i head cont hp hi =>
      rw [after_run hp (fun _ _ heq => by cases heq) (fun _ _ heq => by cases heq)]
      constructor
      · exact honest_setSlot_same _ hn.honest fun i hi hv => hn.honest k i hi hv
      · apply tidy_setSlot _ hn.tidy
        intro i _ hd
        simp at hd
  | @rebaseReload t now ok k c alignedLba hp =>
      rw [after_run hp (fun _ _ heq => by cases heq) (fun _ _ heq => by cases heq)]
      have hdirty : (s.slot k).dirty = 0 := hclean hp fun hnone => by cases hnone
      constructor
      · apply honest_setSlot_same _ hn.honest
        intro i _ hv
        simp [Slot.rebase] at hv
      · apply tidy_setSlot _ hn.tidy
        intro i _ hd
        rw [show ((s.slot k).rebase alignedLba).dirty = 0 from hdirty] at hd
        simp at hd
  | @rebaseStore t now ok k c hp =>
      rw [after_run hp (fun _ _ heq => by cases heq) (fun _ _ heq => by cases heq)]
      have hdirty : (s.slot k).dirty = 0 := hclean hp fun hnone => by cases hnone
      constructor
      · apply honest_setSlot_same _ hn.honest
        intro i _ hv
        simp [Slot.rebase] at hv
      · apply tidy_setSlot _ hn.tidy
        intro i _ hd
        rw [show ((s.slot k).rebase c.page).dirty = 0 from hdirty] at hd
        simp at hd

/-- In every run, no slot claims contents that are not those of its page. -/
theorem Traced.noted (h : Traced debug n o s) : Noted n o s := by
  induction h with
  | new s o hslot hpc =>
      refine ⟨?_, ?_, ?_, ?_⟩
      · intro t
        rw [hpc]
        trivial
      · intro k i _ hv
        rw [(hslot k).1] at hv
        simp at hv
      · intro k i _ hd
        rw [(hslot k).2.1] at hd
        simp at hd
      · intro t
        rw [hpc]
        trivial
  | step input _ hen hcontract heq ih => exact (move_of_next hen heq).noted ih hcontract

end Disk

end UOS
