import Cofuos.Disk.Provenance

/-!
# Requests that fail

`disk_interface::get` locks the slot in which it finds the page, or the one that it takes for it, and
then calls `load`, `store` or `reload`. When these fail, because a command to the disk has failed,
`get` returns null and leaves the slot locked. Nobody gives it back: the caller has no slot to relax.

We follow one call of `get` by one thread, while the other threads do what they like, and note whether
a command that the call has issued has failed. As long as none has, the call has locked the slot that
it works on and no other. The call returns null exactly if a command has failed, and then it leaves one
more slot locked than it has found.
-/

namespace UOS

open Fault

namespace Disk

variable {σ : Type}

/-! ### Calls -/

/-- The next step of a thread issues a command to the disk. -/
def State.commands (s : State σ) (t : ℕ) : Bool :=
  match s.pc t with
  | .read _ _ => true
  | .flushLoop k i head _ => i ≤ 8 && !(s.slot k).dirty.getLsbD i && head != i
  | _ => false

/-- A command of the thread `t` fails. -/
def State.fails (s : State σ) (t : ℕ) : Input σ → Bool
  | .run t' ok _ => t' == t && !ok && s.commands t
  | _ => false

/-- A call of `get` by the thread `t`, from the state `s₀` on, whether a command of it has failed, and
the state that has been reached. The thread does nothing else, and the others do what they like. -/
inductive Getting [Zero σ] (debug : Bool) (n t : ℕ) (s₀ : State σ) :
    Origin → State σ → Bool → Prop
  | call {o : Origin} {s : State σ} (c : Call) : Traced debug n o s₀ →
      s₀.enabled n (.get t c) = true → s₀.next debug n (.get t c) = .ok s →
      Getting debug n t s₀ (o.after s₀ (.get t c)) s false
  | step {o : Origin} {s s' : State σ} {failed : Bool} (input : Input σ) :
      Getting debug n t s₀ o s failed → s.enabled n input = true → Contract s input →
      (input.thread = t → ∃ ok now, input = .run t ok now) →
      s.next debug n input = .ok s' →
      Getting debug n t s₀ (o.after s input) s' (failed || s.fails t input)

/-- The call has returned null. -/
def State.ReturnsNull (s : State σ) (t : ℕ) : Prop := s.pc t = .idle

/-- The thread `t` has locked the same slots. -/
def SameLocks (t : ℕ) (s₀ s : State σ) : Prop :=
  ∀ k, (s.slot k).objlock = some t ↔ (s₀.slot k).objlock = some t

/-- A call that returns null has left no lock, and no slot claims contents that are not those of its
page. -/
def LeavesNothing (t : ℕ) (s₀ : State σ) (o : Origin) (s : State σ) : Prop :=
  s.ReturnsNull t → SameLocks t s₀ s ∧ Honest o s

/-! ### Points of a call -/

/-- The thread is in a call of `get` of which no command has failed. -/
def Pc.inGet : Pc → Bool
  | .idle | .sweep _ => false
  | .flush _ cont | .flushLoop _ _ _ cont => cont.call.isSome
  | .flushed _ cont res => cont.call.isSome && res
  | _ => true

/-- The slot that a call has locked. -/
def Pc.taken : Pc → Option ℕ
  | .got k _ => some k
  | p => p.uses

/-- The thread `t` has locked the slot `k`. -/
def State.Locks (s : State σ) (t k : ℕ) : Prop := (s.slot k).objlock = some t

/-- What is known while a call goes on. -/
inductive Progress (t : ℕ) (s₀ s : State σ) : Bool → Prop
  | going : (s.pc t).inGet = true → (∀ k ∈ (s.pc t).taken, ¬ s₀.Locks t k) →
      (∀ k, s.Locks t k ↔ s₀.Locks t k ∨ k ∈ (s.pc t).taken) → Progress t s₀ s false
  | failed (k : ℕ) : (s.pc t = .idle ∨ ∃ cont, s.pc t = .flushed k cont false ∧ cont.call ≠ none) →
      ¬ s₀.Locks t k → (∀ j, s.Locks t j ↔ s₀.Locks t j ∨ j = k) → Progress t s₀ s true

variable {n t : ℕ} {o : Origin} {s₀ s s' : State σ} {failed : Bool}

/-! ### What a step does to the locks -/

/-- A step that stays in the call, and neither locks a slot nor gives one back. -/
theorem Progress.keep (h : Progress t s₀ s false) (hin : (s'.pc t).inGet = true)
    (htaken : (s'.pc t).taken = (s.pc t).taken) (hlocks : ∀ k, s'.Locks t k ↔ s.Locks t k) :
  Progress t s₀ s' false
  := by
  cases h with
  | going _ hnew hall =>
      refine .going hin ?_ ?_
      · rw [htaken]
        exact hnew
      · intro k
        rw [htaken, hlocks, hall]

theorem locks_setSlot {k : ℕ} {slot : Slot σ} (p : Pc) (h : slot.objlock = (s.slot k).objlock)
    (j : ℕ) :
  ((s.setSlot k slot).goto t p).Locks t j ↔ s.Locks t j
  := by
  rw [State.Locks, State.Locks, State.goto_slot]
  by_cases hj : j = k
  · rw [hj, State.setSlot_slot_self, h]
  · rw [State.setSlot_slot_of_ne _ _ hj]

/-- A step that locks a slot. -/
theorem Progress.lock (h : Progress t s₀ s false) {k : ℕ} {p : Pc} (hnone : (s.pc t).taken = none)
    (hfree : s.free k = true) (hin : p.inGet = true) (htaken : p.taken = some k) :
  Progress t s₀ ((s.lock t k).goto t p) false
  := by
  rw [State.free_iff] at hfree
  cases h with
  | going _ _ hall =>
      have hold : ∀ j, s.Locks t j ↔ s₀.Locks t j := by
        intro j
        rw [hall, hnone]
        exact ⟨fun hj => hj.resolve_right (fun hmem => by cases hmem), .inl⟩
      have hk : ¬ s.Locks t k := by
        intro hlock
        rw [State.Locks, hfree] at hlock
        cases hlock
      refine .going ?_ ?_ ?_
      · rw [State.goto_pc_self]
        exact hin
      · rw [State.goto_pc_self, htaken]
        rintro _ ⟨⟩ hlock
        exact hk ((hold k).2 hlock)
      · intro j
        rw [State.goto_pc_self, htaken, ← hold, Option.mem_some_iff, State.Locks, State.Locks,
          State.goto_slot, State.lock]
        by_cases hj : j = k
        · rw [hj, State.setSlot_slot_self]
          exact iff_of_true rfl (.inr rfl)
        · rw [State.setSlot_slot_of_ne _ _ hj]
          exact ⟨.inl, fun hor => hor.resolve_right fun heq => hj heq.symm⟩

/-- A step that gives the slot back that the call has locked. -/
theorem Progress.unlock (h : Progress t s₀ s false) {k : ℕ} {p : Pc}
    (hsome : (s.pc t).taken = some k) (hin : p.inGet = true) (htaken : p.taken = none) :
  Progress t s₀ ((s.unlock k).goto t p) false
  := by
  cases h with
  | going _ hnew hall =>
      rw [hsome] at hnew
      refine .going ?_ ?_ ?_
      · rw [State.goto_pc_self]
        exact hin
      · rw [State.goto_pc_self, htaken]
        rintro _ ⟨⟩
      · intro j
        have hj := hall j
        rw [hsome, Option.mem_some_iff] at hj
        rw [State.goto_pc_self, htaken, State.Locks, State.goto_slot, State.unlock]
        by_cases hjk : j = k
        · rw [hjk, State.setSlot_slot_self]
          apply iff_of_false (fun heq => by cases heq)
          rintro (hlock | hmem)
          · exact hnew k rfl hlock
          · cases hmem
        · rw [State.setSlot_slot_of_ne _ _ hjk]
          constructor
          · intro hlock
            exact .inl ((hj.1 hlock).resolve_right fun heq => hjk heq.symm)
          · rintro (hlock | hmem)
            · exact hj.2 (.inl hlock)
            · cases hmem

/-- A step in which a command fails. -/
theorem Progress.fail (h : Progress t s₀ s false) {k : ℕ} (hsome : (s.pc t).taken = some k)
    (hpc : s'.pc t = .idle ∨ ∃ cont, s'.pc t = .flushed k cont false ∧ cont.call ≠ none)
    (hlocks : ∀ j, s'.Locks t j ↔ s.Locks t j) :
  Progress t s₀ s' true
  := by
  cases h with
  | going _ hnew hall =>
      refine .failed k hpc (hnew k hsome) ?_
      intro j
      rw [hlocks, hall, hsome, Option.mem_some_iff, eq_comm (a := k)]

variable [Zero σ] {debug : Bool}

/-! ### Steps of other threads -/

/-- A thread does not lock a slot for another one. -/
theorem Move.locks {input : Input σ} (h : Move debug n s input s') (hok : s.Ok n) {k : ℕ}
    (ht : t ≠ input.thread) :
  s'.Locks t k ↔ s.Locks t k
  := by
  have hf := h.frame hok
  constructor
  · intro hlock
    by_contra hnot
    have hset : ∀ {t' k' slot p}, ((s.setSlot k' slot).goto t' p).Locks t k →
        (Slot.objlock slot = some t → (s.slot k').objlock = some t) → False := by
      intro t' k' slot p hl hslot
      rw [State.Locks, State.goto_slot] at hl
      by_cases hk : k = k'
      · rw [← hk, State.setSlot_slot_self] at hl
        rw [← hk] at hslot
        exact hnot (hslot hl)
      · rw [State.setSlot_slot_of_ne _ _ hk] at hl
        exact hnot hl
    have htake : ∀ {t' k' p}, t ≠ t' → ((s.lock t' k').goto t' p).Locks t k → False := by
      intro t' k' p hne hl
      apply hset hl
      intro heq
      exact absurd (Option.some.inj heq).symm hne
    have hdrop : ∀ {t' k' p}, ((s.unlock k').goto t' p).Locks t k → False := by
      intro t' k' p hl
      apply hset hl
      intro heq
      cases heq
    cases h with
    | take | lock | sweepTake => exact htake ht hlock
    | leave | relaxed | swept => exact hdrop hlock
    | upgrade _ _ _ hup =>
        obtain ⟨dirty, rfl, -⟩ := Slot.upgrade_post hup
        exact hset hlock id
    | fill _ hfill =>
        obtain ⟨dirty, rfl, -⟩ := Slot.fill_post hfill
        exact hset hlock id
    | edit | read | done | rebaseReload | rebaseStore => exact hset hlock id
    | _ => exact hnot hlock
  · intro hlock
    rw [State.Locks, hf.slot k t hlock ht]
    exact hlock

/-! ### Steps of the call -/

/-- The loop of `slot::flush` only fails when a command has failed. -/
theorem fails_of_flushed {ok : Bool} {now k i head : ℕ} {cont : Cont}
    (hp : s.pc t = .flushLoop k i head cont) (h : s.run debug n t ok now = .ok s')
    (hs : s'.pc t = .flushed k cont false) :
  s.fails t (.run t ok now) = true
  := by
  rw [State.run, hp] at h
  dsimp only at h
  have hgoto : ∀ {s₁ : State σ} {p : Pc}, (.ok (s₁.goto t p) : Except Fault (State σ)) = .ok s' →
      p = .flushed k cont false := by
    rintro s₁ p heq
    cases heq
    rw [State.goto_pc_self] at hs
    exact hs
  split_ifs at h with hi hbit hhead hok
  · cases hgoto h
  · cases hgoto h
  · rw [Bool.not_eq_true] at hok hbit
    rw [State.fails, State.commands, hp]
    simp [hi, hbit, hhead, hok]
  · cases hgoto h
  · cases hgoto h

/-- A step of the thread keeps what is known about its call. -/
theorem Progress.step (h : Progress t s₀ s failed) {ok : Bool} {now : ℕ}
    (hen : s.enabled n (.run t ok now) = true) (heq : s.run debug n t ok now = .ok s') :
  Progress t s₀ s' (failed || s.fails t (.run t ok now))
  := by
  have hnocmd : s.commands t = false → s.fails t (.run t ok now) = false := by
    intro hno
    rw [State.fails, hno, Bool.and_false]
  have hdone : ok = true → s.fails t (.run t ok now) = false := by
    rintro rfl
    rw [State.fails, Bool.not_true, Bool.and_false, Bool.false_and]
  cases failed with
  | true =>
      rw [Bool.true_or]
      cases h with
      | failed k hpc hnot hall =>
          rcases hpc with hidle | ⟨cont, hp, hcall⟩
          · rw [State.enabled, hidle] at hen
            cases hen
          · rw [State.run, hp] at heq
            have hs : s' = s.goto t .idle := by
              cases cont with
              | reload c a =>
                  cases heq
                  rfl
              | store c =>
                  cases heq
                  rfl
              | relax => exact absurd rfl hcall
              | sweep => exact absurd rfl hcall
            rw [hs]
            exact .failed k (.inl (State.goto_pc_self s t .idle)) hnot hall
  | false =>
      rw [Bool.false_or]
      have hin : (s.pc t).inGet = true := by
        cases h with
        | going hin _ _ => exact hin
      have hself : ∀ {s₁ : State σ} {p : Pc}, (s₁.goto t p).pc t = p := State.goto_pc_self _ _ _
      -- a step that neither locks a slot nor gives one back
      have hgoto : ∀ {p p' : Pc}, s.pc t = p → p'.inGet = true → p'.taken = p.taken →
          s.fails t (.run t ok now) = false →
          Progress t s₀ (s.goto t p') (s.fails t (.run t ok now)) := by
        intro p p' hp hin' htaken hfails
        rw [hfails]
        apply h.keep
        · rw [hself]
          exact hin'
        · rw [hself, hp, htaken]
        · exact fun _ => Iff.rfl
      have hset : ∀ {p p' : Pc} {k : ℕ} {slot : Slot σ}, s.pc t = p → p'.inGet = true →
          p'.taken = p.taken → slot.objlock = (s.slot k).objlock →
          s.fails t (.run t ok now) = false →
          Progress t s₀ ((s.setSlot k slot).goto t p') (s.fails t (.run t ok now)) := by
        intro p p' k slot hp hin' htaken hlock hfails
        rw [hfails]
        apply h.keep
        · rw [hself]
          exact hin'
        · rw [hself, hp, htaken]
        · exact locks_setSlot p' hlock
      have hcont : ∀ {p : Pc}, s.pc t = p → p.inGet = true := by
        rintro p rfl
        exact hin
      cases move_of_run hen heq with
      | hit hp | miss hp | again hp | probe hp | loadFull hp | loadPart hp | reload hp
      | storeOther hp | storeSame hp =>
          exact hgoto hp rfl rfl (hnocmd (by rw [State.commands, hp]))
      | stay hp =>
          apply hgoto hp _ _ (hnocmd (by rw [State.commands, hp]))
          · split_ifs
            · rfl
            · rfl
          · split_ifs
            · rfl
            · rfl
      | clean hp =>
          refine hgoto hp ?_ rfl (hnocmd (by rw [State.commands, hp]))
          rw [Pc.inGet, Bool.and_true]
          exact hcont hp
      | flushStart hp => exact hgoto hp (hcont hp :) rfl (hnocmd (by rw [State.commands, hp]))
      | skip hp _ hbit =>
          refine hgoto hp (hcont hp :) rfl (hnocmd ?_)
          rw [State.commands, hp]
          simp [hbit]
      | nothing hp =>
          refine hgoto hp (hcont hp :) rfl (hnocmd ?_)
          rw [State.commands, hp]
          simp
      | write hp =>
          rw [hdone rfl]
          exact h.keep (by rw [hself]; exact (hcont hp :)) (by rw [hself, hp]; rfl) fun _ => Iff.rfl
      | take hp _ hfree =>
          rw [hnocmd (by rw [State.commands, hp])]
          apply h.lock (by rw [hp]; rfl) hfree
          · split_ifs
            · rfl
            · rfl
          · split_ifs
            · rfl
            · rfl
      | lock hp hfree =>
          rw [hnocmd (by rw [State.commands, hp])]
          exact h.lock (by rw [hp]; rfl) hfree rfl rfl
      | leave hp =>
          rw [hnocmd (by rw [State.commands, hp])]
          exact h.unlock (by rw [hp]; rfl) rfl rfl
      | read hp => exact hset hp rfl rfl rfl (hdone rfl)
      | fill hp hfill =>
          obtain ⟨dirty, rfl, -⟩ := Slot.fill_post hfill
          exact hset hp rfl rfl rfl (hnocmd (by rw [State.commands, hp]))
      | done hp hi =>
          refine hset hp ?_ rfl rfl (hnocmd ?_)
          · rw [Pc.inGet, Bool.and_true]
            exact hcont hp
          · rw [State.commands, hp]
            simp [Nat.not_le.2 hi]
      | rebaseReload hp => exact hset hp rfl rfl rfl (hnocmd (by rw [State.commands, hp]))
      | rebaseStore hp => exact hset hp rfl rfl rfl (hnocmd (by rw [State.commands, hp]))
      | readFail hp =>
          have hfails : s.fails t (.run t false now) = true := by
            rw [State.fails, State.commands, hp]
            simp
          rw [hfails]
          exact h.fail (by rw [hp]; rfl) (.inl hself) fun _ => Iff.rfl
      | @writeFail _ _ k i head cont hp =>
          rw [fails_of_flushed hp heq hself]
          refine h.fail (by rw [hp]; rfl) (.inr ⟨cont, hself, ?_⟩) fun _ => Iff.rfl
          exact Option.isSome_iff_ne_none.1 (hcont hp)
      | fail hp | relaxed hp | swept hp | sweepTake hp | sweepSkip hp | sweepEnd hp =>
          have hfalse := hcont hp
          simp [Pc.inGet, Cont.call] at hfalse

/-- What is known in every state of a call. -/
theorem Getting.progress (h : Getting debug n t s₀ o s failed) :
  Traced debug n o s ∧ Progress t s₀ s failed
  := by
  induction h with
  | call c htraced hen heq =>
      refine ⟨htraced.step _ hen trivial heq, ?_⟩
      rw [State.next] at heq
      split_ifs at heq
      cases heq
      refine .going ?_ ?_ ?_
      · rw [State.goto_pc_self]
        rfl
      · rw [State.goto_pc_self]
        rintro _ ⟨⟩
      · intro k
        rw [State.goto_pc_self]
        exact ⟨.inl, fun hor => hor.resolve_right fun hmem => by cases hmem⟩
  | @step o s s' failed input _ hen hcontract hrun heq ih =>
      obtain ⟨htraced, hprogress⟩ := ih
      refine ⟨htraced.step input hen hcontract heq, ?_⟩
      have hok := htraced.noted.ok
      by_cases ht : input.thread = t
      · obtain ⟨ok, now, rfl⟩ := hrun ht
        exact hprogress.step hen heq
      · -- the other threads leave the call alone
        have hmove := move_of_next hen heq
        have hlocks : ∀ k, s'.Locks t k ↔ s.Locks t k := fun _ => hmove.locks hok (Ne.symm ht)
        have hpc := (hmove.frame hok).pc t (Ne.symm ht)
        have hfails : s.fails t input = false := by
          cases input with
          | run t' ok now =>
              have hne : t' ≠ t := ht
              rw [State.fails, beq_eq_false_iff_ne.2 hne, Bool.false_and, Bool.false_and]
          | _ => rfl
        rw [hfails, Bool.or_false]
        cases hprogress with
        | going hin hnew hall =>
            refine .going ?_ ?_ ?_
            · rw [hpc]
              exact hin
            · rw [hpc]
              exact hnew
            · intro k
              rw [hpc, hlocks, hall]
        | failed k hp hnot hall =>
            refine .failed k ?_ hnot fun j => (hlocks j).trans (hall j)
            rw [hpc]
            exact hp

/-- A call that has returned leaves no lock when it returns null exactly if no command has failed: it
returns null exactly if one has, and then leaves a lock. In all states no slot claims contents that are
not those of its page. -/
theorem leavesNothing_iff (debug : Bool) (n t : ℕ) (s₀ : State σ) (o : Origin) (s : State σ)
    (failed : Bool) (h : Getting debug n t s₀ o s failed) (hout : (s.pc t).outside = true) :
  Honest o s ∧ (s.ReturnsNull t ↔ failed = true) ∧ (LeavesNothing t s₀ o s ↔ failed = false)
  := by
  obtain ⟨htraced, hprogress⟩ := h.progress
  have hhonest := htraced.noted.honest
  refine ⟨hhonest, ?_⟩
  cases hprogress with
  | going hin =>
      have hnot : ¬ s.ReturnsNull t := by
        intro hnull
        rw [State.ReturnsNull] at hnull
        rw [hnull] at hin
        cases hin
      exact ⟨iff_of_false hnot Bool.false_ne_true, iff_of_true (fun hnull => absurd hnull hnot) rfl⟩
  | failed k hp hnot hall =>
      have hnull : s.ReturnsNull t := by
        rcases hp with hidle | ⟨cont, hp, -⟩
        · exact hidle
        · rw [hp] at hout
          cases hout
      refine ⟨iff_of_true hnull rfl, iff_of_false ?_ (fun hfalse => by cases hfalse)⟩
      intro hleaves
      exact hnot (((hleaves hnull).1 k).1 ((hall k).2 (.inr rfl)))

/-! ### Single calls -/

/-- A call goes on while the other threads do nothing. -/
theorem Getting.exec (inputs : List (Input σ)) (hall : ∀ input ∈ inputs, ∃ ok now, input = .run t ok now)
    (h : Getting debug n t s₀ o s failed) (hexec : s.exec debug n inputs = some s') :
  ∃ o' failed', Getting debug n t s₀ o' s' failed'
  := by
  induction inputs generalizing o s failed with
  | nil =>
      cases hexec
      exact ⟨o, failed, h⟩
  | cons input inputs ih =>
      rw [State.exec] at hexec
      split_ifs at hexec with hen
      split at hexec
      case h_1 s₁ heq =>
        obtain ⟨ok, now, rfl⟩ := hall input List.mem_cons_self
        exact ih (fun input' h' => hall input' (List.mem_cons_of_mem _ h'))
          (h.step _ hen trivial (fun _ => ⟨ok, now, rfl⟩) heq) hexec
      case h_2 => cases hexec

theorem traced_empty (debug : Bool) : Traced debug 1 (fun _ _ => none) empty :=
  .new _ _ (fun _ => ⟨rfl, rfl, rfl⟩) fun _ => rfl

/-- A call that reads a page into the only slot, up to the command and with its answer. -/
def readCall (ok : Bool) : List (Input ℕ) := List.replicate 6 (.run 0 true 0) ++ [.run 0 ok 0]

/-- The state after the call. -/
theorem getting_readCall {s : State ℕ} {ok : Bool}
    (h : (empty.goto 0 (.search ⟨8, 1, false⟩ 0 0 none)).exec false 1 (readCall ok) = some s) :
  ∃ o failed, Getting false 1 0 empty o s failed
  := by
  apply Getting.exec (readCall ok) _ (.call ⟨8, 1, false⟩ (traced_empty false) rfl rfl) h
  intro input hmem
  rw [readCall, List.mem_append, List.mem_replicate, List.mem_singleton] at hmem
  rcases hmem with ⟨-, rfl⟩ | rfl
  · exact ⟨true, 0, rfl⟩
  · exact ⟨ok, 0, rfl⟩

/-- A call whose command succeeds. -/
theorem leavesNothing_read :
  ∃ o s failed, Honest o s ∧ (State.ReturnsNull s 0 ↔ failed = true) ∧
    (LeavesNothing 0 (empty : State ℕ) o s ↔ failed = false)
  := by
  obtain ⟨s, hexec, hout⟩ : ∃ s, (empty.goto 0 (.search ⟨8, 1, false⟩ 0 0 none)).exec false 1
      (readCall true) = some s ∧ (s.pc 0).outside = true := ⟨_, rfl, rfl⟩
  obtain ⟨o, failed, h⟩ := getting_readCall hexec
  exact ⟨o, s, failed, leavesNothing_iff false 1 0 empty o s failed h hout⟩

/-- A call whose command fails returns null, and leaves the slot locked. -/
theorem leaves_lock :
  ∃ o s failed, Getting false 1 0 (empty : State ℕ) o s failed ∧ State.ReturnsNull s 0 ∧
    (s.slot 0).objlock = some 0 ∧ ¬ LeavesNothing 0 empty o s
  := by
  obtain ⟨s, hexec, hnull, hlock⟩ : ∃ s, (empty.goto 0 (.search ⟨8, 1, false⟩ 0 0 none)).exec false 1
      (readCall false) = some s ∧ s.ReturnsNull 0 ∧ (s.slot 0).objlock = some 0 := ⟨_, rfl, rfl, rfl⟩
  obtain ⟨o, failed, h⟩ := getting_readCall hexec
  refine ⟨o, s, failed, h, hnull, hlock, ?_⟩
  intro hleaves
  have hold : ((empty : State ℕ).slot 0).objlock = some 0 := ((hleaves hnull).1 0).1 hlock
  cases hold

end Disk

end UOS
