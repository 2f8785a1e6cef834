import Cofuos.Process.Dispatch

/-!
# Every thread is in one place

Each step of the scheduler moves threads from one place to another, so that in every state every
thread has one place. A thread that the collector has taken from its queue is in none of those from
which it could come back.
-/

namespace UOS

namespace Scheduler

variable {τ κ : Type} [DecidableEq τ] [DecidableEq κ] {s s' : Scheduler τ κ}
  {place place' : τ → Place τ κ} {Q : Queues (QueueId τ κ) τ} {q : QueueId τ κ} {p : Place τ κ} {t : τ}

/-! ### Timeouts and kills -/

/-- A thread that waits is taken from the queue that it is on, if any. -/
theorem Kept.detach {s₀ : Scheduler τ κ} (h : s.Kept place) (hqueues : s₀.queues = s.queues)
    (hborn : s₀.born = s.born) (ht : (∃ o, place t = .queued (.wait o)) ∨ place t = .sleeping) :
  ∃ Q, s₀.leaveQueue t (s.thread t).waitFor = some { s₀ with queues := Q } ∧
    Laid Q (Function.update place t .held)
  := by
  have hfits := h.fits t
  rcases ht with ⟨o, ht⟩ | ht
  · rw [ht] at hfits
    obtain ⟨Q, hQ, hlaid⟩ := @Laid.unlink _ _ _ _ _ _ _ _ s₀.fuel s.born h.laid ht
      (by
        intro u hu
        rw [h.born, hu]
        intro heq
        cases heq)
      (by
        rw [fuel, hborn]
        apply Nat.le_succ)
    refine ⟨Q, ?_, hlaid⟩
    rw [hfits.2, leaveQueue, cancel, hqueues, hQ, Option.map_some]
  · rw [ht] at hfits
    refine ⟨s₀.queues, ?_, ?_⟩
    · rw [hfits.2.1, leaveQueue]
    · rw [hqueues]
      apply h.laid.relabel
      · rw [ht]
        intro q heq
        cases heq
      · intro q heq
        cases heq

omit [DecidableEq τ] [DecidableEq κ] in
/-- The place of a thread that has a ticket, between the steps. -/
theorem Kept.waits_of_ticket (h : s.Kept place) (hnone : ∀ u, place u ≠ .held)
    (ht : (s.thread t).timerTicket ≠ 0) :
  (∃ o, place t = .queued (.wait o)) ∨ place t = .sleeping
  := by
  have hfits := h.fits t
  cases hplace : place t with
  | queued q =>
      cases q with
      | wait o => exact .inl ⟨o, rfl⟩
      | ready i =>
          rw [hplace] at hfits
          exact absurd hfits.2.ticket ht
      | gc =>
          rw [hplace] at hfits
          exact absurd hfits.2.ticket ht
  | sleeping => exact .inr rfl
  | held => exact absurd hplace (hnone t)
  | unborn =>
      rw [hplace] at hfits
      exact absurd hfits ht
  | running =>
      rw [hplace] at hfits
      exact absurd hfits.2.ticket ht
  | gcPtr =>
      rw [hplace] at hfits
      exact absurd hfits.2.ticket ht
  | collected =>
      rw [hplace] at hfits
      exact absurd hfits.2.ticket ht

omit [DecidableEq τ] [DecidableEq κ] in
/-- A thread that waits has a plain place, and is not running. -/
theorem Kept.plain_of_waits (h : s.Kept place)
    (ht : (∃ o, place t = .queued (.wait o)) ∨ place t = .sleeping) :
  (place t).Plain ∧ (s.thread t).state = .waiting
  := by
  have hfits := h.fits t
  rcases ht with ⟨o, ht⟩ | ht
  · rw [ht] at hfits ⊢
    exact ⟨trivial, hfits.1⟩
  · rw [ht] at hfits ⊢
    exact ⟨trivial, hfits.1⟩

/-- A thread that has waited long enough is ready. -/
theorem Kept.setReady_timeout (h : s.Kept place)
    (ht : (∃ o, place t = .queued (.wait o)) ∨ place t = .sleeping) :
  ∃ s', (s.timerCancel (s.thread t).timerTicket).setReady t .timeout = some (true, s') ∧
    s'.Kept (Function.update place t .held) ∧ s.Same s' ∧
    s'.thread = Function.update s.thread t ((s.thread t).awake .timeout)
  := by
  obtain ⟨hplain, hstate⟩ := h.plain_of_waits ht
  obtain ⟨s₀, hs₀⟩ : ∃ s₀, s₀ = s.timerCancel (s.thread t).timerTicket := ⟨_, rfl⟩
  have hthread : s₀.thread = s.thread := by rw [hs₀]; rfl
  obtain ⟨Q, hQ, hlaid⟩ := @Kept.detach _ _ _ _ _ _ _ s₀ h (by rw [hs₀]; rfl) (by rw [hs₀]; rfl) ht
  have hleave : s₀.leaveWait t .timeout = some { s₀ with queues := Q } := by
    have hwait : (s₀.thread t).waitFor = (s.thread t).waitFor := by rw [hthread]
    rw [leaveWait, hwait]
    apply hQ
  rw [← hs₀, setReady, hthread, hstate]
  simp only [hleave, Option.map_some]
  refine ⟨_, rfl, ?_, ?_, ?_⟩
  · apply h.wake hplain
    · apply hlaid
    · intro u hu
      change Function.update s₀.thread t _ u = _
      rw [Function.update_of_ne hu, hthread]
    · change (Function.update s₀.thread t _ t).timerTicket = 0
      rw [Function.update_self]
    · rw [hs₀]
      rfl
    · rw [hs₀]
      rfl
    · rw [hs₀]
      exact ⟨rfl, rfl, rfl, rfl, rfl, rfl⟩
    · rw [hs₀]
      rfl
  · rw [hs₀]
    exact ⟨rfl, rfl, rfl, rfl, rfl, rfl⟩
  · rw [hs₀]
    rfl

/-- The time of a ticket has come. -/
theorem Inv.onTimer {ticket : ℕ} (h : s.Inv) (hrecord : (ticket, t) ∈ s.record)
    (hs : (s.timerCancel ticket).onTimer ticket t = some s') :
  s'.Inv
  := by
  obtain ⟨place, hkept, hcur, hnone⟩ := h
  have hticket : (s.thread t).timerTicket = ticket := hkept.tickets.owner ticket t hrecord
  have hwaits := hkept.waits_of_ticket hnone (t := t) (by
    rw [hticket]
    apply Nat.ne_of_gt (hkept.tickets.bounds ticket t hrecord).1)
  obtain ⟨s₁, hready, h₁, hsame, hthread⟩ := hkept.setReady_timeout hwaits
  rw [hticket] at hready
  have hne : s.thisThread ≠ t := by
    rintro rfl
    rw [hcur] at hwaits
    rcases hwaits with ⟨o, hplace⟩ | hplace <;> cases hplace
  have hawake : s₁.thread t = (s.thread t).awake .timeout := by
    rw [hthread, Function.update_self]
  have hticket' : ¬ ((s.timerCancel ticket).thread t).timerTicket ≠ ticket := not_not.mpr hticket
  rw [Scheduler.onTimer, if_neg hticket', hready] at hs
  have hcur₁ : Function.update place t .held s₁.thisThread = .running := by
    rw [hsame.thisThread, Function.update_of_ne hne, hcur]
  have honly : ∀ u, Function.update place t .held u = .held → u = t := by
    intro u hu
    by_contra hut
    rw [Function.update_of_ne hut] at hu
    apply hnone u hu
  simp only at hs
  split at hs
  · have hstate : (s₁.thread t).state ≠ .stopped := by
      rw [hawake]
      intro heq
      cases heq
    have h₂ := h₁.modify (f := fun th => { th with state := .running }) (Function.update_self _ _ _) rfl
    obtain ⟨s₂, s₃, hleave, hswitch, hinv⟩ := h₂.yieldTo (t := t) hcur₁ (Function.update_self _ _ _)
      (by
        change Runs (Function.update s₁.thread t _ t)
        rw [Function.update_self, hawake]
        exact ⟨rfl, rfl, rfl⟩) honly
    simp only [setRunning, if_neg hstate, hleave, hswitch, Option.some.injEq] at hs
    rw [← hs]
    apply hinv
  · cases hs
    have hput := h₁.readyPut (Function.update_self _ _ _) (.inl (by rw [hawake]; rfl))
      (by rw [hawake]; exact ⟨rfl, rfl⟩)
    rw [Function.update_idem] at hput
    refine ⟨_, hput, ?_, ?_⟩
    · change Function.update place t _ s₁.thisThread = _
      rw [hsame.thisThread, Function.update_of_ne hne, hcur]
    · apply ne_held_update hnone
      intro heq
      cases heq

omit [DecidableEq κ] in
/-- A thread is marked in a way that does not concern its place. -/
theorem Inv.alter {f : Thread τ κ → Thread τ κ} (h : s.Inv)
    (hfits : ∀ p, Fits (s.thread t) p → Fits (f (s.thread t)) p)
    (hf : (f (s.thread t)).timerTicket = (s.thread t).timerTicket) :
  (s.modify t f).Inv
  := by
  obtain ⟨place, hkept, hcur, hnone⟩ := h
  exact ⟨place, hkept.alter (hfits _ (hkept.fits t)) hf, hcur, hnone⟩

omit [DecidableEq τ] [DecidableEq κ] in
/-- The flags and the priority of a thread do not concern its place. -/
theorem Fits.congr {th th' : Thread τ κ} (h : Fits th p) (hstate : th'.state = th.state)
    (hwait : th'.waitFor = th.waitFor) (hticket : th'.timerTicket = th.timerTicket) :
  Fits th' p
  := by
  have hidle : Idle th → Idle th' := fun hi => ⟨hwait.trans hi.waitFor, hticket.trans hi.ticket⟩
  cases p with
  | queued q =>
      cases q with
      | ready i => exact ⟨by rw [hstate]; exact h.1, hidle h.2⟩
      | wait o => exact ⟨hstate.trans h.1, hwait.trans h.2⟩
      | gc => exact ⟨hstate.trans h.1, hidle h.2⟩
  | held => trivial
  | unborn => exact hticket.trans h
  | running => exact ⟨by rw [hstate]; exact h.1, hidle h.2⟩
  | sleeping => exact ⟨hstate.trans h.1, hwait.trans h.2.1, by rw [hticket]; exact h.2.2⟩
  | gcPtr => exact ⟨hstate.trans h.1, hidle h.2⟩
  | collected => exact ⟨hstate.trans h.1, hidle h.2⟩

omit [DecidableEq κ] in
/-- The current thread is stopped, and is still running. -/
theorem Inv.stop {f : Thread τ κ → Thread τ κ} (h : s.Inv)
    (hf : (f (s.thread s.thisThread)).state = .stopped)
    (hwait : (f (s.thread s.thisThread)).waitFor = (s.thread s.thisThread).waitFor)
    (hticket : (f (s.thread s.thisThread)).timerTicket = (s.thread s.thisThread).timerTicket) :
  (s.modify s.thisThread f).Inv
  := by
  obtain ⟨place, hkept, hcur, hnone⟩ := h
  have hfits := hkept.fits s.thisThread
  rw [hcur] at hfits
  refine ⟨place, hkept.alter ?_ hticket, hcur, hnone⟩
  rw [hcur]
  exact ⟨.inr hf, hwait.trans hfits.2.waitFor, hticket.trans hfits.2.ticket⟩

omit [DecidableEq κ] in
/-- A thread that does not run and does not wait is stopped. -/
theorem Inv.stopOther (h : s.Inv) (hborn : t ∈ s.born) (ht : t ≠ s.thisThread)
    (hstate : (s.thread t).state ≠ .waiting) :
  (s.modify t fun th => { th with state := .stopped }).Inv
  := by
  obtain ⟨place, hkept, hcur, hnone⟩ := h
  refine ⟨place, hkept.alter ?_ rfl, hcur, hnone⟩
  have hfits := hkept.fits t
  cases hplace : place t with
  | queued q =>
      rw [hplace] at hfits
      cases q with
      | ready i => exact ⟨.inr rfl, hfits.2.waitFor, hfits.2.ticket⟩
      | wait o => exact absurd hfits.1 hstate
      | gc => exact ⟨rfl, hfits.2.waitFor, hfits.2.ticket⟩
  | held => trivial
  | unborn => exact absurd hplace ((hkept.born t).mp hborn)
  | running => exact absurd (hkept.running t hplace) ht
  | sleeping =>
      rw [hplace] at hfits
      exact absurd hfits.1 hstate
  | gcPtr =>
      rw [hplace] at hfits
      exact ⟨rfl, hfits.2.waitFor, hfits.2.ticket⟩
  | collected =>
      rw [hplace] at hfits
      exact ⟨rfl, hfits.2.waitFor, hfits.2.ticket⟩

omit [DecidableEq τ] [DecidableEq κ] in
/-- Between the steps, a thread that waits is on a wait queue or asleep. -/
theorem Kept.waits_of_state (h : s.Kept place) (hnone : ∀ u, place u ≠ .held) (hborn : t ∈ s.born)
    (hstate : (s.thread t).state = .waiting) :
  (∃ o, place t = .queued (.wait o)) ∨ place t = .sleeping
  := by
  have hfits := h.fits t
  cases hplace : place t with
  | queued q =>
      rw [hplace] at hfits
      cases q with
      | wait o => exact .inl ⟨o, rfl⟩
      | ready i => rcases hfits.1 with heq | heq <;> rw [heq] at hstate <;> cases hstate
      | gc =>
          rw [hfits.1] at hstate
          cases hstate
  | sleeping => exact .inr rfl
  | held => exact absurd hplace (hnone t)
  | unborn => exact absurd hplace ((h.born t).mp hborn)
  | running =>
      rw [hplace] at hfits
      rcases hfits.1 with heq | heq <;> rw [heq] at hstate <;> cases hstate
  | gcPtr =>
      rw [hplace] at hfits
      rw [hfits.1] at hstate
      cases hstate
  | collected =>
      rw [hplace] at hfits
      rw [hfits.1] at hstate
      cases hstate

omit [DecidableEq τ] [DecidableEq κ] in
/-- A signal does not disturb the current thread. -/
theorem Kept.inv_roused (h : s'.Kept place') (hcur : place s.thisThread = .running)
    (hnone : ∀ u, place u ≠ .held) (hroused : Roused s place s' place') :
  s'.Inv
  := by
  refine ⟨place', h, ?_, ?_⟩
  · rw [hroused.same.thisThread, (hroused.keep _ (by rw [hcur]; nofun)).1, hcur]
  · intro u hu
    apply hnone u (hroused.place_eq rfl hu)

/-- A thread is killed. -/
theorem Inv.kill (h : s.Inv) (hacts : s.Acts) (hborn : t ∈ s.born) (hs : s.kill t = some s') :
  s'.Inv
  := by
  rw [Scheduler.kill] at hs
  split at hs
  · cases hs
    apply h.alter (fun p hp => hp.congr rfl rfl rfl) rfl
  · simp only at hs
    split at hs
    · rename_i hstate
      obtain ⟨place, hkept, hcur, hnone⟩ := h
      have ht : t ≠ s.thisThread := by
        rintro rfl
        rw [hacts] at hstate
        cases hstate
      have hwaits := hkept.waits_of_state hnone hborn hstate
      obtain ⟨s₀, hs₀⟩ : ∃ s₀, s₀ = s.modify t fun th => { th with state := .stopped } := ⟨_, rfl⟩
      obtain ⟨Q, hQ, hlaid⟩ := @Kept.detach _ _ _ _ _ _ _ s₀ hkept (by rw [hs₀]; rfl) (by rw [hs₀]; rfl)
        hwaits
      have hticket : ∀ u, (s₀.thread u).timerTicket = (s.thread u).timerTicket := by
        rw [hs₀]
        apply ticket_modify
        rfl
      have htickets : Tickets s₀.thread s₀.record s₀.conductor := by
        have := hkept.tickets.congr hticket
        rw [hs₀] at this ⊢
        apply this
      obtain ⟨s₁, hs₁⟩ : ∃ s₁, s₁ = (({ s₀ with queues := Q }).cancelTicket t).modify t fun th =>
        { th with waitFor := none, timerTicket := 0 } := ⟨_, rfl⟩
      rw [← hs₀, hQ] at hs
      simp only at hs
      rw [← hs₁] at hs
      rw [@cancelTicket_eq _ _ { s₀ with queues := Q } htickets] at hs₁
      have hthread : s₁.thread = Function.update s.thread t
          { s.thread t with state := .stopped, waitFor := none, timerTicket := 0 } := by
        rw [hs₁, hs₀]
        simp [modify]
      have h₁ : s₁.Kept (Function.update place t .held) := by
        apply hkept.wake (hkept.plain_of_waits hwaits).1
        · rw [hs₁]
          apply hlaid
        · intro u hu
          rw [hthread, Function.update_of_ne hu]
        · rw [hthread, Function.update_self]
        · rw [hs₁]
          change s₀.record.filter _ = _
          rw [hticket, hs₀]
          rfl
        · rw [hs₁, hs₀]
          rfl
        · rw [hs₁, hs₀]
          exact ⟨rfl, rfl, rfl, rfl, rfl, rfl⟩
        · rw [hs₁, hs₀]
          rfl
      have hthis : s₁.thisThread = s.thisThread := by
        rw [hs₁, hs₀]
        rfl
      rw [hthis, if_neg ht] at hs
      have hgc := h₁.gcPut (Function.update_self _ _ _) (by rw [hthread, Function.update_self])
        (by rw [hthread, Function.update_self]; exact ⟨rfl, rfl⟩)
      rw [Function.update_idem] at hgc
      obtain ⟨s₂, place₂, hsignal, h₂, hroused⟩ := hgc.gcSignal none
      rw [hsignal] at hs
      cases hs
      apply h₂.inv_roused _ _ hroused
      · change Function.update place t _ s₁.thisThread = _
        rw [hthis, Function.update_of_ne ht.symm, hcur]
      · apply ne_held_update hnone
        nofun
    · rename_i hstate
      split at hs
      · rename_i heq
        have hself : t = s.thisThread := heq
        subst hself
        apply Inv.preempt _ hs
        apply h.stop rfl rfl rfl
      · rename_i heq
        cases hs
        apply h.stopOther hborn heq hstate

/-! ### Birth and death -/

/-- A thread is created. -/
theorem Inv.spawn (h : s.Inv) (ht : t ∉ s.born) : (s.spawn t).Inv := by
  obtain ⟨place, hkept, hcur, hnone⟩ := h
  have hplace : place t = .unborn := by
    by_contra hne
    apply ht ((hkept.born t).mpr hne)
  have hne : s.thisThread ≠ t := by
    rintro rfl
    rw [hcur] at hplace
    cases hplace
  have hticket : (s.thread t).timerTicket = 0 := by
    have := hkept.fits t
    rwa [hplace] at this
  obtain ⟨th, hth⟩ : ∃ th : Thread τ κ,
    th = { state := .ready, priority := (s.thread s.thisThread).priority } := ⟨_, rfl⟩
  obtain ⟨s₁, hs₁⟩ : ∃ s₁, s₁ = { s with
    thread := Function.update s.thread t th, born := t :: s.born } := ⟨_, rfl⟩
  have hthread : s₁.thread t = th := by
    rw [hs₁]
    apply Function.update_self
  have hspawn : s.spawn t = s₁.readyPut t := by rw [hs₁, hth]; rfl
  have h₁ : s₁.Kept (Function.update place t .held) := by
    rw [hs₁]
    apply hkept.move
    · apply hkept.laid.relabel
      · rw [hplace]
        nofun
      · nofun
    · intro u hu
      apply Function.update_of_ne hu
    · trivial
    · apply hkept.tickets.congr
      intro u
      change (Function.update s.thread t th u).timerTicket = _
      by_cases hu : u = t
      · rw [hu, Function.update_self, hticket, hth]
      · rw [Function.update_of_ne hu]
    · intro u _
      rfl
    · change s.gcPtr = some t ↔ _
      rw [hkept.gcPtr, hplace]
      exact iff_of_false nofun nofun
    · apply hkept.nodup
    · intro u _
      rfl
    · change t ∈ s.gcLog ↔ _
      rw [hkept.gcLog, hplace]
      exact iff_of_false nofun nofun
    · intro u _
      rfl
    · change t ∈ s.collected ↔ _
      rw [hkept.collected, hplace]
      exact iff_of_false nofun nofun
    · intro u hu
      simp [hu]
    · simp
    · intro u _ hu
      apply hkept.running u hu
    · nofun
  have hput := h₁.readyPut (Function.update_self _ _ _) (.inl (by rw [hthread, hth]))
    (by rw [hthread, hth]; exact ⟨rfl, rfl⟩)
  rw [Function.update_idem] at hput
  rw [hspawn]
  refine ⟨_, hput, ?_, ?_⟩
  · have hthis : (s₁.readyPut t).thisThread = s.thisThread := by rw [hs₁]; rfl
    rw [hthis, Function.update_of_ne hne, hcur]
  · apply ne_held_update hnone
    nofun

/-- The collector takes a thread from its queue. -/
theorem Inv.collect (h : s.Inv) : s.collect.Inv := by
  obtain ⟨place, hkept, hcur, hnone⟩ := h
  rw [Scheduler.collect]
  cases hget : s.queues.get .gc with
  | mk first Q =>
      rcases hkept.laid.get .gc with ⟨hfirst, _⟩ | ⟨t, hfirst, hplace, hlaid⟩
      · rw [hget] at hfirst
        cases hfirst
        exact ⟨place, hkept, hcur, hnone⟩
      · rw [hget] at hfirst hlaid
        cases hfirst
        have hfits := hkept.fits t
        rw [hplace] at hfits
        have hne : s.thisThread ≠ t := by
          rintro rfl
          rw [hcur] at hplace
          cases hplace
        refine ⟨Function.update place t .collected, ?_, ?_, ?_⟩
        · apply hkept.move
          · have := hlaid.relabel (t := t) (p := .collected) (by rw [Function.update_self]; nofun) nofun
            rwa [Function.update_idem] at this
          · intro u _
            rfl
          · exact hfits
          · apply hkept.tickets
          · intro u _
            rfl
          · change s.gcPtr = some t ↔ _
            rw [hkept.gcPtr, hplace]
            exact iff_of_false nofun nofun
          · apply hkept.nodup
          · intro u _
            rfl
          · change t ∈ s.gcLog ↔ _
            rw [hkept.gcLog, hplace]
            exact iff_of_true (.inl rfl) (.inr rfl)
          · intro u hu
            simp [hu]
          · simp
          · intro u _
            rfl
          · change t ∈ s.born ↔ _
            rw [hkept.born, hplace]
            exact iff_of_true nofun nofun
          · intro u _ hu
            apply hkept.running u hu
          · nofun
        · change Function.update place t _ s.thisThread = _
          rw [Function.update_of_ne hne, hcur]
        · apply ne_held_update hnone
          nofun

/-- The threads that wait for an object are taken off its queue all at once. -/
theorem Kept.clear {list : QueueId τ κ → List τ} {o : Waited τ κ} (h : s.Kept place)
    (hlays : s.queues.Lays list) (hmem : ∀ q t, t ∈ list q ↔ place t = .queued q)
    (hheld : ∀ u ∈ list (.wait o), place' u = .held)
    (hkeep : ∀ u ∉ list (.wait o), place' u = place u) :
  ({ s with queues := s.queues.clear (.wait o) }).Kept place'
  := by
  have hside : ∀ r : Place τ κ, r ≠ .held → r ≠ .queued (.wait o) → ∀ u,
      place' u = r ↔ place u = r := by
    intro r hr hro u
    by_cases hu : u ∈ list (.wait o)
    · rw [hheld u hu, (hmem _ u).mp hu]
      exact iff_of_false hr.symm hro.symm
    · rw [hkeep u hu]
  constructor
  · refine ⟨_, hlays.clear, ?_⟩
    intro q u
    by_cases hq : q = .wait o
    · rw [hq, Function.update_self]
      apply iff_of_false List.not_mem_nil
      by_cases hu : u ∈ list (.wait o)
      · rw [hheld u hu]
        nofun
      · rw [hkeep u hu, ← hmem]
        apply hu
    · rw [Function.update_of_ne hq, hmem, hside]
      · nofun
      · rintro ⟨⟩
        apply hq rfl
  · intro u
    by_cases hu : u ∈ list (.wait o)
    · rw [hheld u hu]
      trivial
    · rw [hkeep u hu]
      apply h.fits
  · apply h.tickets
  · intro u
    rw [hside .gcPtr nofun nofun]
    apply h.gcPtr
  · apply h.nodup
  · intro u
    rw [hside (.queued .gc) nofun nofun, hside .collected nofun nofun]
    apply h.gcLog
  · intro u
    rw [hside .collected nofun nofun]
    apply h.collected
  · intro u
    rw [ne_eq, hside .unborn nofun nofun]
    apply h.born
  · intro u hu
    rw [hside .running nofun nofun] at hu
    apply h.running u hu

/-- The threads that wait for an object are notified. For any other reason this does not work out,
because the threads are no longer on the queue from which they are to be taken. -/
theorem Inv.notify {o : Waited τ κ} {reason : Reason} (h : s.Inv)
    (hs : s.notify o reason = some s') :
  s'.Inv
  := by
  obtain ⟨place, hkept, hcur, hnone⟩ := h
  obtain ⟨list, hlays, hmem⟩ := hkept.laid
  obtain ⟨place₁, hplace₁⟩ : ∃ place₁, place₁ = fun u =>
    if u ∈ list (.wait o) then Place.held else place u := ⟨_, rfl⟩
  have hheld : ∀ u ∈ list (.wait o), place₁ u = .held := by
    intro u hu
    rw [hplace₁]
    exact if_pos hu
  have hkeep : ∀ u ∉ list (.wait o), place₁ u = place u := by
    intro u hu
    rw [hplace₁]
    exact if_neg hu
  have h₁ := hkept.clear hlays hmem hheld hkeep
  have hwaiting : ∀ u ∈ list (.wait o), (s.thread u).state = .waiting ∧ (s.thread u).waitFor = some o := by
    intro u hu
    have := hkept.fits u
    rw [(hmem _ u).mp hu] at this
    exact this
  have hcurl : s.thisThread ∉ list (.wait o) := by
    intro hu
    rw [hmem, hcur] at hu
    cases hu
  have hlength : (list (.wait o)).length ≤ s.fuel := by
    apply Nat.le_succ_of_le
    apply hlays.length_le
    intro u hu
    rw [hkept.born, (hmem _ u).mp hu]
    intro heq
    cases heq
  rw [Scheduler.notify, hlays.head] at hs
  by_cases hreason : reason = .notify
  · obtain ⟨s₂, place₂, hwalk, h₂, hsame, _, hkeep₂, hready⟩ := h₁.walk
      (fun u hu => ⟨hheld u hu, (hwaiting u hu).1⟩) (hlays.nodup (.wait o)) (hlays.follows (.wait o))
      hlength
    rw [hreason, hwalk] at hs
    cases hs
    refine ⟨place₂, h₂, ?_, ?_⟩
    · rw [hsame.thisThread, (hkeep₂ _ hcurl).1, hkeep _ hcurl, hcur]
    · intro u hu
      by_cases hul : u ∈ list (.wait o)
      · obtain ⟨level, hlevel⟩ := hready u hul
        rw [hlevel] at hu
        cases hu
      · rw [(hkeep₂ u hul).1, hkeep u hul] at hu
        apply hnone u hu
  · cases hl : list (.wait o) with
    | nil =>
        rw [hl, List.head?_nil, fuel, walk] at hs
        cases hs
        refine ⟨place₁, h₁, ?_, ?_⟩
        · change place₁ s.thisThread = _
          rw [hkeep _ hcurl, hcur]
        · intro u hu
          rw [hkeep u (by rw [hl]; exact List.not_mem_nil)] at hu
          apply hnone u hu
    | cons t l =>
        obtain ⟨hstate, hwait⟩ := hwaiting t (by rw [hl]; exact List.mem_cons_self)
        obtain ⟨s₁, hs₁⟩ : ∃ s₁, s₁ = { s with queues := s.queues.clear (.wait o) } := ⟨_, rfl⟩
        have hcancel : s₁.cancel o t = none := by
          have hhead : s₁.queues.head (.wait o) = none := by
            rw [hs₁]
            apply Function.update_self
          rw [cancel, Queues.unlink, hhead, if_neg (by intro heq; cases heq), fuel, Queues.seek]
          rfl
        have hrefused : s₁.setReady t reason = none := by
          have hstate₁ : (s₁.thread t).state = .waiting := by rw [hs₁]; exact hstate
          have hwait₁ : (s₁.thread t).waitFor = some o := by rw [hs₁]; exact hwait
          rw [setReady, hstate₁]
          cases reason with
          | notify => exact absurd rfl hreason
          | none => rfl
          | passed => rfl
          | timeout => simp only [leaveWait, hwait₁, leaveQueue, hcancel, Option.map_none]
          | abandon => simp only [leaveWait, hwait₁, hcancel, Option.map_none]
        rw [hl, List.head?_cons, fuel, walk, ← hs₁, hrefused] at hs
        cases hs

/-- Everything that can happen moves threads from one place to another. -/
theorem Inv.step {a : Action τ κ} (h : s.Inv) (hcount : s.Counted a) (hs : s.step a = some s') :
  s'.Inv
  := by
  cases a with
  | spawn t =>
      rw [Scheduler.step, Option.ite_none_right_eq_some] at hs
      cases hs.2
      apply h.spawn hs.1.2
  | wait o us =>
      rw [Scheduler.step, Option.ite_none_right_eq_some] at hs
      apply h.impWait hs.1 hcount hs.2
  | sleep us =>
      rw [Scheduler.step, Option.ite_none_right_eq_some] at hs
      apply h.sleep hs.1 hcount hs.2
  | notify o reason => apply h.notify hs
  | signalOne o =>
      obtain ⟨place, hkept, hcur, hnone⟩ := h
      obtain ⟨s₁, place₁, hsignal, h₁, hroused⟩ := hkept.signalOne o
      rw [Scheduler.step, hsignal] at hs
      cases hs
      apply h₁.inv_roused hcur hnone hroused
  | onTimer ticket t =>
      rw [Scheduler.step, Option.ite_none_right_eq_some] at hs
      apply h.onTimer hs.1 hs.2
  | preempt lower => apply h.preempt hs
  | hold =>
      rw [Scheduler.step, Option.ite_none_right_eq_some] at hs
      cases hs.2
      apply h.alter (fun p hp => hp.congr rfl rfl rfl) rfl
  | drop =>
      rw [Scheduler.step, Option.ite_none_right_eq_some] at hs
      cases hs.2
      by_cases hkill : (s.thread s.thisThread).kill = true
      · apply h.stop
        · simp [hkill]
        · rfl
        · rfl
      · apply h.alter (fun p hp => hp.congr (by simp [hkill]) rfl rfl) rfl
  | kill t =>
      rw [Scheduler.step, Option.ite_none_right_eq_some] at hs
      apply h.kill hs.1.1 hs.1.2 hs.2
  | collect =>
      rw [Scheduler.step, Option.ite_none_right_eq_some] at hs
      cases hs.2
      apply h.collect
  | setPriority t level =>
      rw [Scheduler.step, Option.ite_none_right_eq_some] at hs
      cases hs.2
      apply h.alter (fun p hp => hp.congr rfl rfl rfl) rfl

omit [DecidableEq κ] in
/-- The first thread is running, and no other thread exists. -/
theorem inv_boot (first thGc : τ) (ev : κ) : (boot first thGc ev).Inv := by
  obtain ⟨place, hplace⟩ : ∃ place : τ → Place τ κ, ∀ t,
    place t = if t = first then .running else .unborn := ⟨_, fun _ => rfl⟩
  have hcases : ∀ t, place t = .running ∨ place t = .unborn := by
    intro t
    rw [hplace]
    split
    · exact .inl rfl
    · exact .inr rfl
  have hne : ∀ p : Place τ κ, p ≠ .running → p ≠ .unborn → ∀ t, place t ≠ p := by
    rintro p hrunning hunborn t rfl
    rcases hcases t with ht | ht
    · apply hrunning ht
    · apply hunborn ht
  refine ⟨place, ?_, ?_, hne .held nofun nofun⟩
  · constructor
    · refine ⟨fun _ => [], Queues.lays_empty, ?_⟩
      intro q t
      exact iff_of_false List.not_mem_nil (hne (.queued q) nofun nofun t)
    · intro t
      rcases hcases t with ht | ht
      · rw [ht]
        exact ⟨.inl rfl, rfl, rfl⟩
      · rw [ht]
        rfl
    · exact ⟨nofun, nofun, nofun, fun t ht => absurd rfl ht⟩
    · intro t
      exact iff_of_false nofun (hne .gcPtr nofun nofun t)
    · apply List.nodup_nil
    · intro t
      apply iff_of_false List.not_mem_nil
      rintro (ht | ht)
      · apply hne (.queued .gc) nofun nofun t ht
      · apply hne .collected nofun nofun t ht
    · intro t
      exact iff_of_false List.not_mem_nil (hne .collected nofun nofun t)
    · intro t
      rw [hplace]
      change t ∈ [first] ↔ _
      by_cases ht : t = first
      · simp [ht]
      · simp [ht]
    · intro t ht
      by_contra hother
      have hfirst : ¬ t = first := hother
      rw [hplace, if_neg hfirst] at ht
      cases ht
  · rw [hplace]
    exact if_pos rfl

/-- The invariant holds in every state that is reached. -/
theorem inv_of_reachable (h : (machine τ κ).Reachable Counted s) : s.Inv := by
  apply h.invariant
  · rintro s ⟨first, thGc, ev, _, rfl⟩
    apply inv_boot
  · intro s a s' hs hcount hstep
    apply hs.step hcount hstep

/-- Where a thread is found. -/
def At (s : Scheduler τ κ) (t : τ) : Place τ κ → Prop
  | .unborn => t ∉ s.born
  | .running => s.thisThread = t
  | .held => False
  | .queued q => s.queues.Mem q t
  | .sleeping =>
      (s.thread t).state = .waiting ∧ (s.thread t).waitFor = none ∧
        ((s.thread t).timerTicket, t) ∈ s.record
  | .gcPtr => s.gcPtr = some t
  | .collected => t ∈ s.collected

omit [DecidableEq τ] [DecidableEq κ] in
/-- A thread is found at its place, and nowhere else. -/
theorem Kept.at_iff (h : s.Kept place) (hcur : place s.thisThread = .running)
    (hnone : ∀ u, place u ≠ .held) :
  s.At t p ↔ place t = p
  := by
  cases p with
  | unborn => rw [At, h.born, not_not]
  | running =>
      constructor
      · rintro rfl
        apply hcur
      · intro ht
        apply (h.running t ht).symm
  | held => exact iff_of_false id (hnone t)
  | queued q =>
      obtain ⟨list, hlays, hmem⟩ := h.laid
      rw [At, hlays.mem_iff, hmem]
  | sleeping =>
      have hfits := h.fits t
      constructor
      · rintro ⟨hstate, hwait, hlive⟩
        have hticket : (s.thread t).timerTicket ≠ 0 := Nat.ne_of_gt (h.tickets.bounds _ t hlive).1
        rcases h.waits_of_ticket hnone hticket with ⟨o, ht⟩ | ht
        · rw [ht] at hfits
          have := hfits.2
          rw [hwait] at this
          cases this
        · apply ht
      · intro ht
        rw [ht] at hfits
        exact ⟨hfits.1, hfits.2.1, h.tickets.live t hfits.2.2⟩
  | gcPtr => apply h.gcPtr
  | collected => apply h.collected

/-- In every run in which the counter of the tickets does not overflow, every thread is in one place,
and in a state that fits it: it does not exist yet, it is running, on one queue, asleep, in `gc_ptr`, or
the collector has taken it. In particular it is not linked into two queues. No thread is passed to
the collector twice. -/
theorem one_place (τ κ : Type) [DecidableEq τ] [DecidableEq κ] {s : Scheduler τ κ}
    (h : (machine τ κ).Reachable Counted s) :
  (∀ t, ∃ p, s.At t p ∧ Fits (s.thread t) p ∧ ∀ p', s.At t p' → p' = p) ∧ s.gcLog.Nodup
  := by
  obtain ⟨place, hkept, hcur, hnone⟩ := inv_of_reachable h
  refine ⟨?_, hkept.nodup⟩
  intro t
  refine ⟨place t, (hkept.at_iff hcur hnone).mpr rfl, hkept.fits t, ?_⟩
  intro p hp
  exact ((hkept.at_iff hcur hnone).mp hp).symm

/-- The first thread waits, with a timeout, while the collector is running. -/
theorem one_place_wait :
  ∃ s : Scheduler ℕ ℕ, (machine ℕ ℕ).Reachable Counted s ∧ s.thisThread = 1 ∧
    s.queues.head (.wait (.object 5)) = some 0 ∧ s.record = [(1, 0)] ∧
    (∀ t, ∃ p, s.At t p ∧ Fits (s.thread t) p ∧ ∀ p', s.At t p' → p' = p) ∧ s.gcLog.Nodup
  := by
  have h₀ : (machine ℕ ℕ).Reachable Counted (boot 0 1 9) := .start ⟨0, 1, 9, by decide, rfl⟩
  have h₁ : (machine ℕ ℕ).Reachable Counted _ := h₀.step (.spawn 1) trivial rfl
  have h₂ : (machine ℕ ℕ).Reachable Counted _ := h₁.step (.spawn 2) trivial rfl
  have h₃ : (machine ℕ ℕ).Reachable Counted _ :=
    h₂.step (.wait (.object 5) 10) (fun _ => by decide) rfl
  exact ⟨_, h₃, rfl, rfl, rfl, one_place ℕ ℕ h₃⟩

/-- A thread that the collector has taken is in none of the places, although it still exists. -/
theorem collected_nowhere :
  ∃ s : Scheduler ℕ ℕ, (machine ℕ ℕ).Reachable Counted s ∧ 2 ∈ s.born ∧ s.thisThread ≠ 2 ∧
    (∀ q, ¬ s.queues.Mem q 2) ∧ s.gcPtr ≠ some 2 ∧ (s.thread 2).state = .stopped
  := by
  have h₀ : (machine ℕ ℕ).Reachable Counted (boot 0 1 9) := .start ⟨0, 1, 9, by decide, rfl⟩
  obtain ⟨s, hs⟩ : ∃ s, (machine ℕ ℕ).exec (boot 0 1 9)
      [.spawn 1, .spawn 2, .preempt true, .wait (.object 9) 0, .wait (.object 6) 0, .kill 2,
        .preempt true, .collect] = some s := ⟨_, rfl⟩
  have h₁ := h₀.exec hs (by
    intro a ha s
    fin_cases ha
    all_goals first | trivial | exact fun hne => absurd rfl hne)
  obtain ⟨place, hkept, hcur, hnone⟩ := inv_of_reachable h₁
  have hcollected : 2 ∈ s.collected := by
    cases hs
    decide
  have hplace : place 2 = .collected := (hkept.collected 2).mp hcollected
  refine ⟨s, h₁, ?_, ?_, ?_, ?_, ?_⟩
  · rw [hkept.born, hplace]
    nofun
  · intro heq
    rw [← heq, hcur] at hplace
    cases hplace
  · intro q hq
    have hq' : s.At 2 (.queued q) := hq
    rw [hkept.at_iff hcur hnone, hplace] at hq'
    cases hq'
  · rw [ne_eq, hkept.gcPtr, hplace]
    nofun
  · have hfits := hkept.fits 2
    rw [hplace] at hfits
    apply hfits.1

end Scheduler

end UOS
