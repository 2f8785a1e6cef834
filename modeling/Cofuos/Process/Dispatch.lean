import Cofuos.Process.Places

/-!
# Moving threads

What the scheduler does when threads are notified and when the processor goes from one thread to the
next, in terms of the places of threads. The loops return, because every queue has an end.
-/

namespace UOS

namespace Scheduler

variable {τ κ : Type} [DecidableEq τ] [DecidableEq κ] {s s' : Scheduler τ κ}
  {place place' : τ → Place τ κ} {Q : Queues (QueueId τ κ) τ} {q : QueueId τ κ} {p : Place τ κ} {t : τ}

/-! ### Notifying -/

/-- A thread that has been waiting is ready. -/
def Thread.awake (th : Thread τ κ) (reason : Reason) : Thread τ κ :=
  { th with state := .ready, reason := reason, waitFor := none, timerTicket := 0 }

omit [DecidableEq τ] [DecidableEq κ] in
/-- Cancelling a ticket, whether there is one or not. -/
theorem cancelTicket_eq (h : Tickets s.thread s.record s.conductor) (t : τ) :
  s.cancelTicket t =
    { s with record := s.record.filter fun e => e.1 ≠ (s.thread t).timerTicket }
  := by
  rw [cancelTicket]
  split
  · rfl
  · rename_i hzero
    rw [not_not.mp hzero, h.filter_zero]

/-- A thread that waits, and has been taken from its queue, is notified. -/
theorem Kept.setReady_notify (h : s.Kept place) (ht : place t = .held)
    (hstate : (s.thread t).state = .waiting) :
  ∃ s', s.setReady t .notify = some (true, s') ∧ s'.Kept place ∧ s'.queues = s.queues ∧
    s'.thread = Function.update s.thread t ((s.thread t).awake .notify) ∧ s.Same s' ∧
    s'.conductor = s.conductor
  := by
  rw [setReady, hstate]
  simp only [leaveWait, Option.map_some, cancelTicket_eq h.tickets]
  refine ⟨_, rfl, ?_, rfl, rfl, ⟨rfl, rfl, rfl, rfl, rfl, rfl⟩, rfl⟩
  rw [← Function.update_eq_self t place, ht]
  apply h.wake
  · rw [ht]
    trivial
  · rw [← ht, Function.update_eq_self]
    apply h.laid
  · intro u hu
    apply Function.update_of_ne hu
  · change (Function.update s.thread t _ t).timerTicket = 0
    rw [Function.update_self]
  · rfl
  · rfl
  · exact ⟨rfl, rfl, rfl, rfl, rfl, rfl⟩
  · rfl

/-- Threads that have been taken from a wait queue are notified one after the other. -/
theorem Kept.walk {l : List τ} {n : ℕ} (h : s.Kept place)
    (hl : ∀ t ∈ l, place t = .held ∧ (s.thread t).state = .waiting) (hnodup : l.Nodup)
    (hfollows : s.queues.Follows l) (hn : l.length ≤ n) :
  ∃ s' place', Scheduler.walk .notify n s l.head? = some (l.length, false, s') ∧ s'.Kept place' ∧
    s.Same s' ∧ s'.conductor = s.conductor ∧
    (∀ u ∉ l, place' u = place u ∧ s'.thread u = s.thread u) ∧
    ∀ t ∈ l, ∃ level, place' t = .queued (.ready level)
  := by
  induction l generalizing n s place with
  | nil =>
      refine ⟨s, place, ?_, h, Same.refl s, rfl, fun u _ => ⟨rfl, rfl⟩, nofun⟩
      cases n <;> rfl
  | cons t l ih =>
      obtain ⟨n, rfl⟩ : ∃ m, n = m + 1 := Nat.exists_eq_succ_of_ne_zero (by
        rintro rfl
        cases hn)
      obtain ⟨ht, hstate⟩ := hl t List.mem_cons_self
      obtain ⟨htl, hnodup⟩ := List.nodup_cons.mp hnodup
      obtain ⟨s₁, hready, h₁, hqueues, hthread, hsame₁, hconductor₁⟩ := h.setReady_notify ht hstate
      have hth : s₁.thread t = (s.thread t).awake .notify := by
        rw [hthread, Function.update_self]
      have h₂ := h₁.readyPut ht (.inl (by rw [hth]; rfl)) (by rw [hth]; exact ⟨rfl, rfl⟩)
      have hne : ∀ u ∈ l, u ≠ t := by
        rintro u hu rfl
        apply htl hu
      have hnext : s.queues.next t = l.head? := by
        have := hfollows.1
        rwa [Option.or_none] at this
      have hfollows₂ : (s₁.readyPut t).queues.Follows l := by
        obtain ⟨list, hlays, hmem⟩ := h₁.laid
        apply Queues.Follows.put _ hlays htl
        · intro u hu q huq
          rw [hmem, (hl u (List.mem_cons_of_mem _ hu)).1] at huq
          cases huq
        · rw [hqueues]
          apply Queues.follows_of_linked hfollows.2
      obtain ⟨s', place', hwalk, hkept, hsame, hconductor, hkeep, hready'⟩ := ih h₂ (by
          intro u hu
          rw [Function.update_of_ne (hne u hu)]
          refine ⟨(hl u (List.mem_cons_of_mem _ hu)).1, ?_⟩
          change (s₁.thread u).state = _
          rw [hthread, Function.update_of_ne (hne u hu)]
          apply (hl u (List.mem_cons_of_mem _ hu)).2) hnodup hfollows₂ (Nat.le_of_succ_le_succ hn)
      refine ⟨s', place', ?_, hkept, ?_, ?_, ?_, ?_⟩
      · rw [List.head?_cons, Scheduler.walk, hready, hnext]
        simp only [hwalk, Option.map_some, List.length_cons]
      · apply hsame₁.trans
        apply (same_readyPut s₁ t).trans hsame
      · rw [hconductor]
        apply hconductor₁
      · intro u hu
        rw [List.mem_cons, not_or] at hu
        obtain ⟨hplace, hthread'⟩ := hkeep u hu.2
        rw [hplace, hthread', Function.update_of_ne hu.1]
        refine ⟨rfl, ?_⟩
        change s₁.thread u = _
        rw [hthread, Function.update_of_ne hu.1]
      · intro u hu
        rcases List.mem_cons.mp hu with rfl | hu
        · use (s₁.thread u).priority
          rw [(hkeep u htl).1, Function.update_self]
        · apply hready' u hu

/-- What a signal changes: a thread may have been moved from a wait queue to a ready queue. -/
structure Roused (s : Scheduler τ κ) (place : τ → Place τ κ) (s' : Scheduler τ κ)
    (place' : τ → Place τ κ) : Prop where
  same : s.Same s'
  conductor : s'.conductor = s.conductor
  keep : ∀ u, (∀ o, place u ≠ .queued (.wait o)) → place' u = place u ∧ s'.thread u = s.thread u
  moves : ∀ u, place' u = place u ∨ ∃ level, place' u = .queued (.ready level)

omit [DecidableEq τ] [DecidableEq κ] in
theorem Roused.refl (s : Scheduler τ κ) (place : τ → Place τ κ) : Roused s place s place :=
  ⟨Same.refl s, rfl, fun _ _ => ⟨rfl, rfl⟩, fun _ => .inl rfl⟩

omit [DecidableEq τ] [DecidableEq κ] in
/-- A thread that is not on a ready queue is where it has been. -/
theorem Roused.place_eq (h : Roused s place s' place') (hp : p.isReady = false) {u : τ}
    (hu : place' u = p) :
  place u = p
  := by
  rcases h.moves u with heq | ⟨level, hlevel⟩
  · rw [← heq, hu]
  · rw [← hu, hlevel] at hp
    cases hp

/-- The first thread that waits for an object is notified. -/
theorem Kept.signalOne (h : s.Kept place) (o : Waited τ κ) :
  ∃ s' place', s.signalOne o = some s' ∧ s'.Kept place' ∧ Roused s place s' place'
  := by
  rw [Scheduler.signalOne, fuel, signalLoop]
  cases hget : s.queues.get (.wait o) with
  | mk first Q =>
      cases first with
      | none => exact ⟨s, place, rfl, h, Roused.refl s place⟩
      | some t =>
          obtain ⟨ht, hkept⟩ := @Kept.take _ _ _ _ s place (.wait o) t h trivial (by rw [hget])
          rw [hget] at hkept
          have hstate : (s.thread t).state = .waiting := by
            have := h.fits t
            rw [ht] at this
            apply this.1
          have hnext : Q.next t = none := by
            have := @Queues.next_get _ _ _ _ s.queues (.wait o) t (by rw [hget])
            rwa [hget] at this
          have hne : ∀ u, (∀ o, place u ≠ .queued (.wait o)) → u ∉ [t] := by
            intro u hu hmem
            rw [List.mem_singleton.mp hmem] at hu
            apply hu o ht
          obtain ⟨s', place', hwalk, hkept', hsame, hconductor, hkeep, hready⟩ := hkept.walk
            (l := [t]) (n := s.fuel)
            (by
              intro u hu
              rw [List.mem_singleton.mp hu, Function.update_self]
              exact ⟨rfl, hstate⟩)
            (List.nodup_singleton t) (Linked.singleton_iff.mpr hnext) (Nat.le_add_left 1 _)
          refine ⟨s', place', ?_, hkept', ?_⟩
          · rw [List.head?_cons] at hwalk
            simp [hwalk]
          · constructor
            · apply (same_queues s Q).trans hsame
            · apply hconductor
            · intro u hu
              obtain ⟨hplace, hthread⟩ := hkeep u (hne u hu)
              rw [hplace, hthread, Function.update_of_ne fun heq => hne u hu (by simp [heq])]
              exact ⟨rfl, rfl⟩
            · intro u
              by_cases hut : u ∈ [t]
              · exact .inr (hready u hut)
              · rw [(hkeep u hut).1, Function.update_of_ne fun heq => hut (by simp [heq])]
                exact .inl rfl

/-- The collector is signalled. -/
theorem Kept.gcSignal (h : s.Kept place) (target : Option τ) :
  ∃ s' place', s.gcSignal target = some s' ∧ s'.Kept place' ∧ Roused s place s' place'
  := by
  rw [Scheduler.gcSignal]
  split
  · apply h.signalOne
  · exact ⟨s, place, rfl, h, Roused.refl s place⟩

/-! ### Switching -/

/-- The first thread is taken from the ready queues. -/
theorem Laid.firstReady (h : Laid Q place) (levels : List (Fin 16)) :
  Scheduler.firstReady Q levels = (none, Q) ∨
    ∃ t level Q', Scheduler.firstReady Q levels = (some t, Q') ∧ place t = .queued (.ready level) ∧
      Laid Q' (Function.update place t .held)
  := by
  induction levels with
  | nil => exact .inl rfl
  | cons i levels ih =>
      rw [Scheduler.firstReady]
      cases hget : Q.get (.ready i) with
      | mk first Q' =>
          rcases h.get (.ready i) with ⟨hnone, hQ⟩ | ⟨t, ht, hplace, hlaid⟩
          · rw [hget] at hnone hQ
            cases hnone
            cases hQ
            apply ih
          · rw [hget] at ht hlaid
            cases ht
            exact .inr ⟨t, i, Q', rfl, hplace, hlaid⟩

/-- A thread is taken from the ready queues, if there is one. -/
theorem Kept.readyGet (h : s.Kept place) (level : ℕ) :
  s.readyGet level = (none, s) ∨
    ∃ t i Q, s.readyGet level = (some t, { s with queues := Q }) ∧ place t = .queued (.ready i) ∧
      ({ s with queues := Q }).Kept (Function.update place t .held)
  := by
  rw [Scheduler.readyGet]
  rcases h.laid.firstReady ((List.finRange 16).filter fun i => i.val < level) with
    hnone | ⟨t, i, Q, hfirst, ht, hlaid⟩
  · rw [hnone]
    exact .inl rfl
  · rw [hfirst]
    refine .inr ⟨t, i, Q, rfl, ht, ?_⟩
    apply h.plain
    · rw [ht]
      trivial
    · trivial
    · nofun
    · apply hlaid
    · intro u _
      rfl
    · trivial
    · apply h.tickets
    · apply same_queues
    · rfl

/-- A thread that can be put on a ready queue. -/
def Waits (th : Thread τ κ) : Prop := (th.state = .ready ∨ th.state = .stopped) ∧ Idle th

/-- A thread that can run. -/
def Runs (th : Thread τ κ) : Prop := th.state = .running ∧ Idle th

/-- What the search for the next thread leads to, apart from stopped threads that are put on the
queue of the collector. -/
structure Searched (s : Scheduler τ κ) (place : τ → Place τ κ) (f : Found τ)
    (s' : Scheduler τ κ) (place' : τ → Place τ κ) : Prop where
  same : s.Same s'
  conductor : s'.conductor = s.conductor
  next : ∀ t, f.next = some t → place' t = .held ∧ Runs (s'.thread t) ∧ f.putBack ≠ some t
  back : ∀ t, f.putBack = some t → place' t = .held ∧ Waits (s'.thread t)
  keep : ∀ u, place u = .held ∨ place u = .running → place' u = place u ∧ s'.thread u = s.thread u
  held : ∀ u, place' u = .held → place u = .held ∨ f.next = some u ∨ f.putBack = some u

omit [DecidableEq τ] [DecidableEq κ] in
/-- A search that goes on after a thread has been found. -/
theorem Searched.resume {s₁ : Scheduler τ κ} {place₁ : τ → Place τ κ} {f : Found τ}
    (h : Searched s₁ place₁ f s' place') (hsame : s.Same s₁) (hconductor : s₁.conductor = s.conductor)
    (hkeep : ∀ u, place u = .held ∨ place u = .running →
      place₁ u = place u ∧ s₁.thread u = s.thread u)
    (hheld : ∀ u, place₁ u = .held → place u = .held ∨ f.putBack = some u) :
  Searched s place f s' place'
  := by
  constructor
  · apply hsame.trans h.same
  · rw [h.conductor, hconductor]
  · apply h.next
  · apply h.back
  · intro u hu
    obtain ⟨hplace, hthread⟩ := hkeep u hu
    rw [← hplace] at hu
    rw [(h.keep u hu).1, (h.keep u hu).2]
    exact ⟨hplace, hthread⟩
  · intro u hu
    rcases h.held u hu with hu | hu | hu
    · rcases hheld u hu with hu | hu
      · exact .inl hu
      · exact .inr (.inr hu)
    · exact .inr (.inl hu)
    · exact .inr (.inr hu)

omit [DecidableEq τ] in
/-- A thread counts no longer. -/
theorem countP_lt {l : List τ} {P P' : τ → Bool} (ht : t ∈ l) (hP : P t = true) (hP' : P' t = false)
    (himp : ∀ u, P' u = true → P u = true) :
  l.countP P' < l.countP P
  := by
  obtain ⟨l₁, l₂, rfl⟩ := List.append_of_mem ht
  have h₁ : l₁.countP P' ≤ l₁.countP P := List.countP_mono_left fun u _ => himp u
  have h₂ : l₂.countP P' ≤ l₂.countP P := List.countP_mono_left fun u _ => himp u
  simp only [List.countP_append, List.countP_cons, hP, hP', if_true, Bool.false_eq_true, if_false]
  omega

/-- The search returns, and what it finds is in the hands of the step. -/
theorem Kept.search {f : Found τ} {n : ℕ} (level : ℕ) (skip : Option τ) (h : s.Kept place)
    (hnext : f.next = none) (hback : ∀ t, f.putBack = some t → place t = .held ∧ Waits (s.thread t))
    (hn : s.born.countP (fun t => (place t).isReady) < n) :
  ∃ f' s' place', Scheduler.search level skip n f s = some (f', s') ∧ s'.Kept place' ∧
    Searched s place f' s' place' ∧ (f'.putBack = f.putBack ∨ f'.putBack = skip)
  := by
  induction n generalizing s place f with
  | zero => cases hn
  | succ n ih =>
      rw [Scheduler.search]
      rcases h.readyGet level with hnone | ⟨t, i, Q, hget, ht, hkept⟩
      · rw [hnone]
        refine ⟨f, s, place, rfl, h, ?_, .inl rfl⟩
        constructor
        · apply Same.refl
        · rfl
        · intro t ht
          rw [hnext] at ht
          cases ht
        · apply hback
        · intro u _
          exact ⟨rfl, rfl⟩
        · intro u hu
          exact .inl hu
      · rw [hget]
        have hwaits : Waits (s.thread t) := by
          have := h.fits t
          rw [ht] at this
          apply this
        have hne : ∀ u, place u = .held ∨ place u = .running → u ≠ t := by
          rintro u hu rfl
          rw [ht] at hu
          rcases hu with hu | hu <;> cases hu
        have hback' : ∀ u, f.putBack = some u → u ≠ t :=
          fun u hu => hne u (.inl (hback u hu).1)
        have hcount : ∀ p : Place τ κ, p.isReady = false →
            s.born.countP (fun u => (Function.update place t p u).isReady) < n := by
          intro p hp
          apply Nat.lt_of_lt_of_le _ (Nat.le_of_lt_succ hn)
          apply countP_lt
          · rw [h.born, ht]
            nofun
          · rw [ht]
            rfl
          · rw [Function.update_self, hp]
          · intro u hu
            by_cases hut : u = t
            · rw [hut, ht]
              rfl
            · rwa [Function.update_of_ne hut] at hu
        by_cases hskip : skip = some t
        · simp only [if_pos hskip]
          obtain ⟨f', s', place', hsearch, hkept', hsearched, hputBack⟩ :=
            @ih _ _ { f with putBack := some t } hkept hnext (by
              intro u hu
              cases hu
              rw [Function.update_self]
              exact ⟨rfl, hwaits⟩) (hcount .held rfl)
          have hputBack' : f'.putBack = skip := by
            rw [hskip] at hputBack ⊢
            rcases hputBack with hputBack | hputBack <;> exact hputBack
          refine ⟨f', s', place', hsearch, hkept', ?_, .inr hputBack'⟩
          apply hsearched.resume (same_queues s Q) rfl
          · intro u hu
            rw [Function.update_of_ne (hne u hu)]
            exact ⟨rfl, rfl⟩
          · intro u hu
            by_cases hut : u = t
            · rw [hut, hputBack', hskip]
              exact .inr rfl
            · rw [Function.update_of_ne hut] at hu
              exact .inl hu
        · simp only [if_neg hskip, setRunning]
          by_cases hstopped : (s.thread t).state = .stopped
          · simp only [if_pos hstopped]
            have hgc := hkept.gcPut (Function.update_self _ _ _) hstopped hwaits.2
            rw [Function.update_idem] at hgc
            obtain ⟨f', s', place', hsearch, hkept', hsearched, hputBack⟩ :=
              @ih _ _ { f with needGc := true } hgc hnext (by
                intro u hu
                rw [Function.update_of_ne (hback' u hu)]
                apply hback u hu) (hcount _ rfl)
            refine ⟨f', s', place', hsearch, hkept', ?_, hputBack⟩
            apply hsearched.resume ((same_queues s Q).trans (same_gcPut _ t)) rfl
            · intro u hu
              rw [Function.update_of_ne (hne u hu)]
              exact ⟨rfl, rfl⟩
            · intro u hu
              by_cases hut : u = t
              · rw [hut, Function.update_self] at hu
                cases hu
              · rw [Function.update_of_ne hut] at hu
                exact .inl hu
          · simp only [if_neg hstopped]
            refine ⟨{ f with next := some t }, _, _, rfl,
              hkept.modify (Function.update_self _ _ _) rfl, ?_, .inl rfl⟩
            constructor
            · apply (same_queues s Q).trans (same_modify _ t _)
            · rfl
            · rintro u ⟨⟩
              refine ⟨Function.update_self _ _ _, ?_, fun hu => hback' t hu rfl⟩
              change Runs (Function.update s.thread t _ t)
              rw [Function.update_self]
              exact ⟨rfl, hwaits.2.waitFor, hwaits.2.ticket⟩
            · intro u hu
              change _ ∧ Waits (Function.update s.thread t _ u)
              rw [Function.update_of_ne (hback' u hu), Function.update_of_ne (hback' u hu)]
              apply hback u hu
            · intro u hu
              change _ ∧ Function.update s.thread t _ u = _
              rw [Function.update_of_ne (hne u hu), Function.update_of_ne (hne u hu)]
              exact ⟨rfl, rfl⟩
            · intro u hu
              by_cases hut : u = t
              · rw [hut]
                exact .inr (.inl rfl)
              · rw [Function.update_of_ne hut] at hu
                exact .inl hu

omit [DecidableEq τ] [DecidableEq κ] in
/-- A signal after a search. -/
theorem Searched.roused {s₁ : Scheduler τ κ} {place₁ : τ → Place τ κ} {f : Found τ}
    (h : Searched s place f s₁ place₁) (hroused : Roused s₁ place₁ s' place') :
  Searched s place f s' place'
  := by
  have hheld : ∀ u, place₁ u = .held → place' u = .held ∧ s'.thread u = s₁.thread u := by
    intro u hu
    have := hroused.keep u (by rw [hu]; nofun)
    rwa [hu] at this
  constructor
  · apply h.same.trans hroused.same
  · rw [hroused.conductor, h.conductor]
  · intro t ht
    obtain ⟨hplace, hruns, hne⟩ := h.next t ht
    rw [(hheld t hplace).2]
    exact ⟨(hheld t hplace).1, hruns, hne⟩
  · intro t ht
    obtain ⟨hplace, hwaits⟩ := h.back t ht
    rw [(hheld t hplace).2]
    exact ⟨(hheld t hplace).1, hwaits⟩
  · intro u hu
    obtain ⟨hplace, hthread⟩ := h.keep u hu
    have := hroused.keep u (by rw [hplace]; rcases hu with hu | hu <;> rw [hu] <;> nofun)
    rwa [hplace, hthread] at this
  · intro u hu
    apply h.held u (hroused.place_eq rfl hu)

/-- The next thread to run is picked. -/
theorem Kept.select (h : s.Kept place) (level : ℕ) (skip : Option τ) (tell : Option τ → Option τ) :
  ∃ f s' place', s.select level skip tell = some (f, s') ∧ s'.Kept place' ∧
    Searched s place f s' place' ∧ (f.putBack = none ∨ f.putBack = skip)
  := by
  have hn : s.born.countP (fun t => (place t).isReady) < s.fuel :=
    Nat.lt_succ_of_le List.countP_le_length
  obtain ⟨f, s₁, place₁, hsearch, hkept, hsearched, hputBack⟩ :=
    @Kept.search _ _ _ _ s place ⟨none, none, false⟩ _ level skip h rfl nofun hn
  rw [Scheduler.select, hsearch]
  by_cases hgc : f.needGc = true
  · obtain ⟨s', place', hsignal, hkept', hroused⟩ := hkept.gcSignal (tell f.next)
    refine ⟨f, s', place', ?_, hkept', hsearched.roused hroused, hputBack⟩
    simp only [if_pos hgc, hsignal, Option.map_some]
  · refine ⟨f, s₁, place₁, ?_, hkept, hsearched, hputBack⟩
    simp only [if_neg hgc]

omit [DecidableEq κ] in
/-- The current thread leaves the processor. If it is stopped it is kept. -/
theorem Kept.leave (h : s.Kept place) (hptr : s.gcPtr = none)
    (hleft : place s.thisThread = .running ↔ (s.thread s.thisThread).state = .stopped) :
  ∃ place', ({ s with
      gcPtr := if (s.thread s.thisThread).state = ThreadState.stopped then some s.thisThread
        else none }).Kept place' ∧
    (∀ u, place' u ≠ .running) ∧ (∀ u, place u ≠ .running → place' u = place u) ∧
    ∀ u, place' u = .held → place u = .held
  := by
  by_cases hstopped : (s.thread s.thisThread).state = .stopped
  · refine ⟨Function.update place s.thisThread .gcPtr, ?_, ?_, ?_, ?_⟩
    · rw [if_pos hstopped]
      apply h.park (hleft.mpr hstopped) hstopped hptr
    · intro u hu
      by_cases hut : u = s.thisThread
      · rw [hut, Function.update_self] at hu
        cases hu
      · rw [Function.update_of_ne hut] at hu
        apply hut (h.running u hu)
    · intro u hu
      apply Function.update_of_ne
      rintro rfl
      apply hu (hleft.mpr hstopped)
    · intro u hu
      by_cases hut : u = s.thisThread
      · rw [hut, Function.update_self] at hu
        cases hu
      · rwa [Function.update_of_ne hut] at hu
  · refine ⟨place, ?_, ?_, ?_, ?_⟩
    · rw [if_neg hstopped, ← hptr]
      apply h
    · intro u hu
      apply hstopped
      apply hleft.mp
      rw [← h.running u hu, hu]
    · intro u _
      rfl
    · intro u
      exact id

omit [DecidableEq κ] in
/-- A thread runs, and no other one is in the hands of the step. -/
theorem Kept.inv_run (h : s.Kept place) (ht : place t = .held) (hruns : Runs (s.thread t))
    (honly : ∀ u, place u = .held → u = t) (hleft : ∀ u, place u ≠ .running) :
  ({ s with thisThread := t }).Inv
  := by
  refine ⟨_, h.run ht hruns.1 hruns.2 hleft, Function.update_self _ _ _, ?_⟩
  intro u hu
  by_cases hut : u = t
  · rw [hut, Function.update_self] at hu
    cases hu
  · rw [Function.update_of_ne hut] at hu
    apply hut (honly u hu)

/-- The processor goes to a thread, after the current one has left. -/
theorem Kept.switchTo (h : s.Kept place) (ht : place t = .held) (hruns : Runs (s.thread t))
    (honly : ∀ u, place u = .held → u = t)
    (hleft : place s.thisThread = .running ↔ (s.thread s.thisThread).state = .stopped) :
  ∃ s', s.switchTo t = some s' ∧ s'.Inv
  := by
  rw [Scheduler.switchTo]
  cases hptr : s.gcPtr with
  | none =>
      obtain ⟨place₁, h₁, hrunning, hkeep, hheld⟩ := h.leave hptr hleft
      refine ⟨_, rfl, ?_⟩
      apply h₁.inv_run
      · rw [hkeep t (by rw [ht]; nofun), ht]
      · apply hruns
      · intro u hu
        apply honly u (hheld u hu)
      · apply hrunning
  | some g =>
      have hg : place g = .gcPtr := (h.gcPtr g).mp hptr
      have htg : t ≠ g := by
        rintro rfl
        rw [ht] at hg
        cases hg
      have hstopped : (s.thread g).state = .stopped ∧ Idle (s.thread g) := by
        have := h.fits g
        rwa [hg] at this
      have hcur : Function.update place g .held s.thisThread = .running ↔
          (s.thread s.thisThread).state = .stopped := by
        by_cases heq : s.thisThread = g
        · rw [heq, Function.update_self]
          rw [heq, hg] at hleft
          rw [← hleft]
          exact iff_of_false nofun nofun
        · rw [Function.update_of_ne heq, hleft]
      obtain ⟨place₁, h₁, hrunning, hkeep, hheld⟩ := (h.unpark hptr).leave rfl hcur
      have hg₁ : place₁ g = .held := by
        rw [hkeep g (by rw [Function.update_self]; nofun), Function.update_self]
      have ht₁ : place₁ t = .held := by
        rw [hkeep t (by rw [Function.update_of_ne htg, ht]; nofun), Function.update_of_ne htg, ht]
      obtain ⟨s₂, place₂, hsignal, h₂, hroused⟩ := (h₁.gcPut hg₁ hstopped.1 hstopped.2).gcSignal (some t)
      have hback : ∀ p : Place τ κ, p.isReady = false → p ≠ .queued .gc → ∀ u, place₂ u = p →
          u ≠ g ∧ place₁ u = p := by
        intro p hp hgc u hu
        have hu₁ := hroused.place_eq hp hu
        have hug : u ≠ g := by
          rintro rfl
          rw [Function.update_self] at hu₁
          apply hgc hu₁.symm
        rw [Function.update_of_ne hug] at hu₁
        exact ⟨hug, hu₁⟩
      have hkept := hroused.keep t (by rw [Function.update_of_ne htg, ht₁]; nofun)
      refine ⟨{ s₂ with thisThread := t }, ?_, ?_⟩
      · exact congrArg (Option.map fun s => { s with thisThread := t }) hsignal
      · apply h₂.inv_run
        · rw [hkept.1, Function.update_of_ne htg, ht₁]
        · rw [hkept.2]
          apply hruns
        · intro u hu
          obtain ⟨hug, hu₁⟩ := hback .held rfl nofun u hu
          have hu₀ := hheld u hu₁
          rw [Function.update_of_ne hug] at hu₀
          apply honly u hu₀
        · intro u hu
          apply hrunning u (hback .running rfl nofun u hu).2

/-- The current thread, unless it is stopped, is put on its ready queue. -/
theorem Kept.leaveReady (h : s.Kept place) (hcur : place s.thisThread = .running) :
  ∃ s' place', s.leaveReady = some s' ∧ s'.Kept place' ∧ s.Same s' ∧
    (place' s.thisThread = .running ↔ (s'.thread s.thisThread).state = .stopped) ∧
    place' s.thisThread ≠ .held ∧ ∀ u ≠ s.thisThread, place' u = place u ∧ s'.thread u = s.thread u
  := by
  have hfits := h.fits s.thisThread
  rw [hcur] at hfits
  rw [Scheduler.leaveReady, setReady]
  rcases hfits.1 with hstate | hstate
  · rw [hstate]
    have hth : (s.modify s.thisThread fun th => { th with state := .ready }).thread s.thisThread =
        { s.thread s.thisThread with state := .ready } := Function.update_self _ _ _
    have hput := ((h.release hcur).modify (f := fun th => { th with state := .ready })
      (Function.update_self _ _ _) rfl).readyPut (Function.update_self _ _ _)
      (.inl (by rw [hth])) (by rw [hth]; exact ⟨hfits.2.waitFor, hfits.2.ticket⟩)
    refine ⟨_, _, rfl, hput, ?_, ?_, ?_, ?_⟩
    · exact ⟨rfl, rfl, rfl, rfl, rfl, rfl⟩
    · rw [Function.update_self]
      apply iff_of_false
      · nofun
      · change ¬ (Function.update s.thread s.thisThread _ s.thisThread).state = _
        rw [Function.update_self]
        nofun
    · rw [Function.update_self]
      nofun
    · intro u hu
      rw [Function.update_of_ne hu, Function.update_of_ne hu]
      refine ⟨rfl, ?_⟩
      apply Function.update_of_ne hu
  · rw [hstate]
    refine ⟨s, place, rfl, h, Same.refl s, iff_of_true hcur hstate, ?_, fun u _ => ⟨rfl, rfl⟩⟩
    rw [hcur]
    nofun

/-- The current thread gives way to another one that is in the hands of the step. -/
theorem Kept.yieldTo (h : s.Kept place) (hcur : place s.thisThread = .running)
    (ht : place t = .held) (hruns : Runs (s.thread t)) (honly : ∀ u, place u = .held → u = t) :
  ∃ s₁ s', s.leaveReady = some s₁ ∧ s₁.switchTo t = some s' ∧ s'.Inv
  := by
  obtain ⟨s₁, place₁, hleave, h₁, hsame, hleft, hheld, hkeep⟩ := h.leaveReady hcur
  have hne : t ≠ s.thisThread := by
    rintro rfl
    rw [hcur] at ht
    cases ht
  obtain ⟨s', hswitch, hinv⟩ := h₁.switchTo (t := t) (by rw [(hkeep t hne).1, ht])
    (by rw [(hkeep t hne).2]; exact hruns)
    (by
      intro u hu
      by_cases hut : u = s.thisThread
      · rw [hut] at hu
        exact absurd hu hheld
      · rw [(hkeep u hut).1] at hu
        apply honly u hu)
    (by rw [hsame.thisThread]; exact hleft)
  exact ⟨s₁, s', hleave, hswitch, hinv⟩

omit [DecidableEq τ] [DecidableEq κ] in
/-- Between the steps nothing is held, so that a search that passes over nobody has only the next
thread. -/
theorem Searched.only {f : Found τ} (h : Searched s place f s' place') (hback : f.putBack = none)
    (hnone : ∀ u, place u ≠ .held) {u : τ} (hu : place' u = .held) :
  f.next = some u
  := by
  rcases h.held u hu with hu | hu | hu
  · exact absurd hu (hnone u)
  · apply hu
  · rw [hback] at hu
    cases hu

/-- The current thread is preempted. -/
theorem Inv.preempt {lower : Bool} (h : s.Inv) (hs : s.preempt lower = some s') :
  s'.Inv
  := by
  obtain ⟨place, hkept, hcur, hnone⟩ := h
  obtain ⟨f, s₁, place₁, hselect, h₁, hsearched, hback⟩ :=
    hkept.select ((s.thread s.thisThread).priority + lower.toNat) none id
  rw [or_self] at hback
  have hcur₁ : place₁ s₁.thisThread = .running := by
    rw [hsearched.same.thisThread, (hsearched.keep _ (.inr hcur)).1, hcur]
  rw [Scheduler.preempt, hselect] at hs
  cases hnext : f.next with
  | some t =>
      obtain ⟨s₂, s₃, hleave, hswitch, hinv⟩ := h₁.yieldTo hcur₁ (hsearched.next t hnext).1
        (hsearched.next t hnext).2.1 (by
          intro u hu
          have := hsearched.only hback hnone hu
          rw [hnext] at this
          cases this
          rfl)
      obtain ⟨next, back, needGc⟩ := f
      cases hnext
      simp only [hleave, hswitch, Option.some.injEq] at hs
      rw [← hs]
      apply hinv
  | none =>
      have hnone₁ : ∀ u, place₁ u ≠ .held := by
        intro u hu
        have := hsearched.only hback hnone hu
        rw [hnext] at this
        cases this
      obtain ⟨next, back, needGc⟩ := f
      cases hnext
      simp only at hs
      split at hs
      · rename_i hstopped
        obtain ⟨f, s₂, place₂, hselect₂, h₂, hsearched₂, hback₂⟩ := h₁.select 16 none id
        rw [or_self] at hback₂
        have hcur₂ := hsearched₂.keep _ (.inr hcur₁)
        rw [hselect₂] at hs
        obtain ⟨next, back, needGc⟩ := f
        cases next with
        | none => cases hs
        | some t =>
            obtain ⟨s₃, hswitch, hinv⟩ := h₂.switchTo (hsearched₂.next t rfl).1
              (hsearched₂.next t rfl).2.1
              (by
                intro u hu
                have := hsearched₂.only hback₂ hnone₁ hu
                cases this
                rfl)
              (by
                rw [hsearched₂.same.thisThread, hcur₂.1, hcur₂.2]
                exact iff_of_true hcur₁ hstopped)
            simp only [hswitch, Option.some.injEq] at hs
            rw [← hs]
            apply hinv
      · cases hs
        exact ⟨place₁, h₁, hcur₁, hnone₁⟩

/-- The current thread with its ticket, before it is put on a queue. -/
def suspended (s : Scheduler τ κ) (us : ℕ) (o : Option (Waited τ κ)) : Scheduler τ κ :=
  (s.ticketFor us).2.modify s.thisThread fun th =>
    { th with state := .waiting, waitFor := o, timerTicket := (s.ticketFor us).1 }

theorem leaveWaiting_eq {us : ℕ} {o : Option (Waited τ κ)}
    (hstate : (s.thread s.thisThread).state = .running) :
  s.leaveWaiting us o =
    match o with
    | some o => { s.suspended us (some o) with
        queues := (s.suspended us (some o)).queues.put (.wait o) s.thisThread }
    | none => s.suspended us none
  := by
  have hne : (s.thread s.thisThread).state ≠ .stopped := by
    rw [hstate]
    nofun
  by_cases hus : us = 0
  · have hticket : s.ticketFor us = (0, s) := by rw [ticketFor, if_neg (not_not.mpr hus)]
    simp only [Scheduler.leaveWaiting, Scheduler.suspended, hticket, setWaiting, if_neg hne]
    cases o <;> rfl
  · have hticket : s.ticketFor us = s.timerWait s.thisThread := by rw [ticketFor, if_pos hus]
    have hne' : ((s.timerWait s.thisThread).2.thread
        (s.timerWait s.thisThread).2.thisThread).state ≠ .stopped := hne
    simp only [Scheduler.leaveWaiting, Scheduler.suspended, hticket, setWaiting, if_neg hne']
    cases o <;> rfl

omit [DecidableEq κ] in
/-- The current thread begins to wait. -/
theorem Kept.suspended {us : ℕ} {o : Option (Waited τ κ)} (h : s.Kept place)
    (hcur : place s.thisThread = .running) (hcount : us ≠ 0 → s.conductor + 1 < 2 ^ 64) :
  (s.suspended us o).Kept (Function.update place s.thisThread .held) ∧ s.Same (s.suspended us o) ∧
    (us ≠ 0 → ((s.suspended us o).thread s.thisThread).timerTicket ≠ 0)
  := by
  have hidle : Idle (s.thread s.thisThread) := by
    have := h.fits s.thisThread
    rw [hcur] at this
    apply this.2
  have hlaid : Laid s.queues (Function.update place s.thisThread .held) := (h.release hcur).laid
  have hplain : (place s.thisThread).Plain := by
    rw [hcur]
    trivial
  by_cases hus : us = 0
  · have hticket : s.ticketFor us = (0, s) := by rw [ticketFor, if_neg (not_not.mpr hus)]
    rw [Scheduler.suspended, hticket]
    refine ⟨?_, same_modify _ _ _, fun hne => absurd hus hne⟩
    apply h.plain hplain
    · trivial
    · nofun
    · apply hlaid
    · intro u hu
      apply Function.update_of_ne hu
    · trivial
    · apply h.tickets.congr
      apply ticket_modify
      rw [hidle.ticket]
    · apply same_modify
    · rfl
  · have hmod : (s.conductor + 1) % 2 ^ 64 = s.conductor + 1 := Nat.mod_eq_of_lt (hcount hus)
    have hticket : s.ticketFor us = s.timerWait s.thisThread := by rw [ticketFor, if_pos hus]
    rw [Scheduler.suspended, hticket, timerWait, hmod]
    refine ⟨?_, ⟨rfl, rfl, rfl, rfl, rfl, rfl⟩, ?_⟩
    · apply h.plain hplain
      · trivial
      · nofun
      · apply hlaid
      · intro u hu
        apply Function.update_of_ne hu
      · trivial
      · apply h.tickets.draw hidle.ticket
        · change (Function.update s.thread s.thisThread _ s.thisThread).timerTicket = _
          rw [Function.update_self]
        · intro u hu
          apply Function.update_of_ne hu
      · exact ⟨rfl, rfl, rfl, rfl, rfl, rfl⟩
      · rfl
    · intro _
      change (Function.update s.thread s.thisThread _ s.thisThread).timerTicket ≠ 0
      rw [Function.update_self]
      apply Nat.succ_ne_zero

omit [DecidableEq κ] in
theorem thread_suspended (s : Scheduler τ κ) (us : ℕ) (o : Option (Waited τ κ)) :
  (s.suspended us o).thread = Function.update s.thread s.thisThread
    { s.thread s.thisThread with
      state := .waiting, waitFor := o, timerTicket := (s.ticketFor us).1 }
  := by
  rw [suspended, ticketFor]
  split <;> rfl

/-- The current thread waits for an object or for a timeout. -/
theorem Kept.leaveWaiting {us : ℕ} {o : Option (Waited τ κ)} (h : s.Kept place)
    (hcur : place s.thisThread = .running) (hstate : (s.thread s.thisThread).state = .running)
    (hus : o = none → us ≠ 0) (hcount : us ≠ 0 → s.conductor + 1 < 2 ^ 64) :
  ∃ s' place', s.leaveWaiting us o = s' ∧ s'.Kept place' ∧ s.Same s' ∧
    place' s.thisThread ≠ .running ∧ place' s.thisThread ≠ .held ∧
    (s'.thread s.thisThread).state = .waiting ∧
    ∀ u ≠ s.thisThread, place' u = place u ∧ s'.thread u = s.thread u
  := by
  obtain ⟨hkept, hsame, hticket⟩ := h.suspended (o := o) hcur hcount
  have hthis : ((s.suspended us o).thread s.thisThread).state = .waiting := by
    rw [thread_suspended, Function.update_self]
  have hwait : ((s.suspended us o).thread s.thisThread).waitFor = o := by
    rw [thread_suspended, Function.update_self]
  have hother : ∀ u ≠ s.thisThread, (s.suspended us o).thread u = s.thread u := by
    intro u hu
    rw [thread_suspended, Function.update_of_ne hu]
  rw [leaveWaiting_eq hstate]
  cases o with
  | some o =>
      have hput := @Kept.put _ _ _ _ _ _ (.wait o) s.thisThread hkept (Function.update_self _ _ _)
        trivial ⟨hthis, hwait⟩
      rw [Function.update_idem] at hput
      refine ⟨_, _, rfl, hput, hsame.trans (same_queues _ _), ?_, ?_, hthis, ?_⟩
      · rw [Function.update_self]
        nofun
      · rw [Function.update_self]
        nofun
      · intro u hu
        rw [Function.update_of_ne hu]
        exact ⟨rfl, hother u hu⟩
  | none =>
      refine ⟨s.suspended us none, Function.update (Function.update place s.thisThread .held)
        s.thisThread .sleeping, rfl, ?_, hsame, ?_, ?_, hthis, ?_⟩
      · apply hkept.plain
        · rw [Function.update_self]
          trivial
        · trivial
        · nofun
        · apply hkept.laid.relabel
          · rw [Function.update_self]
            nofun
          · nofun
        · intro u _
          rfl
        · exact ⟨hthis, hwait, hticket (hus rfl)⟩
        · apply hkept.tickets
        · apply Same.refl
        · rfl
      · rw [Function.update_self]
        nofun
      · rw [Function.update_self]
        nofun
      · intro u hu
        rw [Function.update_of_ne hu, Function.update_of_ne hu]
        exact ⟨rfl, hother u hu⟩

/-- The thread that has been passed over is put back. -/
theorem Kept.putBack {back : Option τ} (h : s.Kept place)
    (hback : ∀ t, back = some t → place t = .held ∧ Waits (s.thread t)) :
  ∃ place', (s.putBack back).Kept place' ∧ s.Same (s.putBack back) ∧
    (s.putBack back).thread = s.thread ∧ (∀ t, back = some t → place' t ≠ .held) ∧
    ∀ u, back ≠ some u → place' u = place u
  := by
  cases back with
  | none => exact ⟨place, h, Same.refl s, rfl, nofun, fun u _ => rfl⟩
  | some t =>
      obtain ⟨ht, hwaits⟩ := hback t rfl
      refine ⟨_, h.readyPut ht hwaits.1 hwaits.2, same_readyPut s t, rfl, ?_, ?_⟩
      · rintro u ⟨⟩
        rw [Function.update_self]
        nofun
      · intro u hu
        apply Function.update_of_ne
        rintro rfl
        apply hu rfl

/-- The current thread leaves the processor to a thread that has been picked. -/
theorem Kept.suspendTo {f : Found τ} {us : ℕ} {o : Option (Waited τ κ)}
    (hcur : place s.thisThread = .running) (hnone : ∀ u, place u ≠ .held)
    (hsearched : Searched s place f s' place') (h' : s'.Kept place')
    (hstate : (s.thread s.thisThread).state = .running)
    (hus : o = none → us ≠ 0) (hcount : us ≠ 0 → s.conductor + 1 < 2 ^ 64)
    (ht : f.next = some t) :
  ∃ s'', ((s'.leaveWaiting us o).putBack f.putBack).switchTo t = some s'' ∧ s''.Inv
  := by
  have hcur' := hsearched.keep _ (.inr hcur)
  rw [hcur, ← hsearched.same.thisThread] at hcur'
  obtain ⟨s₂, place₂, hleave, h₂, hsame₂, hrunning₂, hheld₂, hwaiting₂, hkeep₂⟩ :=
    @Kept.leaveWaiting _ _ _ _ _ _ us o h' hcur'.1 (by rw [hcur'.2, hsearched.same.thisThread, hstate])
      hus (by rw [hsearched.conductor]; exact hcount)
  have hne : ∀ u, place' u = .held → u ≠ s'.thisThread := by
    rintro u hu rfl
    rw [hcur'.1] at hu
    cases hu
  have hback : ∀ u, f.putBack = some u → place₂ u = .held ∧ Waits (s₂.thread u) := by
    intro u hu
    obtain ⟨hplace, hwaits⟩ := hsearched.back u hu
    rw [(hkeep₂ u (hne u hplace)).1, (hkeep₂ u (hne u hplace)).2]
    exact ⟨hplace, hwaits⟩
  obtain ⟨place₃, h₃, hsame₃, hthread₃, hheld₃, hkeep₃⟩ := h₂.putBack hback
  obtain ⟨htplace, hruns, htback⟩ := hsearched.next t ht
  have ht₂ := hkeep₂ t (hne t htplace)
  have hthis₃ : (s₂.putBack f.putBack).thisThread = s'.thisThread := by
    rw [hsame₃.thisThread, hsame₂.thisThread]
  rw [hleave]
  apply h₃.switchTo
  · rw [hkeep₃ t htback, ht₂.1, htplace]
  · rw [hthread₃, ht₂.2]
    apply hruns
  · intro u hu
    by_cases hub : f.putBack = some u
    · exact absurd hu (hheld₃ u hub)
    · rw [hkeep₃ u hub] at hu
      have hus' : u ≠ s'.thisThread := by
        rintro rfl
        apply hheld₂ hu
      rw [(hkeep₂ u hus').1] at hu
      rcases hsearched.held u hu with hu | hu | hu
      · exact absurd hu (hnone u)
      · rw [ht] at hu
        cases hu
        rfl
      · exact absurd hu hub
  · rw [hthis₃, hthread₃, hwaiting₂]
    apply iff_of_false
    · rw [hkeep₃]
      · apply hrunning₂
      · intro hback'
        apply hne _ (hsearched.back _ hback').1 rfl
    · nofun

/-- The current thread waits for an object. -/
theorem Inv.impWait {o : Waited τ κ} {us : ℕ} (h : s.Inv) (hacts : s.Acts)
    (hcount : us ≠ 0 → s.conductor + 1 < 2 ^ 64) (hs : s.impWait o us = some s') :
  s'.Inv
  := by
  obtain ⟨place, hkept, hcur, hnone⟩ := h
  obtain ⟨f, s₁, place₁, hselect, h₁, hsearched, _⟩ := hkept.select 16 (Waited.asThread o) id
  rw [Scheduler.impWait] at hs
  split at hs
  · cases hs
  · rw [hselect] at hs
    cases hnext : f.next with
    | none =>
        obtain ⟨next, back, needGc⟩ := f
        cases hnext
        cases hs
    | some t =>
        obtain ⟨s₂, hswitch, hinv⟩ := @Kept.suspendTo _ _ _ _ _ _ _ _ _ f us (some o) hcur hnone
          hsearched h₁ hacts nofun hcount hnext
        obtain ⟨next, back, needGc⟩ := f
        cases hnext
        simp only [hswitch, Option.some.injEq] at hs
        rw [← hs]
        apply hinv

/-- The current thread sleeps. -/
theorem Inv.sleep {us : ℕ} (h : s.Inv) (hacts : s.Acts)
    (hcount : us ≠ 0 → s.conductor + 1 < 2 ^ 64) (hs : s.sleep us = some s') :
  s'.Inv
  := by
  rw [Scheduler.sleep] at hs
  split at hs
  · apply h.preempt hs
  · rename_i hus
    obtain ⟨place, hkept, hcur, hnone⟩ := h
    obtain ⟨f, s₁, place₁, hselect, h₁, hsearched, hback⟩ := hkept.select 16 none fun _ => none
    rw [or_self] at hback
    rw [hselect] at hs
    cases hnext : f.next with
    | none =>
        obtain ⟨next, back, needGc⟩ := f
        cases hnext
        cases hs
    | some t =>
        obtain ⟨s₂, hswitch, hinv⟩ := @Kept.suspendTo _ _ _ _ _ _ _ _ _ f us none hcur hnone
          hsearched h₁ hacts (fun _ => hus) hcount hnext
        rw [hback] at hswitch
        obtain ⟨next, back, needGc⟩ := f
        cases hnext
        simp only [show (s₁.leaveWaiting us none).switchTo t = some s₂ from hswitch,
          Option.some.injEq] at hs
        rw [← hs]
        apply hinv

end Scheduler

end UOS
