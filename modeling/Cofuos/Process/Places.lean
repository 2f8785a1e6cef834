import Cofuos.Process.Scheduler

/-!
# The places of threads

A thread that exists and has not been taken by the collector is running, on one of the queues,
asleep, or in `gc_ptr`. We assign a place to every thread, so that no thread has two of them, and say
what the scheduler has to record for that. While a step is under way, the threads that it has taken
off the queues are in its hands. Each move of a thread between two places keeps the records right.
-/

namespace UOS

namespace Scheduler

variable {τ κ : Type} [DecidableEq τ] [DecidableEq κ]

/-- Where a thread is. -/
inductive Place (τ κ : Type) where
  | unborn
  | running
  /-- A step that is under way has the thread in its hands. -/
  | held
  | queued (q : QueueId τ κ)
  | sleeping
  | gcPtr
  | collected

namespace Place

/-- A place of a thread that the collector has nothing to do with yet. -/
def Alive : Place τ κ → Prop
  | .unborn => False
  | .collected => False
  | .queued .gc => False
  | _ => True

/-- A place of a thread that has not stopped running either. -/
def Plain : Place τ κ → Prop
  | .gcPtr => False
  | p => p.Alive

omit [DecidableEq τ] [DecidableEq κ] in
theorem Plain.alive {p : Place τ κ} (h : p.Plain) : p.Alive := by
  cases p with
  | gcPtr => cases h
  | _ => apply h

/-- On a ready queue. -/
def isReady : Place τ κ → Bool
  | .queued (.ready _) => true
  | _ => false

end Place

/-- A thread that does not wait. -/
structure Idle (th : Thread τ κ) : Prop where
  waitFor : th.waitFor = none
  ticket : th.timerTicket = 0

/-- A thread is in the state that its place demands. -/
def Fits (th : Thread τ κ) : Place τ κ → Prop
  | .unborn => th.timerTicket = 0
  | .running => (th.state = .running ∨ th.state = .stopped) ∧ Idle th
  | .held => True
  | .queued (.ready _) => (th.state = .ready ∨ th.state = .stopped) ∧ Idle th
  | .queued (.wait o) => th.state = .waiting ∧ th.waitFor = some o
  | .queued .gc => th.state = .stopped ∧ Idle th
  | .sleeping => th.state = .waiting ∧ th.waitFor = none ∧ th.timerTicket ≠ 0
  | .gcPtr => th.state = .stopped ∧ Idle th
  | .collected => th.state = .stopped ∧ Idle th

/-- The queues hold the threads whose places they are. -/
def Laid (Q : Queues (QueueId τ κ) τ) (place : τ → Place τ κ) : Prop :=
  ∃ list, Q.Lays list ∧ ∀ q t, t ∈ list q ↔ place t = .queued q

/-- The tickets that can still be used are those that the threads have. -/
structure Tickets (thread : τ → Thread τ κ) (record : List (ℕ × τ)) (conductor : ℕ) : Prop where
  owner : ∀ k t, (k, t) ∈ record → (thread t).timerTicket = k
  bounds : ∀ k t, (k, t) ∈ record → 0 < k ∧ k ≤ conductor
  unique : ∀ k t u, (k, t) ∈ record → (k, u) ∈ record → t = u
  live : ∀ t, (thread t).timerTicket ≠ 0 → ((thread t).timerTicket, t) ∈ record

/-- What holds while a step is under way. -/
structure Kept (s : Scheduler τ κ) (place : τ → Place τ κ) : Prop where
  laid : Laid s.queues place
  fits : ∀ t, Fits (s.thread t) (place t)
  tickets : Tickets s.thread s.record s.conductor
  gcPtr : ∀ t, s.gcPtr = some t ↔ place t = .gcPtr
  nodup : s.gcLog.Nodup
  gcLog : ∀ t, t ∈ s.gcLog ↔ place t = .queued .gc ∨ place t = .collected
  collected : ∀ t, t ∈ s.collected ↔ place t = .collected
  born : ∀ t, t ∈ s.born ↔ place t ≠ .unborn
  running : ∀ t, place t = .running → t = s.thisThread

/-- What holds between the steps. -/
def Inv (s : Scheduler τ κ) : Prop :=
  ∃ place, s.Kept place ∧ place s.thisThread = .running ∧ ∀ t, place t ≠ .held

variable {s s' : Scheduler τ κ} {place place' : τ → Place τ κ} {Q : Queues (QueueId τ κ) τ}
  {q : QueueId τ κ} {p : Place τ κ} {t : τ}

omit [DecidableEq κ] in
/-- Nothing is held after a thread has been moved elsewhere. -/
theorem ne_held_update (h : ∀ u, place u ≠ .held) (hp : p ≠ .held) (u : τ) :
  Function.update place t p u ≠ .held
  := by
  by_cases hu : u = t
  · rw [hu, Function.update_self]
    apply hp
  · rw [Function.update_of_ne hu]
    apply h u

/-! ### Queues -/

namespace Laid

omit [DecidableEq κ] in
/-- A thread that is on no queue moves elsewhere. -/
theorem relabel (h : Laid Q place) (ht : ∀ q, place t ≠ .queued q) (hp : ∀ q, p ≠ .queued q) :
  Laid Q (Function.update place t p)
  := by
  obtain ⟨list, hlays, hmem⟩ := h
  refine ⟨list, hlays, ?_⟩
  intro q u
  rw [hmem]
  by_cases hu : u = t
  · rw [hu, Function.update_self]
    exact iff_of_false (ht q) (hp q)
  · rw [Function.update_of_ne hu]

/-- A thread that is on no queue is put on one. -/
theorem put (h : Laid Q place) (ht : ∀ q, place t ≠ .queued q) :
  Laid (Q.put q t) (Function.update place t (.queued q))
  := by
  obtain ⟨list, hlays, hmem⟩ := h
  refine ⟨_, hlays.put fun q' ht' => ht q' ((hmem q' t).mp ht'), ?_⟩
  intro q' u
  by_cases hu : u = t
  · rw [hu, Function.update_self]
    by_cases hq : q' = q
    · rw [hq, Function.update_self]
      simp
    · rw [Function.update_of_ne hq, hmem]
      apply iff_of_false (ht q')
      rintro ⟨⟩
      apply hq rfl
  · rw [Function.update_of_ne hu, ← hmem]
    by_cases hq : q' = q
    · rw [hq, Function.update_self]
      simp [hu]
    · rw [Function.update_of_ne hq]

/-- The first thread is taken from a queue, if there is one. -/
theorem get (h : Laid Q place) (q : QueueId τ κ) :
  ((Q.get q).1 = none ∧ (Q.get q).2 = Q) ∨
    ∃ t, (Q.get q).1 = some t ∧ place t = .queued q ∧
      Laid (Q.get q).2 (Function.update place t .held)
  := by
  obtain ⟨list, hlays, hmem⟩ := h
  cases hl : list q with
  | nil =>
      rw [hlays.get_nil hl]
      exact .inl ⟨rfl, rfl⟩
  | cons t l =>
      obtain ⟨hfirst, hlays'⟩ := hlays.get_cons hl
      have ht : t ∈ list q := by rw [hl]; apply List.mem_cons_self
      have hnodup := hlays.nodup q
      rw [hl, List.nodup_cons] at hnodup
      refine .inr ⟨t, hfirst, (hmem q t).mp ht, _, hlays', ?_⟩
      intro q' u
      by_cases hu : u = t
      · rw [hu, Function.update_self]
        apply iff_of_false
        · by_cases hq : q' = q
          · rw [hq, Function.update_self]
            apply hnodup.1
          · rw [Function.update_of_ne hq]
            intro ht'
            apply hq (hlays.apart q' q t ht' ht)
        · rintro ⟨⟩
      · rw [Function.update_of_ne hu, ← hmem]
        by_cases hq : q' = q
        · rw [hq, Function.update_self, hl, List.mem_cons]
          simp [hu]
        · rw [Function.update_of_ne hq]

/-- A thread is taken from the middle of a queue. -/
theorem unlink {fuel : ℕ} {members : List τ} (h : Laid Q place) (ht : place t = .queued q)
    (hmembers : ∀ u, place u = .queued q → u ∈ members) (hfuel : members.length ≤ fuel) :
  ∃ Q', Q.unlink fuel q t = some Q' ∧ Laid Q' (Function.update place t .held)
  := by
  obtain ⟨list, hlays, hmem⟩ := h
  have htq : t ∈ list q := (hmem q t).mpr ht
  have hlength : (list q).length ≤ members.length := by
    apply hlays.length_le
    intro u hu
    apply hmembers u ((hmem q u).mp hu)
  obtain ⟨Q', hQ', hlays'⟩ := hlays.unlink htq (hlength.trans hfuel)
  refine ⟨Q', hQ', _, hlays', ?_⟩
  intro q' u
  by_cases hu : u = t
  · rw [hu, Function.update_self]
    apply iff_of_false
    · by_cases hq : q' = q
      · rw [hq, Function.update_self]
        apply (hlays.nodup q).not_mem_erase
      · rw [Function.update_of_ne hq]
        intro ht'
        apply hq (hlays.apart q' q t ht' htq)
    · rintro ⟨⟩
  · rw [Function.update_of_ne hu, ← hmem]
    by_cases hq : q' = q
    · rw [hq, Function.update_self]
      apply List.mem_erase_of_ne hu
    · rw [Function.update_of_ne hq]

end Laid

/-! ### Tickets -/

namespace Tickets

variable {thread thread' : τ → Thread τ κ} {record : List (ℕ × τ)} {conductor : ℕ}

omit [DecidableEq τ] [DecidableEq κ] in
/-- Only the tickets of the threads matter. -/
theorem congr (h : Tickets thread record conductor)
    (hticket : ∀ u, (thread' u).timerTicket = (thread u).timerTicket) :
  Tickets thread' record conductor
  := by
  constructor
  · intro k t hk
    rw [hticket, h.owner k t hk]
  · apply h.bounds
  · apply h.unique
  · intro t ht
    rw [hticket] at ht ⊢
    apply h.live t ht

omit [DecidableEq τ] [DecidableEq κ] in
/-- The ticket of a thread is cancelled, and the thread forgets it. -/
theorem clear (h : Tickets thread record conductor) (ht : (thread' t).timerTicket = 0)
    (hthread : ∀ u ≠ t, thread' u = thread u) :
  Tickets thread' (record.filter fun e => e.1 ≠ (thread t).timerTicket) conductor
  := by
  have hmem : ∀ k u, (k, u) ∈ record.filter (fun e => e.1 ≠ (thread t).timerTicket) →
      (k, u) ∈ record ∧ k ≠ (thread t).timerTicket := by
    intro k u hk
    rw [List.mem_filter] at hk
    exact ⟨hk.1, of_decide_eq_true hk.2⟩
  constructor
  · intro k u hk
    obtain ⟨hin, hne⟩ := hmem k u hk
    have hu : u ≠ t := by
      rintro rfl
      apply hne (h.owner k u hin).symm
    rw [hthread u hu]
    apply h.owner k u hin
  · intro k u hk
    apply h.bounds k u (hmem k u hk).1
  · intro k u v hu hv
    apply h.unique k u v (hmem k u hu).1 (hmem k v hv).1
  · intro u hne
    have hu : u ≠ t := by
      rintro rfl
      apply hne ht
    rw [hthread u hu] at hne ⊢
    have hlive := h.live u hne
    rw [List.mem_filter]
    refine ⟨hlive, decide_eq_true ?_⟩
    intro heq
    apply hu
    apply h.unique _ u t hlive
    change (thread u).timerTicket = (thread t).timerTicket at heq
    rw [heq] at hne ⊢
    apply h.live t hne

omit [DecidableEq τ] [DecidableEq κ] in
/-- There is nothing to cancel for a thread without a ticket. -/
theorem filter_zero (h : Tickets thread record conductor) :
  record.filter (fun e => e.1 ≠ 0) = record
  := by
  apply List.filter_eq_self.mpr
  rintro ⟨k, t⟩ hk
  exact decide_eq_true (Nat.ne_of_gt (h.bounds k t hk).1)

omit [DecidableEq τ] [DecidableEq κ] in
/-- A thread gets a new ticket. -/
theorem draw (h : Tickets thread record conductor) (hnone : (thread t).timerTicket = 0)
    (ht : (thread' t).timerTicket = conductor + 1) (hthread : ∀ u ≠ t, thread' u = thread u) :
  Tickets thread' ((conductor + 1, t) :: record) (conductor + 1)
  := by
  have hne : ∀ k u, (k, u) ∈ record → u ≠ t := by
    rintro k u hk rfl
    have hpos := (h.bounds k u hk).1
    rw [← h.owner k u hk, hnone] at hpos
    exact absurd hpos (Nat.lt_irrefl 0)
  constructor
  · intro k u hk
    rcases List.mem_cons.mp hk with heq | hk
    · cases heq
      apply ht
    · rw [hthread u (hne k u hk)]
      apply h.owner k u hk
  · intro k u hk
    rcases List.mem_cons.mp hk with heq | hk
    · cases heq
      omega
    · have := h.bounds k u hk
      lia
  · intro k u v hu hv
    rcases List.mem_cons.mp hu with hu | hu
    · rcases List.mem_cons.mp hv with hv | hv
      · cases hu
        cases hv
        rfl
      · cases hu
        have := (h.bounds _ v hv).2
        omega
    · rcases List.mem_cons.mp hv with hv | hv
      · cases hv
        have := (h.bounds _ u hu).2
        omega
      · apply h.unique k u v hu hv
  · intro u hu
    by_cases hut : u = t
    · rw [hut, ht]
      apply List.mem_cons_self
    · rw [hthread u hut] at hu ⊢
      apply List.mem_cons_of_mem
      apply h.live u hu

end Tickets

/-! ### Moves -/

/-- What most moves leave alone. -/
structure Same (s s' : Scheduler τ κ) : Prop where
  thisThread : s'.thisThread = s.thisThread
  born : s'.born = s.born
  gcPtr : s'.gcPtr = s.gcPtr
  thGc : s'.thGc = s.thGc
  ev : s'.ev = s.ev
  collected : s'.collected = s.collected

omit [DecidableEq τ] [DecidableEq κ] in
theorem Same.refl (s : Scheduler τ κ) : s.Same s := ⟨rfl, rfl, rfl, rfl, rfl, rfl⟩

omit [DecidableEq τ] [DecidableEq κ] in
theorem Same.trans {s₁ s₂ s₃ : Scheduler τ κ} (h₁ : s₁.Same s₂) (h₂ : s₂.Same s₃) :
  s₁.Same s₃
  where
  thisThread := h₂.thisThread.trans h₁.thisThread
  born := h₂.born.trans h₁.born
  gcPtr := h₂.gcPtr.trans h₁.gcPtr
  thGc := h₂.thGc.trans h₁.thGc
  ev := h₂.ev.trans h₁.ev
  collected := h₂.collected.trans h₁.collected

omit [DecidableEq τ] [DecidableEq κ] in
theorem same_queues (s : Scheduler τ κ) (Q : Queues (QueueId τ κ) τ) :
  s.Same { s with queues := Q }
  := ⟨rfl, rfl, rfl, rfl, rfl, rfl⟩

theorem same_readyPut (s : Scheduler τ κ) (t : τ) : s.Same (s.readyPut t) :=
  ⟨rfl, rfl, rfl, rfl, rfl, rfl⟩

theorem same_gcPut (s : Scheduler τ κ) (t : τ) : s.Same (s.gcPut t) :=
  ⟨rfl, rfl, rfl, rfl, rfl, rfl⟩

omit [DecidableEq κ] in
theorem same_modify (s : Scheduler τ κ) (t : τ) (f : Thread τ κ → Thread τ κ) :
  s.Same (s.modify t f)
  := ⟨rfl, rfl, rfl, rfl, rfl, rfl⟩

omit [DecidableEq κ] in
/-- The tickets when a thread is changed, but not its ticket. -/
theorem ticket_modify {f : Thread τ κ → Thread τ κ}
    (hf : (f (s.thread t)).timerTicket = (s.thread t).timerTicket) (u : τ) :
  ((s.modify t f).thread u).timerTicket = (s.thread u).timerTicket
  := by
  change (Function.update s.thread t _ u).timerTicket = _
  by_cases hu : u = t
  · rw [hu, Function.update_self, hf]
  · rw [Function.update_of_ne hu]

namespace Kept

omit [DecidableEq κ] in
/-- A thread moves, and nothing else happens. -/
theorem move (h : s.Kept place) (hlaid : Laid s'.queues (Function.update place t p))
    (hthread : ∀ u ≠ t, s'.thread u = s.thread u) (hfits : Fits (s'.thread t) p)
    (htickets : Tickets s'.thread s'.record s'.conductor)
    (hptr : ∀ u ≠ t, s'.gcPtr = some u ↔ s.gcPtr = some u) (hptr' : s'.gcPtr = some t ↔ p = .gcPtr)
    (hnodup : s'.gcLog.Nodup) (hlog : ∀ u ≠ t, u ∈ s'.gcLog ↔ u ∈ s.gcLog)
    (hlog' : t ∈ s'.gcLog ↔ p = .queued .gc ∨ p = .collected)
    (hcollected : ∀ u ≠ t, u ∈ s'.collected ↔ u ∈ s.collected)
    (hcollected' : t ∈ s'.collected ↔ p = .collected)
    (hborn : ∀ u ≠ t, u ∈ s'.born ↔ u ∈ s.born) (hborn' : t ∈ s'.born ↔ p ≠ .unborn)
    (hrunning : ∀ u ≠ t, place u = .running → u = s'.thisThread)
    (hrunning' : p = .running → t = s'.thisThread) :
  s'.Kept (Function.update place t p)
  := by
  have hall : ∀ P : τ → Place τ κ → Prop, P t p → (∀ u ≠ t, P u (place u)) →
      ∀ u, P u (Function.update place t p u) := by
    intro P ht hu u
    by_cases hut : u = t
    · rw [hut, Function.update_self]
      apply ht
    · rw [Function.update_of_ne hut]
      apply hu u hut
  constructor
  · apply hlaid
  · apply hall fun u r => Fits (s'.thread u) r
    · apply hfits
    · intro u hu
      rw [hthread u hu]
      apply h.fits
  · apply htickets
  · apply hall fun u r => s'.gcPtr = some u ↔ r = .gcPtr
    · apply hptr'
    · intro u hu
      rw [hptr u hu, h.gcPtr]
  · apply hnodup
  · apply hall fun u r => u ∈ s'.gcLog ↔ r = .queued .gc ∨ r = .collected
    · apply hlog'
    · intro u hu
      rw [hlog u hu, h.gcLog]
  · apply hall fun u r => u ∈ s'.collected ↔ r = .collected
    · apply hcollected'
    · intro u hu
      rw [hcollected u hu, h.collected]
  · apply hall fun u r => u ∈ s'.born ↔ r ≠ .unborn
    · apply hborn'
    · intro u hu
      rw [hborn u hu, h.born]
  · apply hall fun u r => r = .running → u = s'.thisThread
    · apply hrunning'
    · apply hrunning

omit [DecidableEq κ] in
/-- A thread moves between two places that the collector has nothing to do with. -/
theorem alive (h : s.Kept place) (hfrom : (place t).Alive) (hto : p.Alive)
    (hlaid : Laid s'.queues (Function.update place t p))
    (hthread : ∀ u ≠ t, s'.thread u = s.thread u) (hfits : Fits (s'.thread t) p)
    (htickets : Tickets s'.thread s'.record s'.conductor)
    (hptr : ∀ u ≠ t, s'.gcPtr = some u ↔ s.gcPtr = some u) (hptr' : s'.gcPtr = some t ↔ p = .gcPtr)
    (hlog : s'.gcLog = s.gcLog) (hcollected : s'.collected = s.collected)
    (hborn : s'.born = s.born) (hrunning : ∀ u ≠ t, place u = .running → u = s'.thisThread)
    (hrunning' : p = .running → t = s'.thisThread) :
  s'.Kept (Function.update place t p)
  := by
  have hside : ∀ r : Place τ κ, ¬ r.Alive → (place t = r ↔ p = r) := by
    intro r hr
    apply iff_of_false
    · intro heq
      rw [heq] at hfrom
      apply hr hfrom
    · rintro rfl
      apply hr hto
  apply h.move hlaid hthread hfits htickets hptr hptr'
  · rw [hlog]
    apply h.nodup
  · intro u _
    rw [hlog]
  · rw [hlog, h.gcLog, hside _ id, hside _ id]
  · intro u _
    rw [hcollected]
  · rw [hcollected, h.collected, hside _ id]
  · intro u _
    rw [hborn]
  · rw [hborn, h.born, ne_eq, ne_eq, hside _ id]
  · apply hrunning
  · apply hrunning'

omit [DecidableEq κ] in
/-- A thread moves between two plain places. -/
theorem plain (h : s.Kept place) (hfrom : (place t).Plain) (hto : p.Plain)
    (hrunning : p = .running → t = s.thisThread)
    (hlaid : Laid s'.queues (Function.update place t p))
    (hthread : ∀ u ≠ t, s'.thread u = s.thread u) (hfits : Fits (s'.thread t) p)
    (htickets : Tickets s'.thread s'.record s'.conductor) (hsame : s.Same s')
    (hlog : s'.gcLog = s.gcLog) :
  s'.Kept (Function.update place t p)
  := by
  apply h.alive hfrom.alive hto.alive hlaid hthread hfits htickets
  · intro u _
    rw [hsame.gcPtr]
  · rw [hsame.gcPtr, h.gcPtr]
    apply iff_of_false
    · intro heq
      rw [heq] at hfrom
      apply hfrom
    · rintro rfl
      apply hto
  · apply hlog
  · apply hsame.collected
  · apply hsame.born
  · intro u _ hu
    rw [hsame.thisThread]
    apply h.running u hu
  · rw [hsame.thisThread]
    apply hrunning

omit [DecidableEq κ] in
/-- A thread is changed, but not its ticket, and stays where it is. -/
theorem alter {f : Thread τ κ → Thread τ κ} (h : s.Kept place)
    (hfits : Fits (f (s.thread t)) (place t))
    (hf : (f (s.thread t)).timerTicket = (s.thread t).timerTicket) :
  (s.modify t f).Kept place
  := by
  constructor
  · apply h.laid
  · intro u
    change Fits (Function.update s.thread t _ u) _
    by_cases hu : u = t
    · rw [hu, Function.update_self]
      apply hfits
    · rw [Function.update_of_ne hu]
      apply h.fits
  · apply h.tickets.congr (ticket_modify hf)
  · apply h.gcPtr
  · apply h.nodup
  · apply h.gcLog
  · apply h.collected
  · apply h.born
  · apply h.running

omit [DecidableEq κ] in
/-- A thread that a step has in its hands, and that has the same ticket as before, is changed. -/
theorem modify {f : Thread τ κ → Thread τ κ} (h : s.Kept place) (ht : place t = .held)
    (hf : (f (s.thread t)).timerTicket = (s.thread t).timerTicket) :
  (s.modify t f).Kept place
  := by
  apply h.alter _ hf
  rw [ht]
  trivial

omit [DecidableEq κ] in
/-- The current thread is about to leave the processor. -/
theorem release (h : s.Kept place) (ht : place t = .running) :
  s.Kept (Function.update place t .held)
  := by
  apply h.plain
  · rw [ht]
    trivial
  · trivial
  · nofun
  · apply h.laid.relabel
    · rw [ht]
      nofun
    · nofun
  · intro u _
    rfl
  · trivial
  · apply h.tickets
  · apply Same.refl
  · rfl

/-- A thread is put on a ready queue or a wait queue. -/
theorem put (h : s.Kept place) (ht : place t = .held) (hq : (Place.queued q).Plain)
    (hfits : Fits (s.thread t) (.queued q)) :
  ({ s with queues := s.queues.put q t }).Kept (Function.update place t (.queued q))
  := by
  apply h.plain
  · rw [ht]
    trivial
  · apply hq
  · nofun
  · apply h.laid.put
    rw [ht]
    nofun
  · intro u _
    rfl
  · apply hfits
  · apply h.tickets
  · exact ⟨rfl, rfl, rfl, rfl, rfl, rfl⟩
  · rfl

/-- A thread that does not wait is put on its ready queue. -/
theorem readyPut (h : s.Kept place) (ht : place t = .held)
    (hstate : (s.thread t).state = .ready ∨ (s.thread t).state = .stopped) (hidle : Idle (s.thread t)) :
  (s.readyPut t).Kept (Function.update place t (.queued (.ready (s.thread t).priority)))
  := h.put ht trivial ⟨hstate, hidle⟩

/-- The first thread is taken from a ready queue or a wait queue. -/
theorem take (h : s.Kept place) (hq : (Place.queued q).Plain)
    (ht : (s.queues.get q).1 = some t) :
  place t = .queued q ∧
    ({ s with queues := (s.queues.get q).2 }).Kept (Function.update place t .held)
  := by
  rcases h.laid.get q with ⟨hnone, _⟩ | ⟨u, hu, hplace, hlaid⟩
  · rw [hnone] at ht
    cases ht
  · rw [hu] at ht
    cases ht
    refine ⟨hplace, ?_⟩
    apply h.plain
    · rw [hplace]
      apply hq
    · trivial
    · nofun
    · apply hlaid
    · intro v _
      rfl
    · trivial
    · apply h.tickets
    · exact ⟨rfl, rfl, rfl, rfl, rfl, rfl⟩
    · rfl

omit [DecidableEq κ] in
/-- A thread comes into the hands of a step, without its ticket. -/
theorem wake (h : s.Kept place) (hfrom : (place t).Plain)
    (hlaid : Laid s'.queues (Function.update place t .held))
    (hthread : ∀ u ≠ t, s'.thread u = s.thread u) (hticket : (s'.thread t).timerTicket = 0)
    (hrecord : s'.record = s.record.filter fun e => e.1 ≠ (s.thread t).timerTicket)
    (hconductor : s'.conductor = s.conductor) (hsame : s.Same s') (hlog : s'.gcLog = s.gcLog) :
  s'.Kept (Function.update place t .held)
  := by
  apply h.plain hfrom
  · trivial
  · nofun
  · apply hlaid
  · apply hthread
  · trivial
  · rw [hrecord, hconductor]
    apply h.tickets.clear hticket hthread
  · apply hsame
  · apply hlog

/-- A stopped thread is put on the queue of the collector. -/
theorem gcPut (h : s.Kept place) (ht : place t = .held) (hstate : (s.thread t).state = .stopped)
    (hidle : Idle (s.thread t)) :
  (s.gcPut t).Kept (Function.update place t (.queued .gc))
  := by
  have hlog : t ∉ s.gcLog := by
    rw [h.gcLog, ht]
    nofun
  apply h.move
  · apply h.laid.put
    rw [ht]
    nofun
  · intro u _
    rfl
  · exact ⟨hstate, hidle⟩
  · apply h.tickets
  · intro u _
    rfl
  · change s.gcPtr = some t ↔ _
    rw [h.gcPtr, ht]
    exact iff_of_false nofun nofun
  · apply h.nodup.cons hlog
  · intro u hu
    simp [Scheduler.gcPut, hu]
  · simp [Scheduler.gcPut]
  · intro u _
    rfl
  · change t ∈ s.collected ↔ _
    rw [h.collected, ht]
    exact iff_of_false nofun nofun
  · intro u _
    rfl
  · change t ∈ s.born ↔ _
    rw [h.born, ht]
    exact iff_of_true nofun nofun
  · intro u _ hu
    apply h.running u hu
  · nofun

omit [DecidableEq κ] in
/-- The current thread, which is stopped, is kept until the next switch. -/
theorem park (h : s.Kept place) (ht : place t = .running) (hstate : (s.thread t).state = .stopped)
    (hptr : s.gcPtr = none) :
  ({ s with gcPtr := some t }).Kept (Function.update place t .gcPtr)
  := by
  have hidle : Idle (s.thread t) := by
    have := h.fits t
    rw [ht] at this
    apply this.2
  apply h.alive
  · rw [ht]
    trivial
  · trivial
  · apply h.laid.relabel
    · rw [ht]
      nofun
    · nofun
  · intro u _
    rfl
  · exact ⟨hstate, hidle⟩
  · apply h.tickets
  · intro u hu
    rw [hptr]
    apply iff_of_false
    · rintro ⟨⟩
      apply hu rfl
    · nofun
  · exact iff_of_true rfl rfl
  · rfl
  · rfl
  · rfl
  · intro u _ hu
    apply h.running u hu
  · nofun

omit [DecidableEq κ] in
/-- The thread that has been kept is taken. -/
theorem unpark (h : s.Kept place) (hptr : s.gcPtr = some t) :
  ({ s with gcPtr := none }).Kept (Function.update place t .held)
  := by
  have ht : place t = .gcPtr := (h.gcPtr t).mp hptr
  apply h.alive
  · rw [ht]
    trivial
  · trivial
  · apply h.laid.relabel
    · rw [ht]
      nofun
    · nofun
  · intro u _
    rfl
  · trivial
  · apply h.tickets
  · intro u hu
    rw [hptr]
    apply iff_of_false
    · nofun
    · rintro ⟨⟩
      apply hu rfl
  · exact iff_of_false nofun nofun
  · rfl
  · rfl
  · rfl
  · intro u _ hu
    apply h.running u hu
  · nofun

omit [DecidableEq κ] in
/-- A thread runs after the current one has left. -/
theorem run (h : s.Kept place) (ht : place t = .held) (hstate : (s.thread t).state = .running)
    (hidle : Idle (s.thread t)) (hleft : ∀ u, place u ≠ .running) :
  ({ s with thisThread := t }).Kept (Function.update place t .running)
  := by
  apply h.alive
  · rw [ht]
    trivial
  · trivial
  · apply h.laid.relabel
    · rw [ht]
      nofun
    · nofun
  · intro u _
    rfl
  · exact ⟨.inl hstate, hidle⟩
  · apply h.tickets
  · intro u _
    rfl
  · change s.gcPtr = some t ↔ _
    rw [h.gcPtr, ht]
    exact iff_of_false nofun nofun
  · rfl
  · rfl
  · rfl
  · intro u _ hu
    exact absurd hu (hleft u)
  · intro _
    rfl

end Kept

end Scheduler

end UOS
