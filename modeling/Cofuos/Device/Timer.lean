import Mathlib.Tactic

/-!
# The timer

`basic_timer` of `kernel/dev/timer.cpp` keeps its tickets in a list in the order of their deadlines,
each with the number of ticks between the ticket before it and itself. A ticket that has been cancelled
is only taken from the record of valid tickets, and it stays in the list until its time has come.

A client sees a clock and the deadline of every ticket. The sums of the ticks from the beginning of the
list are the times that are left until the deadlines.
-/

namespace UOS

/-- What is to be called for a ticket, and the interval after which it is called again. It is `0` if it
is called only once. -/
structure Alarm (F A : Type) where
  ticket : ℕ
  func : F
  arg : A
  interval : ℕ

/-- `queue_type` -/
structure QueueType (F A : Type) extends Alarm F A where
  diffTick : ℕ

/-- `basic_timer`. Tickets are numbered by `conductor`. -/
structure BasicTimer (F A : Type) where
  conductor : ℕ := 0
  record : Finset ℕ := ∅
  deltaQueue : List (QueueType F A) := []

namespace BasicTimer

variable {F A : Type}

/-! ### The queue -/

/-- Puts a node before the first one whose time is not before its own. -/
def place (node : QueueType F A) : List (QueueType F A) → List (QueueType F A)
  | [] => [node]
  | it :: q =>
      if node.diffTick ≤ it.diffTick then
        node :: { it with diffTick := it.diffTick - node.diffTick } :: q
      else it :: place { node with diffTick := node.diffTick - it.diffTick } q

/-- What the first loop of `step` has done: the callbacks in their order, the record, the queue, and
`periodic_list`. -/
structure Drained (F A : Type) where
  calls : List (Alarm F A)
  record : Finset ℕ
  deltaQueue : List (QueueType F A)
  periodicList : List (QueueType F A)

/-- The first loop of `step`: takes the nodes whose time has come from the front of the queue. -/
def drain (count : ℕ) (record : Finset ℕ) (periodicList : List (QueueType F A)) :
    List (QueueType F A) → Drained F A
  | [] => ⟨[], record, [], periodicList⟩
  | cur :: q =>
      if count < cur.diffTick then
        ⟨[], record, { cur with diffTick := cur.diffTick - count } :: q, periodicList⟩
      else
        let count := count - cur.diffTick
        if cur.ticket ∉ record then drain count record periodicList q
        else
          let rest :=
            if cur.interval = 0 then drain count (record.erase cur.ticket) periodicList q
            else
              let diffTick := if count < cur.interval then cur.interval - count else 0
              drain count record ({ cur with diffTick := diffTick } :: periodicList) q
          { rest with calls := cur.toAlarm :: rest.calls }

/-! ### Operations -/

/-- `heartbeat_us` -/
def heartbeatUs : ℕ := 1000

/-- The number of ticks for a time. -/
def totalTick (us : ℕ) : ℕ := max (us / heartbeatUs) 1

/-- `wait` -/
def wait (us : ℕ) (func : F) (arg : A) (repeated : Bool) (t : BasicTimer F A) : ℕ × BasicTimer F A :=
  let ticket := t.conductor + 1
  let node : QueueType F A :=
    { ticket := ticket
      func := func
      arg := arg
      interval := if repeated = true then totalTick us else 0
      diffTick := totalTick us }
  (ticket,
    { conductor := ticket
      record := insert ticket t.record
      deltaQueue := place node t.deltaQueue })

/-- `cancel` -/
def cancel (ticket : ℕ) (t : BasicTimer F A) : Bool × BasicTimer F A :=
  if ticket ∉ t.record then (false, t)
  else (true, { t with record := t.record.erase ticket })

/-- `step`, of at least one tick. Returns what is called. -/
def step (count : ℕ+) (t : BasicTimer F A) : List (Alarm F A) × BasicTimer F A :=
  let d := drain count t.record [] t.deltaQueue
  (d.calls,
    { t with
      record := d.record
      deltaQueue := d.periodicList.foldl (fun q node => place node q) d.deltaQueue })

/-- A call of the timer. -/
inductive Op (F A : Type) where
  | wait (us : ℕ) (func : F) (arg : A) (repeated : Bool)
  | cancel (ticket : ℕ)
  | step (count : ℕ+)

/-- What a call of the timer gives. -/
inductive Result (F A : Type) where
  | ticket (ticket : ℕ)
  | cancelled (res : Bool)
  | called (calls : List (Alarm F A))

/-- Carries out a call. -/
def exec (t : BasicTimer F A) : Op F A → Result F A × BasicTimer F A
  | .wait us func arg repeated => Prod.map .ticket id (t.wait us func arg repeated)
  | .cancel ticket => Prod.map .cancelled id (t.cancel ticket)
  | .step count => Prod.map .called id (t.step count)

/-- The timer after a number of calls. -/
def run (t : BasicTimer F A) (ops : List (Op F A)) : BasicTimer F A :=
  ops.foldl (fun t op => (t.exec op).2) t

end BasicTimer

/-! ### The clock that a client sees -/

/-- The time in ticks, the deadlines of the tickets, and the tickets that are pending. -/
structure Clock (F A : Type) where
  now : ℕ := 0
  conductor : ℕ := 0
  deadline : ℕ → ℕ := fun _ => 0
  pending : ℕ → Option (Alarm F A) := fun _ => none

namespace Clock

variable {F A : Type}

/-- A new ticket. -/
def wait (us : ℕ) (func : F) (arg : A) (repeated : Bool) (c : Clock F A) : Clock F A :=
  let ticket := c.conductor + 1
  { c with
    conductor := ticket
    deadline := Function.update c.deadline ticket (c.now + max (us / 1000) 1)
    pending := Function.update c.pending ticket (some
      { ticket := ticket
        func := func
        arg := arg
        interval := if repeated = true then max (us / 1000) 1 else 0 }) }

/-- A ticket is cancelled. -/
def cancel (ticket : ℕ) (c : Clock F A) : Clock F A :=
  { c with pending := Function.update c.pending ticket none }

/-- What becomes of a pending ticket when the clock moves to a time. -/
def remains (time deadline : ℕ) (a : Alarm F A) : Option (Alarm F A) :=
  if deadline ≤ time ∧ a.interval = 0 then none else some a

/-- The deadline of a pending ticket when the clock has moved to a time. -/
def postponed (time deadline : ℕ) (a : Alarm F A) : ℕ :=
  if deadline ≤ time ∧ a.interval ≠ 0 then max (deadline + a.interval) time else deadline

/-- The clock moves. -/
def step (count : ℕ) (c : Clock F A) : Clock F A :=
  { c with
    now := c.now + count
    deadline := fun ticket =>
      (c.pending ticket).elim (c.deadline ticket) (postponed (c.now + count) (c.deadline ticket))
    pending := fun ticket =>
      (c.pending ticket).bind (remains (c.now + count) (c.deadline ticket)) }

/-- What a call of the timer does to the clock. -/
def exec (c : Clock F A) : BasicTimer.Op F A → Clock F A
  | .wait us func arg repeated => c.wait us func arg repeated
  | .cancel ticket => c.cancel ticket
  | .step count => c.step count

/-- The clock after a number of calls. -/
def run (c : Clock F A) (ops : List (BasicTimer.Op F A)) : Clock F A := ops.foldl exec c

/-- What a call of the timer is to give: a new ticket, whether the ticket was pending, and the alarms
of the tickets that have to be called, each once, in the order of their deadlines. -/
def Gives (c : Clock F A) : BasicTimer.Op F A → BasicTimer.Result F A → Prop
  | .wait _ _ _ _, .ticket ticket => ticket = c.conductor + 1
  | .cancel ticket, .cancelled res => res = true ↔ c.pending ticket ≠ none
  | .step count, .called calls =>
      (∀ a, a ∈ calls ↔ c.pending a.ticket = some a ∧ c.deadline a.ticket ≤ c.now + count) ∧
        (calls.map Alarm.ticket).Nodup ∧
        calls.Pairwise fun a b => c.deadline a.ticket ≤ c.deadline b.ticket
  | _, _ => False

end Clock

namespace BasicTimer

variable {F A : Type}

/-! ### Sums of ticks -/

/-- The alarms of a queue, each with the sum of the ticks from a time on. -/
def deadlines : ℕ → List (QueueType F A) → List (ℕ × Alarm F A)
  | _, [] => []
  | now, it :: q => (now + it.diffTick, it.toAlarm) :: deadlines (now + it.diffTick) q

variable {now count : ℕ} {q periodic : List (QueueType F A)} {record : Finset ℕ} {node : QueueType F A}
  {p : ℕ × Alarm F A}

theorem deadlines_cons (now : ℕ) (it : QueueType F A) (q : List (QueueType F A)) :
  deadlines now (it :: q) = (now + it.diffTick, it.toAlarm) :: deadlines (now + it.diffTick) q
  := rfl

/-- The alarms are those of the queue. -/
theorem map_deadlines (now : ℕ) (q : List (QueueType F A)) :
  (deadlines now q).map Prod.snd = q.map QueueType.toAlarm
  := by
  induction q generalizing now with
  | nil => rfl
  | cons it q ih => rw [deadlines_cons, List.map_cons, List.map_cons, ih]

/-- The sums do not lie before the time. -/
theorem le_of_mem_deadlines (h : p ∈ deadlines now q) : now ≤ p.1 := by
  induction q generalizing now with
  | nil => cases h
  | cons it q ih =>
      rcases List.mem_cons.mp h with rfl | h
      · exact Nat.le_add_right _ _
      · exact (Nat.le_add_right _ _).trans (ih h)

/-- The sums are in order. -/
theorem sorted_deadlines (now : ℕ) (q : List (QueueType F A)) :
  (deadlines now q).Pairwise fun p p' => p.1 ≤ p'.1
  := by
  induction q generalizing now with
  | nil => exact List.Pairwise.nil
  | cons it q ih =>
      rw [deadlines_cons, List.pairwise_cons]
      exact ⟨fun p hp => le_of_mem_deadlines hp, ih _⟩

/-- Putting a node into the queue adds its sum and leaves the other sums as they are. -/
theorem deadlines_place (now : ℕ) (node : QueueType F A) (q : List (QueueType F A)) :
  (deadlines now (place node q)).Perm ((now + node.diffTick, node.toAlarm) :: deadlines now q)
  := by
  induction q generalizing now node with
  | nil => exact List.Perm.refl _
  | cons it q ih =>
      rw [place]
      split_ifs with hle
      · rw [deadlines_cons, deadlines_cons, deadlines_cons]
        simp only
        rw [Nat.add_assoc, Nat.add_sub_cancel' hle]
      · rw [deadlines_cons, deadlines_cons]
        have hperm := ih (now + it.diffTick) { node with diffTick := node.diffTick - it.diffTick }
        simp only at hperm
        rw [Nat.add_assoc, Nat.add_sub_cancel' (not_le.mp hle).le] at hperm
        exact (hperm.cons _).trans (List.Perm.swap _ _ _)

/-- Putting several nodes into the queue. -/
theorem deadlines_foldl_place (now : ℕ) (nodes q : List (QueueType F A)) :
  (deadlines now (nodes.foldl (fun q node => place node q) q)).Perm
    ((nodes.map fun node => (now + node.diffTick, node.toAlarm)) ++ deadlines now q)
  := by
  induction nodes generalizing q with
  | nil => exact List.Perm.refl _
  | cons node nodes ih =>
      rw [List.foldl_cons, List.map_cons, List.cons_append]
      apply (ih _).trans
      apply ((deadlines_place now node q).append_left _).trans
      apply List.perm_middle

/-! ### The first loop -/

/-- The nodes before a time that have not been cancelled. -/
def due (time : ℕ) (record : Finset ℕ) (l : List (ℕ × Alarm F A)) : List (ℕ × Alarm F A) :=
  l.filter fun p => p.1 ≤ time ∧ p.2.ticket ∈ record

/-- The nodes after a time. -/
def later (time : ℕ) (l : List (ℕ × Alarm F A)) : List (ℕ × Alarm F A) :=
  l.filter fun p => time < p.1

/-- The periodic ones of some nodes, with their new deadlines. -/
def renewed (time : ℕ) (l : List (ℕ × Alarm F A)) : List (ℕ × Alarm F A) :=
  (l.filter fun p => p.2.interval ≠ 0).map fun p => (max (p.1 + p.2.interval) time, p.2)

/-- What the first loop does to a queue whose sums are given. -/
structure Drains (time : ℕ) (record : Finset ℕ) (periodic : List (QueueType F A))
    (l : List (ℕ × Alarm F A)) (d : Drained F A) : Prop where
  calls : d.calls = (due time record l).map Prod.snd
  queue : deadlines time d.deltaQueue = later time l
  recorded : ∀ ticket, ticket ∈ d.record ↔ ticket ∈ record ∧
    ∀ p ∈ due time record l, p.2.ticket = ticket → p.2.interval ≠ 0
  again : (d.periodicList.map fun node => (time + node.diffTick, node.toAlarm)).Perm
    (renewed time (due time record l) ++
      periodic.map fun node => (time + node.diffTick, node.toAlarm))

/-- If all sums are after the time the loop does nothing. -/
theorem due_eq_nil {time : ℕ} {l : List (ℕ × Alarm F A)} (h : ∀ p ∈ l, time < p.1) :
  due time record l = []
  := by
  apply List.filter_eq_nil_iff.mpr
  intro p hp hdue
  have hle := (of_decide_eq_true hdue).1
  exact absurd (h p hp) (not_lt.mpr hle)

theorem later_eq_self {time : ℕ} {l : List (ℕ × Alarm F A)} (h : ∀ p ∈ l, time < p.1) :
  later time l = l
  := by
  apply List.filter_eq_self.mpr
  intro p hp
  apply decide_eq_true (h p hp)

/-- A ticket that is not in the queue may be taken from the record. -/
theorem due_erase {time ticket : ℕ} {l : List (ℕ × Alarm F A)} (h : ∀ p ∈ l, p.2.ticket ≠ ticket) :
  due time (record.erase ticket) l = due time record l
  := by
  apply List.filter_congr
  intro p hp
  apply decide_eq_decide.mpr
  rw [Finset.mem_erase, and_iff_right (h p hp)]

/-- The tickets of the alarms of a queue. -/
theorem ticket_of_mem_deadlines (h : p ∈ deadlines now q) :
  p.2.ticket ∈ q.map fun it => it.ticket
  := by
  have hmem : p.2 ∈ q.map QueueType.toAlarm := by
    rw [← map_deadlines now]
    exact List.mem_map_of_mem h
  obtain ⟨it, hit, heq⟩ := List.mem_map.mp hmem
  rw [← heq]
  exact List.mem_map_of_mem hit

/-- The first loop. -/
theorem drain_drains (q : List (QueueType F A)) : ∀ (now count : ℕ) (record : Finset ℕ)
    (periodic : List (QueueType F A)), (q.map fun it => it.ticket).Nodup →
  Drains (now + count) record periodic (deadlines now q) (drain count record periodic q)
  := by
  induction q with
  | nil =>
      intro now count record periodic _
      refine ⟨rfl, rfl, ?_, List.Perm.refl _⟩
      intro ticket
      apply (and_iff_left _).symm
      intro p hp
      cases hp
  | cons cur q ih =>
      intro now count record periodic hnodup
      rw [List.map_cons, List.nodup_cons] at hnodup
      rw [drain, deadlines_cons]
      by_cases hlt : count < cur.diffTick
      · -- the time of the first node has not come, nor that of any other
        rw [if_pos hlt]
        have hall : ∀ p ∈ (now + cur.diffTick, cur.toAlarm) :: deadlines (now + cur.diffTick) q,
            now + count < p.1 := by
          intro p hp
          rcases List.mem_cons.mp hp with rfl | hp
          · exact Nat.add_lt_add_left hlt now
          · exact lt_of_lt_of_le (Nat.add_lt_add_left hlt now) (le_of_mem_deadlines hp)
        refine ⟨?_, ?_, ?_, ?_⟩
        · rw [due_eq_nil hall]
          rfl
        · rw [later_eq_self hall, deadlines_cons]
          simp only
          rw [Nat.add_assoc, Nat.add_sub_cancel' hlt.le]
        · intro ticket
          rw [due_eq_nil hall]
          apply (and_iff_left _).symm
          intro p hp
          cases hp
        · rw [due_eq_nil hall]
          exact List.Perm.refl _
      rw [if_neg hlt]
      have htime : now + cur.diffTick + (count - cur.diffTick) = now + count := by lia
      have hother : ∀ p ∈ deadlines (now + cur.diffTick) q, p.2.ticket ≠ cur.ticket := by
        intro p hp heq
        exact hnodup.1 (heq ▸ ticket_of_mem_deadlines hp)
      have hqueue : later (now + count) ((now + cur.diffTick, cur.toAlarm) ::
          deadlines (now + cur.diffTick) q) =
          later (now + count) (deadlines (now + cur.diffTick) q) := by
        apply List.filter_cons_of_neg
        simp only [decide_eq_true_eq]
        lia
      simp only
      by_cases hrecord : cur.ticket ∉ record
      · -- a cancelled ticket
        rw [if_pos hrecord]
        have hd := ih (now + cur.diffTick) (count - cur.diffTick) record periodic hnodup.2
        rw [htime] at hd
        have hdue : due (now + count) record ((now + cur.diffTick, cur.toAlarm) ::
            deadlines (now + cur.diffTick) q) =
            due (now + count) record (deadlines (now + cur.diffTick) q) := by
          apply List.filter_cons_of_neg
          intro h
          exact hrecord (of_decide_eq_true h).2
        refine ⟨?_, ?_, ?_, ?_⟩
        · rw [hdue, hd.calls]
        · rw [hqueue, hd.queue]
        · rw [hdue]
          exact hd.recorded
        · rw [hdue]
          exact hd.again
      rw [if_neg hrecord]
      rw [not_not] at hrecord
      have hdue : due (now + count) record ((now + cur.diffTick, cur.toAlarm) ::
          deadlines (now + cur.diffTick) q) = (now + cur.diffTick, cur.toAlarm) ::
          due (now + count) record (deadlines (now + cur.diffTick) q) := by
        apply List.filter_cons_of_pos
        apply decide_eq_true
        exact ⟨by lia, hrecord⟩
      by_cases honce : cur.interval = 0
      · -- a ticket that is called once
        rw [if_pos honce]
        have hd := ih (now + cur.diffTick) (count - cur.diffTick) (record.erase cur.ticket) periodic
          hnodup.2
        rw [htime] at hd
        obtain ⟨hcalls, hlater, hrec, hagain⟩ := hd
        rw [due_erase hother] at hcalls hrec hagain
        refine ⟨?_, ?_, ?_, ?_⟩
        · rw [hdue, hcalls]
          rfl
        · rw [hqueue, hlater]
        · intro ticket
          rw [hdue, hrec, Finset.mem_erase, List.forall_mem_cons]
          constructor
          · rintro ⟨⟨hne, hmem⟩, hall⟩
            exact ⟨hmem, fun heq => absurd heq.symm hne, hall⟩
          · rintro ⟨hmem, hfirst, hall⟩
            exact ⟨⟨fun heq => hfirst heq.symm honce, hmem⟩, hall⟩
        · rw [hdue, renewed, List.filter_cons_of_neg (by simp [honce])]
          exact hagain
      · -- a ticket that is called again
        rw [if_neg honce]
        obtain ⟨hcalls, hlater, hrec, hagain⟩ := ih (now + cur.diffTick) (count - cur.diffTick) record
          ({ cur with diffTick :=
            if count - cur.diffTick < cur.interval then cur.interval - (count - cur.diffTick) else 0 } ::
              periodic) hnodup.2
        rw [htime] at hcalls hlater hrec hagain
        refine ⟨?_, ?_, ?_, ?_⟩
        · rw [hdue, hcalls]
          rfl
        · rw [hqueue, hlater]
        · intro ticket
          rw [hdue, hrec, List.forall_mem_cons]
          constructor
          · rintro ⟨hmem, hall⟩
            exact ⟨hmem, fun _ => honce, hall⟩
          · rintro ⟨hmem, -, hall⟩
            exact ⟨hmem, hall⟩
        · have hnew : now + count + (if count - cur.diffTick < cur.interval then
              cur.interval - (count - cur.diffTick) else 0) =
              max (now + cur.diffTick + cur.interval) (now + count) := by
            split_ifs with hbefore
            · rw [Nat.max_eq_left (by lia)]
              lia
            · rw [Nat.max_eq_right (by lia)]
              rfl
          rw [hdue, renewed, List.filter_cons_of_pos (by simpa using honce), List.map_cons,
            List.cons_append]
          rw [List.map_cons] at hagain
          simp only [hnew] at hagain
          exact hagain.trans List.perm_middle

/-! ### The timer and the clock -/

/-- The tickets of a queue. -/
theorem tickets_deadlines (now : ℕ) (q : List (QueueType F A)) :
  ((deadlines now q).map fun p => p.2.ticket) = q.map fun it => it.ticket
  := by
  have hmap := congrArg (List.map Alarm.ticket) (map_deadlines now q)
  rw [List.map_map, List.map_map] at hmap
  exact hmap

/-- The timer agrees with the clock. The sum of the ticks up to a node, from the present time on, is the
deadline of its ticket, also if the ticket has been cancelled. -/
structure Tracks (t : BasicTimer F A) (c : Clock F A) : Prop where
  conductor : t.conductor = c.conductor
  sums : ∀ p ∈ deadlines c.now t.deltaQueue, p.1 = c.deadline p.2.ticket
  le : ∀ p ∈ deadlines c.now t.deltaQueue, p.2.ticket ≤ c.conductor
  nodup : ((deadlines c.now t.deltaQueue).map fun p => p.2.ticket).Nodup
  record : ∀ ticket, ticket ∈ t.record ↔ c.pending ticket ≠ none
  queued : ∀ ticket a, c.pending ticket = some a →
    a.ticket = ticket ∧ (c.deadline ticket, a) ∈ deadlines c.now t.deltaQueue

variable {t : BasicTimer F A} {c : Clock F A} {ticket : ℕ} {a : Alarm F A}

/-- At first there are no tickets. -/
theorem tracks_new : Tracks ({} : BasicTimer F A) ({} : Clock F A) := by
  constructor
  · rfl
  · intro p hp
    cases hp
  · intro p hp
    cases hp
  · exact List.nodup_nil
  · intro ticket
    apply iff_of_false
    · exact Finset.notMem_empty ticket
    · exact not_not.mpr rfl
  · intro ticket a h
    cases h

namespace Tracks

variable (h : Tracks t c)

include h

/-- There is only one node for a ticket. -/
theorem eq_of_ticket {p p' : ℕ × Alarm F A} (hp : p ∈ deadlines c.now t.deltaQueue)
    (hp' : p' ∈ deadlines c.now t.deltaQueue) (heq : p.2.ticket = p'.2.ticket) :
  p = p'
  := List.inj_on_of_nodup_map h.nodup hp hp' heq

/-- The node of a ticket in the record is the one of its alarm. -/
theorem pending_eq (hp : p ∈ deadlines c.now t.deltaQueue) (hr : p.2.ticket ∈ t.record) :
  c.pending p.2.ticket = some p.2
  := by
  obtain ⟨a, ha⟩ := Option.ne_none_iff_exists'.mp ((h.record _).mp hr)
  obtain ⟨hticket, hmem⟩ := h.queued _ _ ha
  have heq := h.eq_of_ticket hp hmem hticket.symm
  rw [ha]
  apply congrArg some
  rw [heq]

/-- A pending ticket is not a new one. -/
theorem pending_le (ha : c.pending ticket = some a) : ticket ≤ c.conductor := by
  obtain ⟨hticket, hmem⟩ := h.queued _ _ ha
  rw [← hticket]
  exact h.le _ hmem

/-- Waiting. -/
theorem wait (us : ℕ) (func : F) (arg : A) (repeated : Bool) :
  Tracks (t.wait us func arg repeated).2 (c.wait us func arg repeated)
  := by
  have hcond := h.conductor
  have hperm := deadlines_place c.now
    { ticket := t.conductor + 1
      func := func
      arg := arg
      interval := if repeated = true then totalTick us else 0
      diffTick := totalTick us } t.deltaQueue
  rw [hcond] at hperm
  have hnew : ∀ p ∈ deadlines c.now t.deltaQueue, p.2.ticket ≠ c.conductor + 1 := by
    intro p hp
    have hle := h.le p hp
    omega
  have htimer : (t.wait us func arg repeated).2 =
      { conductor := c.conductor + 1
        record := insert (c.conductor + 1) t.record
        deltaQueue := place
          { ticket := c.conductor + 1
            func := func
            arg := arg
            interval := if repeated = true then totalTick us else 0
            diffTick := totalTick us } t.deltaQueue } := by
    rw [BasicTimer.wait, hcond]
  rw [htimer]
  constructor
  · rfl
  · intro p hp
    change p.1 = Function.update c.deadline (c.conductor + 1) (c.now + totalTick us) p.2.ticket
    rcases List.mem_cons.mp (hperm.mem_iff.mp hp) with rfl | hp
    · rw [Function.update_self]
    · rw [Function.update_of_ne (hnew p hp), h.sums p hp]
  · intro p hp
    rcases List.mem_cons.mp (hperm.mem_iff.mp hp) with rfl | hp
    · exact le_refl _
    · exact (h.le p hp).trans (Nat.le_succ _)
  · apply (hperm.map _).nodup_iff.mpr
    rw [List.map_cons, List.nodup_cons]
    refine ⟨?_, h.nodup⟩
    intro hmem
    obtain ⟨p, hp, heq⟩ := List.mem_map.mp hmem
    exact hnew p hp heq
  · intro ticket
    change ticket ∈ insert (c.conductor + 1) t.record ↔
      Function.update c.pending (c.conductor + 1) _ ticket ≠ none
    rw [Finset.mem_insert, h.record]
    by_cases heq : ticket = c.conductor + 1
    · subst heq
      rw [Function.update_self]
      exact iff_of_true (.inl rfl) (Option.some_ne_none _)
    · rw [Function.update_of_ne heq]
      exact or_iff_right heq
  · intro ticket a ha
    change Function.update c.pending (c.conductor + 1) _ ticket = some a at ha
    change _ ∧ (Function.update c.deadline (c.conductor + 1) (c.now + totalTick us) ticket, a) ∈
      deadlines c.now _
    rw [hperm.mem_iff]
    by_cases heq : ticket = c.conductor + 1
    · subst heq
      rw [Function.update_self] at ha ⊢
      cases ha
      exact ⟨rfl, List.mem_cons_self⟩
    · rw [Function.update_of_ne heq] at ha ⊢
      obtain ⟨hticket, hmem⟩ := h.queued ticket a ha
      exact ⟨hticket, List.mem_cons_of_mem _ hmem⟩

/-- Cancelling a ticket. -/
theorem cancel (ticket : ℕ) : Tracks (t.cancel ticket).2 (c.cancel ticket) := by
  have hpending : ∀ x a, (c.cancel ticket).pending x = some a ↔ x ≠ ticket ∧ c.pending x = some a := by
    intro x a
    change Function.update c.pending ticket none x = some a ↔ _
    by_cases heq : x = ticket
    · subst heq
      rw [Function.update_self]
      apply iff_of_false
      · intro heq
        cases heq
      · intro hx
        exact hx.1 rfl
    · rw [Function.update_of_ne heq, and_iff_right heq]
  have hrecord : ∀ x, x ∈ (t.cancel ticket).2.record ↔ x ≠ ticket ∧ x ∈ t.record := by
    intro x
    rw [BasicTimer.cancel]
    by_cases hmem : ticket ∈ t.record
    · rw [if_neg (not_not.mpr hmem)]
      exact Finset.mem_erase
    · rw [if_pos hmem]
      refine ⟨fun hx => ⟨?_, hx⟩, fun hx => hx.2⟩
      rintro rfl
      exact hmem hx
  have hqueue : (t.cancel ticket).2.deltaQueue = t.deltaQueue ∧
      (t.cancel ticket).2.conductor = t.conductor := by
    rw [BasicTimer.cancel]
    split_ifs
    · exact ⟨rfl, rfl⟩
    · exact ⟨rfl, rfl⟩
  constructor
  · rw [hqueue.2]
    exact h.conductor
  · rw [hqueue.1]
    exact h.sums
  · rw [hqueue.1]
    exact h.le
  · rw [hqueue.1]
    exact h.nodup
  · intro x
    rw [hrecord, h.record, Option.ne_none_iff_exists', Option.ne_none_iff_exists']
    constructor
    · rintro ⟨hne, a, ha⟩
      exact ⟨a, (hpending x a).mpr ⟨hne, ha⟩⟩
    · rintro ⟨a, ha⟩
      obtain ⟨hne, ha⟩ := (hpending x a).mp ha
      exact ⟨hne, a, ha⟩
  · intro x a ha
    rw [hqueue.1]
    exact h.queued x a ((hpending x a).mp ha).2

/-- The nodes that are due are those of the pending tickets whose deadline is reached. -/
theorem mem_due_iff {time : ℕ} :
  p ∈ due time t.record (deadlines c.now t.deltaQueue) ↔
    p.1 ≤ time ∧ c.pending p.2.ticket = some p.2 ∧ p.1 = c.deadline p.2.ticket
  := by
  rw [due, List.mem_filter, decide_eq_true_eq]
  constructor
  · rintro ⟨hp, hle, hr⟩
    exact ⟨hle, h.pending_eq hp hr, h.sums p hp⟩
  · rintro ⟨hle, hpending, hsum⟩
    refine ⟨?_, hle, ?_⟩
    · have hmem := (h.queued _ _ hpending).2
      rw [← hsum] at hmem
      exact hmem
    · rw [h.record, hpending]
      exact Option.some_ne_none _

/-- The nodes of the queue after a step. -/
theorem step_perm (count : ℕ+) :
  (deadlines (c.now + count) (t.step count).2.deltaQueue).Perm
    (renewed (c.now + count) (due (c.now + count) t.record (deadlines c.now t.deltaQueue)) ++
      later (c.now + count) (deadlines c.now t.deltaQueue))
  := by
  have hnodup := h.nodup
  rw [tickets_deadlines] at hnodup
  obtain ⟨-, hqueue, -, hagain⟩ := drain_drains t.deltaQueue c.now count t.record [] hnodup
  rw [List.map_nil, List.append_nil] at hagain
  apply (deadlines_foldl_place _ _ _).trans
  rw [hqueue]
  exact hagain.append_right _

/-- A node of the queue after a step is the one of a ticket that has been called and is to be called
again, or one whose time has not come. -/
theorem mem_step_iff (count : ℕ+) :
  p ∈ deadlines (c.now + count) (t.step count).2.deltaQueue ↔
    (c.pending p.2.ticket = some p.2 ∧ c.deadline p.2.ticket ≤ c.now + count ∧ p.2.interval ≠ 0 ∧
      p.1 = max (c.deadline p.2.ticket + p.2.interval) (c.now + count)) ∨
    p ∈ deadlines c.now t.deltaQueue ∧ c.now + count < p.1
  := by
  rw [(h.step_perm count).mem_iff, List.mem_append, later, List.mem_filter, decide_eq_true_eq, renewed,
    List.mem_map]
  apply or_congr_left
  constructor
  · rintro ⟨p', hp', rfl⟩
    rw [List.mem_filter, decide_eq_true_eq, h.mem_due_iff] at hp'
    obtain ⟨⟨hle, hpending, hsum⟩, hne⟩ := hp'
    exact ⟨hpending, hsum ▸ hle, hne, by rw [← hsum]⟩
  · rintro ⟨hpending, hle, hne, hsum⟩
    refine ⟨(c.deadline p.2.ticket, p.2), ?_, ?_⟩
    · rw [List.mem_filter, decide_eq_true_eq, h.mem_due_iff]
      exact ⟨⟨hle, hpending, rfl⟩, hne⟩
    · exact Prod.ext hsum.symm rfl

/-- The tickets of the queue after a step are different. -/
theorem nodup_step (count : ℕ+) :
  ((deadlines (c.now + count) (t.step count).2.deltaQueue).map fun p => p.2.ticket).Nodup
  := by
  rw [((h.step_perm count).map _).nodup_iff, List.map_append, List.nodup_append]
  have hsub : (due (c.now + count) t.record (deadlines c.now t.deltaQueue)).Sublist
      (deadlines c.now t.deltaQueue) := List.filter_sublist
  refine ⟨?_, ?_, ?_⟩
  · rw [renewed, List.map_map]
    have hmap : ((due (c.now + count) t.record (deadlines c.now t.deltaQueue)).filter
        fun p => p.2.interval ≠ 0).Sublist (deadlines c.now t.deltaQueue) :=
      List.filter_sublist.trans hsub
    exact h.nodup.sublist (hmap.map fun p => p.2.ticket)
  · have hlater : (later (c.now + count) (deadlines c.now t.deltaQueue)).Sublist
        (deadlines c.now t.deltaQueue) := List.filter_sublist
    exact h.nodup.sublist (hlater.map fun p => p.2.ticket)
  · intro x hx y hy heq
    obtain ⟨p, hp, rfl⟩ := List.mem_map.mp hx
    obtain ⟨p', hp', rfl⟩ := List.mem_map.mp hy
    obtain ⟨p₀, hp₀, rfl⟩ := List.mem_map.mp hp
    have hdue := (List.mem_filter.mp hp₀).1
    obtain ⟨hp', hlt⟩ := List.mem_filter.mp hp'
    have hsame := h.eq_of_ticket (hsub.subset hdue) hp' heq
    have hle := (h.mem_due_iff.mp hdue).1
    rw [hsame] at hle
    exact absurd (of_decide_eq_true hlt) (not_lt.mpr hle)

/-- Ticks. -/
theorem step (count : ℕ+) : Tracks (t.step count).2 (c.step count) := by
  have hnodup := h.nodup
  rw [tickets_deadlines] at hnodup
  obtain ⟨-, -, hrecord, -⟩ := drain_drains t.deltaQueue c.now count t.record [] hnodup
  have hdeadline : ∀ x, (c.step count).deadline x = (c.pending x).elim (c.deadline x)
      (Clock.postponed (c.now + count) (c.deadline x)) := fun x => rfl
  have hpending : ∀ x, (c.step count).pending x = (c.pending x).bind
      (Clock.remains (c.now + count) (c.deadline x)) := fun x => rfl
  constructor
  · exact h.conductor
  · intro p hp
    rw [hdeadline]
    rcases (h.mem_step_iff count).mp hp with ⟨hp, hle, hne, hsum⟩ | ⟨hp, hlt⟩
    · rw [hp, Option.elim_some, Clock.postponed, if_pos ⟨hle, hne⟩, hsum]
    · rw [h.sums p hp] at hlt ⊢
      cases hx : c.pending p.2.ticket with
      | none => rfl
      | some a => rw [Option.elim_some, Clock.postponed, if_neg fun hc => not_le.mpr hlt hc.1]
  · intro p hp
    rcases (h.mem_step_iff count).mp hp with ⟨hp, -⟩ | ⟨hp, -⟩
    · exact h.pending_le hp
    · exact h.le p hp
  · exact h.nodup_step count
  · intro x
    change x ∈ (drain count t.record [] t.deltaQueue).record ↔ _
    rw [hrecord, h.record, hpending]
    cases hx : c.pending x with
    | none => exact iff_of_false (fun hc => hc.1 rfl) fun hc => hc rfl
    | some a =>
        obtain ⟨hticket, hmem⟩ := h.queued x a hx
        rw [Option.bind_some, Clock.remains]
        constructor
        · rintro ⟨-, hall⟩
          rw [if_neg]
          · exact Option.some_ne_none a
          · rintro ⟨hle, hzero⟩
            apply hall (c.deadline x, a) _ hticket hzero
            rw [h.mem_due_iff, hticket]
            exact ⟨hle, hx, rfl⟩
        · intro hne
          refine ⟨Option.some_ne_none a, ?_⟩
          intro p hp heq hzero
          obtain ⟨hle, hp, hsum⟩ := h.mem_due_iff.mp hp
          rw [heq, hx] at hp
          cases hp
          rw [hsum, heq] at hle
          exact hne (if_pos ⟨hle, hzero⟩)
  · intro x a ha
    rw [hpending, Option.bind_eq_some_iff] at ha
    obtain ⟨a', hx, ha⟩ := ha
    rw [Clock.remains, Option.ite_none_left_eq_some, Option.some.injEq] at ha
    obtain ⟨hremains, rfl⟩ := ha
    obtain ⟨hticket, hmem⟩ := h.queued x a' hx
    refine ⟨hticket, ?_⟩
    change ((c.step count).deadline x, a') ∈ deadlines (c.now + count) (t.step count).2.deltaQueue
    rw [h.mem_step_iff, hdeadline, hx, Option.elim_some, Clock.postponed, hticket]
    by_cases hle : c.deadline x ≤ c.now + count
    · left
      have hne : a'.interval ≠ 0 := fun hzero => hremains ⟨hle, hzero⟩
      rw [if_pos ⟨hle, hne⟩]
      exact ⟨hx, hle, hne, rfl⟩
    · right
      rw [if_neg fun hc => hle hc.1]
      exact ⟨hmem, not_le.mp hle⟩

/-- What is called in a step. -/
theorem step_gives (count : ℕ+) : c.Gives (.step count) (.called (t.step count).1) := by
  have hnodup := h.nodup
  rw [tickets_deadlines] at hnodup
  obtain ⟨hcalls, -, -, -⟩ := drain_drains t.deltaQueue c.now count t.record [] hnodup
  have hsub : (due (c.now + count) t.record (deadlines c.now t.deltaQueue)).Sublist
      (deadlines c.now t.deltaQueue) := List.filter_sublist
  have hcalled : (t.step count).1 =
      (due (c.now + count) t.record (deadlines c.now t.deltaQueue)).map Prod.snd := hcalls
  rw [hcalled]
  refine ⟨?_, ?_, ?_⟩
  · intro a
    rw [List.mem_map]
    constructor
    · rintro ⟨p, hp, rfl⟩
      obtain ⟨hle, hp, hsum⟩ := h.mem_due_iff.mp hp
      exact ⟨hp, hsum ▸ hle⟩
    · rintro ⟨hp, hle⟩
      exact ⟨(c.deadline a.ticket, a), h.mem_due_iff.mpr ⟨hle, hp, rfl⟩, rfl⟩
  · rw [List.map_map]
    exact h.nodup.sublist (hsub.map fun p => p.2.ticket)
  · rw [List.pairwise_map]
    have hsorted := (sorted_deadlines c.now t.deltaQueue).sublist hsub
    apply hsorted.imp_of_mem
    intro p p' hp hp' hle
    rw [← h.sums p (hsub.subset hp), ← h.sums p' (hsub.subset hp')]
    exact hle

/-- Every call of the timer gives what it is to give. -/
theorem gives (op : Op F A) : c.Gives op (t.exec op).1 := by
  cases op with
  | wait us func arg repeated =>
      change t.conductor + 1 = c.conductor + 1
      rw [h.conductor]
  | cancel ticket =>
      change (t.cancel ticket).1 = true ↔ _
      rw [← h.record, BasicTimer.cancel]
      by_cases hmem : ticket ∈ t.record
      · rw [if_neg (not_not.mpr hmem)]
        exact iff_of_true rfl hmem
      · rw [if_pos hmem]
        exact iff_of_false Bool.false_ne_true hmem
  | step count => exact h.step_gives count

/-- Every call of the timer keeps the agreement. -/
theorem exec (op : Op F A) : Tracks (t.exec op).2 (c.exec op) := by
  cases op with
  | wait us func arg repeated => exact h.wait us func arg repeated
  | cancel ticket => exact h.cancel ticket
  | step count => exact h.step count

/-- And so do calls one after another. -/
theorem run (ops : List (Op F A)) : Tracks (t.run ops) (c.run ops) := by
  induction ops generalizing t c with
  | nil => exact h
  | cons op ops ih => exact ih (h.exec op)

end Tracks

/-- A ticket that is not pending any more is never pending again. -/
theorem not_pending_exec (hle : ticket ≤ c.conductor) (hp : c.pending ticket = none) (op : Op F A) :
  ticket ≤ (c.exec op).conductor ∧ (c.exec op).pending ticket = none
  := by
  cases op with
  | wait us func arg repeated =>
      refine ⟨hle.trans (Nat.le_succ _), ?_⟩
      change Function.update c.pending (c.conductor + 1) _ ticket = none
      rw [Function.update_of_ne (by omega), hp]
  | cancel x =>
      refine ⟨hle, ?_⟩
      change Function.update c.pending x none ticket = none
      by_cases heq : ticket = x
      · rw [heq, Function.update_self]
      · rw [Function.update_of_ne heq, hp]
  | step count =>
      refine ⟨hle, ?_⟩
      change (c.pending ticket).bind _ = none
      rw [hp, Option.bind_none]

theorem not_pending_run (hle : ticket ≤ c.conductor) (hp : c.pending ticket = none)
    (ops : List (Op F A)) :
  (c.run ops).pending ticket = none
  := by
  induction ops generalizing c with
  | nil => exact hp
  | cons op ops ih =>
      obtain ⟨hle', hp'⟩ := not_pending_exec hle hp op
      exact ih hle' hp'

/-- After any calls the sums of the ticks are the times that are left until the deadlines, every further
call gives what it is to give, and a ticket that has been cancelled or called for the last time
stays so. -/
theorem deadlines_kept (ops : List (Op F A)) :
  Tracks (run {} ops) (Clock.run {} ops) ∧
    (∀ op, (Clock.run {} ops).Gives op (exec (run {} ops) op).1) ∧
    ∀ ticket ≤ (Clock.run {} ops : Clock F A).conductor, (Clock.run {} ops).pending ticket = none →
      ∀ ops', ((Clock.run {} ops).run ops').pending ticket = none
  := by
  have h := tracks_new.run ops
  exact ⟨h, h.gives, fun ticket hle hp => not_pending_run hle hp⟩

end BasicTimer

end UOS
