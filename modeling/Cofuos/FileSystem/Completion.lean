import Cofuos.FileSystem.Worker

/-!
# The completion of requests

A file has at most one request at a time. The call that makes the request stores it in the file
and hands the file to the workers; a worker carries it out and takes the command back. Any number
of users call the functions of the file in the meantime. The definitions follow `file::read`,
`file::write`, `file::seek`, `exfat::task` and `exfat::thread_worker` of `kernel/filesystem`.

A step is what happens under the lock of the file, or a single effect of a worker. Where a request
has come to is not part of the file: there may be calls that have made a request and not yet
handed it over, the file may be in the queue, and workers may have taken it from there. We count
these, and find that there is never more than one.

A call that is refused because there is a request sets `OP_FAILURE` in the state of the file. We
show that otherwise the state is that of the worker function, and that the length is the number of
bytes that it has moved.
-/

namespace UOS

namespace File

/-- A worker that carries out a request. -/
structure Job where
  request : Request
  env : Env
  done : List Effect := []
  rest : List Effect

/-- What is found when a request is completed. -/
structure Report where
  request : Request
  env : Env
  /-- A call has been refused since the request was made. -/
  refused : Bool
  iostate : BitVec 16
  length : ℕ

/-- A file, and where its requests have come to. -/
structure Handle where
  isFolder : Bool
  offset : ℕ := 0
  buffer : ℕ := 0
  length : ℕ := 0
  iostate : BitVec 16 := 0
  command : Command := .none
  /-- Calls that have made a request and have not yet handed it over. -/
  submitted : ℕ := 0
  /-- Calls whose request the file system does not take. -/
  turned : ℕ := 0
  /-- How often the file is in the queue. -/
  queued : ℕ := 0
  /-- The workers that have taken it from there. -/
  jobs : List Job := []
  /-- The number of requests that have been queued. -/
  accepted : ℕ := 0
  /-- The number of requests that have been taken from the queue. -/
  executed : ℕ := 0
  /-- A call has been refused since the last request was made. -/
  refused : Bool := false
  /-- What was found when requests were completed. -/
  reports : List Report := []

namespace Handle

/-- A call that is refused. -/
def refuseCall (h : Handle) : Handle :=
  { h with iostate := h.iostate ||| OP_FAILURE, refused := true }

/-- A call that makes a request. -/
def submit (h : Handle) (command : Command) (buffer length : ℕ) : Handle :=
  { h with
    buffer := buffer, length := length, command := command, iostate := 0
    submitted := h.submitted + 1, refused := false }

def read (h : Handle) (dst len : ℕ) : Handle :=
  if h.command ≠ .none then h.refuseCall
  else h.submit (if h.isFolder = true then .list else .read) dst len

def write (h : Handle) (sor len : ℕ) : Handle :=
  if h.command ≠ .none ∨ h.isFolder = true then h.refuseCall
  else h.submit .write sor len

def seek (h : Handle) (off : ℕ) : Handle :=
  if h.command ≠ .none then h else { h with offset := off }

def result (h : Handle) : ℕ := if h.command ≠ .none then 0 else h.length

/-- A call hands its request over, or finds that the file system is stopping or cannot be
written to. -/
def task (h : Handle) (running rw : Bool) : Handle :=
  if h.submitted = 0 then h
  else if running = true ∧ (h.command ≠ .write ∨ rw = true) then
    { h with
      submitted := h.submitted - 1, queued := h.queued + 1, accepted := h.accepted + 1 }
  else
    { h with submitted := h.submitted - 1, turned := h.turned + 1 }

/-- The request is taken back. -/
def turnDown (h : Handle) : Handle :=
  if h.turned = 0 then h
  else
    { h with
      turned := h.turned - 1, iostate := h.iostate ||| OP_FAILURE, length := 0, command := .none }

/-- The request that is found in the file. -/
def request (h : Handle) : Request :=
  { command := h.command, buffer := h.buffer, length := h.length, offset := h.offset }

/-- A worker takes the file from the queue. -/
def dispatch (h : Handle) (env : Env) : Handle :=
  if h.queued = 0 then h
  else
    { h with
      queued := h.queued - 1, executed := h.executed + 1
      jobs := { request := h.request, env := env
                rest := worker env h.request ++ fallThrough h.command } :: h.jobs }

/-- A worker goes on by an effect, or completes the request. -/
def work (h : Handle) (i : ℕ) : Handle :=
  match h.jobs[i]? with
  | none => h
  | some j =>
    match j.rest with
    | e :: rest =>
      { h with
        offset := e.offset h.offset, length := e.length h.length, iostate := h.iostate ||| e.bits
        jobs := h.jobs.set i { j with done := j.done ++ [e], rest := rest } }
    | [] =>
      { h with
        command := .none, jobs := h.jobs.eraseIdx i
        reports := { request := j.request, env := j.env, refused := h.refused
                     iostate := h.iostate, length := h.length } :: h.reports }

/-- What may happen to a file. -/
inductive Event where
  | read (dst len : ℕ)
  | write (sor len : ℕ)
  | seek (off : ℕ)
  /-- A call of `result` or `state`. -/
  | look
  | task (running rw : Bool)
  | turnDown
  | dispatch (env : Env)
  | work (i : ℕ)

def exec (h : Handle) : Event → Handle
  | .read dst len => h.read dst len
  | .write sor len => h.write sor len
  | .seek off => h.seek off
  | .look => h
  | .task running rw => h.task running rw
  | .turnDown => h.turnDown
  | .dispatch env => h.dispatch env
  | .work i => h.work i

/-- The states of a file. -/
inductive Reachable : Handle → Prop
  | start (isFolder : Bool) : Reachable { isFolder := isFolder }
  | event {h : Handle} (e : Event) : Reachable h → Reachable (h.exec e)

/-- What is found at the completion of a request belongs to it. The length is the number of bytes
that have been moved. The state of a request to read or write has the bits that the worker
function has set, and `OP_FAILURE` if a call has been refused; of a request to list a folder, the
other bits are those of the worker function. -/
structure Report.Belongs (r : Report) : Prop where
  length : r.length = moved (worker r.env r.request)
  iostate : r.request.command ≠ .list →
    r.iostate = bits (worker r.env r.request) ||| if r.refused = true then OP_FAILURE else 0#16
  other : r.iostate ||| OP_FAILURE = bits (worker r.env r.request) ||| OP_FAILURE
  complete : r.request.command ≠ .list →
    (r.iostate = 0#16 ↔ Complete r.env r.request ∧ r.refused = false)

/-! ### The invariant -/

/-- The bit of the calls that have been refused. -/
def mark (refused : Bool) : BitVec 16 := if refused = true then OP_FAILURE else 0#16

/-- How far a worker has come with a request. -/
structure Job.Shows (j : Job) (h : Handle) : Prop where
  command : j.request.command = h.command
  split : j.done ++ j.rest = worker j.env j.request ++ fallThrough j.request.command
  iostate : h.iostate = bits j.done ||| mark h.refused
  length : h.length = finalLength j.request.length j.done

/-- What holds of a file. There is one place at most where a request is, and none if there is no
request. -/
structure Inv (h : Handle) : Prop where
  places : h.submitted + h.turned + h.queued + h.jobs.length
    = if h.command = .none then 0 else 1
  executed : h.executed = h.reports.length + h.jobs.length
  accepted : h.accepted = h.executed + h.queued
  waiting : h.command ≠ .none → h.jobs = [] → h.iostate = mark h.refused
  jobs : ∀ j ∈ h.jobs, Job.Shows j h
  reports : ∀ r ∈ h.reports, Report.Belongs r

variable {h : Handle}

@[simp]
theorem mark_false : mark false = 0#16 := rfl

@[simp]
theorem mark_true : mark true = OP_FAILURE := rfl

theorem mark_or (b : Bool) : mark b ||| OP_FAILURE = OP_FAILURE := by
  cases b with
  | false => decide
  | true => decide

/-- A request whose worker has come to the end is reported as it should be. -/
theorem Job.Shows.belongs {j : Job} (hj : Job.Shows j h) (hrest : j.rest = [])
    (hcommand : h.command ≠ .none) :
  Report.Belongs { request := j.request, env := j.env, refused := h.refused
                   iostate := h.iostate, length := h.length }
  := by
  have hsplit := hj.split
  rw [hrest, List.append_nil] at hsplit
  have hreq : j.request.command ≠ .none := by
    rw [hj.command]
    apply hcommand
  obtain ⟨hlength, hbits⟩ := worker_spec j.env j.request hreq
  have hl : h.length = moved (worker j.env j.request) := by
    rw [hj.length, hsplit, finalLength_append, hlength]
    cases j.request.command with
    | none => rfl
    | read => rfl
    | write => rfl
    | list => rfl
  have hio : j.request.command ≠ .list →
      h.iostate = bits (worker j.env j.request) ||| mark h.refused := by
    intro hlist
    have hft : fallThrough j.request.command = [] := by
      cases hc : j.request.command with
      | none => apply absurd hc hreq
      | read => rfl
      | write => rfl
      | list => apply absurd hc hlist
    rw [hj.iostate, hsplit, hft, List.append_nil]
  constructor
  · apply hl
  · apply hio
  · dsimp only
    rw [hj.iostate, hsplit, bits_append, BitVec.or_assoc, BitVec.or_assoc, mark_or]
    congr 1
    cases j.request.command with
    | none => decide
    | read => decide
    | write => decide
    | list => decide
  · intro hlist
    dsimp only
    rw [hio hlist, BitVec.or_eq_zero_iff, hbits]
    cases h.refused with
    | false => simp
    | true => simp [OP_FAILURE]

namespace Inv

variable (hi : Inv h)

include hi

/-- A worker is there only if there is a request, and then the request is nowhere else. -/
theorem of_job {i : ℕ} {j : Job} (hj : h.jobs[i]? = some j) :
  h.command ≠ .none ∧ h.jobs = [j] ∧ i = 0
  := by
  have hplaces := hi.places
  have hmem := List.mem_of_getElem? hj
  have hpos := List.length_pos_of_mem hmem
  have hlt := (List.getElem?_eq_some_iff.1 hj).1
  split_ifs at hplaces with hc
  · lia
  · obtain ⟨j', hj'⟩ := List.length_eq_one_iff.1 (show h.jobs.length = 1 by lia)
    rw [hj', List.mem_singleton] at hmem
    refine ⟨hc, ?_, by lia⟩
    rw [hj', hmem]

theorem refuseCall (hc : h.command ≠ .none) : Inv h.refuseCall := by
  refine { hi with waiting := ?_, jobs := ?_ }
  · intro _ hnil
    rw [Handle.refuseCall]
    dsimp only
    rw [hi.waiting hc hnil, mark_or, mark_true]
  · intro j hj
    have hs := hi.jobs j hj
    refine { hs with iostate := ?_ }
    rw [Handle.refuseCall]
    dsimp only
    rw [hs.iostate, BitVec.or_assoc, mark_or, mark_true]

theorem submit {command : Command} {buffer length : ℕ} (hc : h.command = .none)
    (hcommand : command ≠ .none) :
  Inv (h.submit command buffer length)
  := by
  have hplaces := hi.places
  rw [if_pos hc] at hplaces
  refine { hi with places := ?_, waiting := ?_, jobs := ?_ }
  · rw [if_neg (show (h.submit command buffer length).command ≠ .none from hcommand)]
    dsimp only [Handle.submit]
    lia
  · intro _ _
    rfl
  · intro j hj
    have := List.length_pos_of_mem (show j ∈ h.jobs from hj)
    lia

theorem read (dst len : ℕ) : Inv (h.read dst len) := by
  rw [Handle.read]
  split_ifs with hc hf
  · apply hi.refuseCall hc
  · apply hi.submit (not_not.1 hc)
    decide
  · apply hi.submit (not_not.1 hc)
    decide

theorem write (sor len : ℕ) : Inv (h.write sor len) := by
  rw [Handle.write]
  split_ifs with hc
  · by_cases hnone : h.command = .none
    · -- a folder without a request
      have hplaces := hi.places
      rw [if_pos hnone] at hplaces
      refine { hi with waiting := ?_, jobs := ?_ }
      · intro hne
        apply absurd hnone hne
      · intro j hj
        have := List.length_pos_of_mem (show j ∈ h.jobs from hj)
        omega
    · apply hi.refuseCall hnone
  · rw [not_or, not_not] at hc
    apply hi.submit hc.1
    decide

theorem seek (off : ℕ) : Inv (h.seek off) := by
  rw [Handle.seek]
  split_ifs with hc
  · apply hi
  · have hplaces := hi.places
    rw [if_pos (not_not.1 hc)] at hplaces
    refine { hi with jobs := ?_ }
    intro j hj
    have := List.length_pos_of_mem (show j ∈ h.jobs from hj)
    omega

theorem task (running rw : Bool) : Inv (h.task running rw) := by
  have hplaces := hi.places
  rw [Handle.task]
  split_ifs with hs ht
  · apply hi
  · refine { hi with places := ?_, accepted := ?_, jobs := ?_ }
    · dsimp only
      lia
    · dsimp only
      rw [hi.accepted]
      lia
    · intro j hj
      exact { hi.jobs j hj with }
  · refine { hi with places := ?_, jobs := ?_ }
    · dsimp only
      lia
    · intro j hj
      exact { hi.jobs j hj with }

theorem turnDown : Inv h.turnDown := by
  have hplaces := hi.places
  rw [Handle.turnDown]
  split_ifs with ht
  · apply hi
  · have hc : h.command ≠ .none := by
      intro hc
      rw [if_pos hc] at hplaces
      lia
    rw [if_neg hc] at hplaces
    refine { hi with places := ?_, waiting := ?_, jobs := ?_ }
    · dsimp only
      rw [if_pos rfl]
      lia
    · intro hne
      apply absurd rfl hne
    · intro j hj
      have := List.length_pos_of_mem (show j ∈ h.jobs from hj)
      lia

theorem dispatch (env : Env) : Inv (h.dispatch env) := by
  have hplaces := hi.places
  rw [Handle.dispatch]
  split_ifs with hq
  · apply hi
  · have hc : h.command ≠ .none := by
      intro hc
      rw [if_pos hc] at hplaces
      lia
    rw [if_neg hc] at hplaces
    have hnil : h.jobs = [] := List.eq_nil_of_length_eq_zero (by lia)
    refine { hi with places := ?_, executed := ?_, accepted := ?_, waiting := ?_, jobs := ?_ }
    · dsimp only
      rw [if_neg hc, List.length_cons]
      lia
    · dsimp only
      rw [hi.executed, List.length_cons]
      lia
    · dsimp only
      rw [hi.accepted]
      lia
    · intro _ hne
      cases hne
    · intro j hj
      dsimp only at hj
      rw [hnil, List.mem_singleton] at hj
      subst hj
      constructor
      · rfl
      · rfl
      · dsimp only
        rw [bits_nil, BitVec.zero_or, hi.waiting hc hnil]
      · rfl

theorem work (i : ℕ) : Inv (h.work i) := by
  rw [Handle.work]
  cases hj : h.jobs[i]? with
  | none => apply hi
  | some j =>
      obtain ⟨hc, hjobs, rfl⟩ := hi.of_job hj
      have hs := hi.jobs j (List.mem_of_getElem? hj)
      have hplaces := hi.places
      dsimp only
      cases hrest : j.rest with
      | cons e rest =>
          dsimp only
          refine { hi with places := ?_, executed := ?_, waiting := ?_, jobs := ?_ }
          · dsimp only
            rw [List.length_set]
            apply hplaces
          · dsimp only
            rw [List.length_set]
            apply hi.executed
          · intro _ hnil
            rw [hjobs] at hnil
            cases hnil
          · intro j' hj'
            dsimp only at hj'
            rw [hjobs, List.set_cons_zero, List.mem_singleton] at hj'
            subst hj'
            constructor
            · apply hs.command
            · dsimp only
              rw [List.append_assoc, List.singleton_append, ← hrest, hs.split]
            · dsimp only
              rw [bits_append, bits_cons, bits_nil, BitVec.or_zero, hs.iostate, BitVec.or_assoc,
                BitVec.or_assoc, BitVec.or_comm (mark h.refused)]
            · dsimp only
              rw [finalLength_append, ← hs.length]
              rfl
      | nil =>
          dsimp only
          rw [hjobs, if_neg hc, List.length_singleton] at hplaces
          refine { hi with
            places := ?_, executed := ?_, waiting := ?_, jobs := ?_, reports := ?_ }
          · dsimp only
            rw [hjobs, if_pos rfl, List.eraseIdx_cons_zero, List.length_nil]
            lia
          · have := hi.executed
            dsimp only
            rw [hjobs, List.length_singleton] at this
            rw [hjobs, List.eraseIdx_cons_zero, List.length_nil, List.length_cons]
            omega
          · intro hne
            apply absurd rfl hne
          · intro j' hj'
            dsimp only at hj'
            rw [hjobs, List.eraseIdx_cons_zero] at hj'
            cases hj'
          · intro r hr
            obtain rfl | hr := List.mem_cons.1 hr
            · apply hs.belongs hrest hc
            · apply hi.reports r hr

/-- Whatever happens to a file keeps the invariant. -/
theorem exec (e : Event) : Inv (h.exec e) := by
  cases e with
  | read dst len => apply hi.read
  | write sor len => apply hi.write
  | seek off => apply hi.seek
  | look => apply hi
  | task running rw => apply hi.task
  | turnDown => apply hi.turnDown
  | dispatch env => apply hi.dispatch
  | work i => apply hi.work

end Inv

theorem Reachable.inv (hr : Reachable h) : Inv h := by
  induction hr with
  | start isFolder =>
      constructor
      · rfl
      · rfl
      · rfl
      · intro hne
        apply absurd rfl hne
      · intro j hj
        cases hj
      · intro r hr
        cases hr
  | event e _ ih => apply ih.exec

/-- Completion belongs to the request: what is reported is that of the request, a request that
has been queued is taken from the queue once, and a call that is refused because there is a
request adds a bit to the state of the file and changes nothing else of it. -/
structure InOrder (h : Handle) : Prop where
  reports : ∀ r ∈ h.reports, Report.Belongs r
  accepted : h.accepted = h.executed + h.queued
  executed : h.executed = h.reports.length + h.jobs.length
  once : h.queued + h.jobs.length ≤ 1
  refuses : h.command ≠ .none → ∀ buffer length, h.read buffer length = h.refuseCall ∧
    h.write buffer length = h.refuseCall ∧ h.seek buffer = h ∧ h.result = 0

theorem Reachable.foldl (hr : Reachable h) (es : List Event) : Reachable (es.foldl exec h) := by
  induction es generalizing h with
  | nil => apply hr
  | cons e es ih => apply ih (.event e hr)

end Handle

end File

end UOS
