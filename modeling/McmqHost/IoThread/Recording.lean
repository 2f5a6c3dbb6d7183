import McmqHost.IoThread.Scheduler

/-!
# What a thread asks of its driver

A recording backend keeps, beside the state of another backend, the calls of `read_async` and
`write_async` in order, each with its arguments and with the direction of the function that was
called. It changes nothing that the thread does, so its record is that of every backend; and the
record is the thread's own list of dispatched requests.
-/

namespace McmqHost

variable {World Event : Type}

/-- A backend that keeps a record of what its driver is asked for. -/
def Backend.recording (backend : Backend World Event) : Backend (World × List Access) Event where
  allocatePages world len := do
    let (buf, next) ← backend.allocatePages world.1 len
    pure (buf, (next, world.2))
  free world addr len := do
    let next ← backend.free world.1 addr len
    pure (next, world.2)
  readAsync world req := do
    let next ← backend.readAsync world.1 req
    pure (next, world.2 ++ [⟨false, req.nsid, req.pos, req.size⟩])
  writeAsync world req := do
    let next ← backend.writeAsync world.1 req
    pure (next, world.2 ++ [⟨true, req.nsid, req.pos, req.size⟩])
  complete world req := (backend.complete world.1 req).map (·, world.2)
  evolve world event := (backend.evolve world.1 event).map (·, world.2)

namespace IOThread

/-- The thread without the record. -/
def forget (thread : IOThread (World × List Access)) : IOThread World :=
  { thread with world := thread.world.1 }

variable {backend : Backend World Event} {thread : IOThread (World × List Access)}

/-- What an operation returns, without the record. -/
def forgotten (result : Except Fault (IOThread (World × List Access))) : Except Fault (IOThread World) :=
  result.map forget

theorem submitToDevice_forget (req : IORequest) :
    forgotten (thread.submitToDevice backend.recording req) =
      thread.forget.submitToDevice backend req := by
  have same : thread.forget.world = thread.world.1 := rfl
  unfold submitToDevice Backend.rwAsync
  rw [same]
  cases req.doWrite with
  | true =>
    simp only [Backend.recording, ↓reduceIte]
    cases backend.writeAsync thread.world.1 req <;> rfl
  | false =>
    simp only [Backend.recording, Bool.false_eq_true, ↓reduceIte]
    cases backend.readAsync thread.world.1 req <;> rfl

theorem submitIoRequest_forget (access : Access) :
    forgotten (thread.submitIoRequest backend.recording access) =
      thread.forget.submitIoRequest backend access := by
  have same : thread.forget.world = thread.world.1 := rfl
  unfold submitIoRequest
  rw [same]
  simp only [Backend.recording]
  cases backend.allocatePages thread.world.1 access.size with
  | error fault => rfl
  | ok result =>
    obtain ⟨buf, world⟩ := result
    by_cases full : thread.inflightRequests ≥ thread.queueDepth
    · have waits : thread.forget.inflightRequests ≥ thread.forget.queueDepth := full
      simp only [bind, Except.bind, pure, Except.pure, register, full, waits, ↓reduceIte]
      rfl
    · have goes : ¬ thread.forget.inflightRequests ≥ thread.forget.queueDepth := full
      simp only [bind, Except.bind, pure, Except.pure, register, full, goes, ↓reduceIte]
      exact submitToDevice_forget _

theorem drainWaiting_forget (waiting : List IORequest) :
    forgotten (thread.drainWaiting backend.recording waiting) =
      thread.forget.drainWaiting backend waiting := by
  induction waiting generalizing thread with
  | nil => rfl
  | cons req rest ih =>
    unfold drainWaiting
    by_cases below : thread.inflightRequests < thread.queueDepth
    · have goes : thread.forget.inflightRequests < thread.forget.queueDepth := below
      have passed : forgotten ((thread.setWaiting rest).submitToDevice backend.recording req) =
          (thread.forget.setWaiting rest).submitToDevice backend req := submitToDevice_forget req
      rw [if_pos below, if_pos goes, ← passed]
      cases (thread.setWaiting rest).submitToDevice backend.recording req with
      | error fault => rfl
      | ok next => exact ih
    · have stays : ¬ thread.forget.inflightRequests < thread.forget.queueDepth := below
      rw [if_neg below, if_neg stays]
      rfl

theorem onRequestCompleted_forget (access : Access) :
    forgotten (thread.onRequestCompleted backend.recording access) =
      thread.forget.onRequestCompleted backend access := by
  unfold onRequestCompleted
  by_cases more : thread.nrSubmittedRequests < thread.requestCount
  · have goes : thread.forget.nrSubmittedRequests < thread.forget.requestCount := more
    rw [if_pos more, if_pos goes]
    exact submitIoRequest_forget access
  · have stops : ¬ thread.forget.nrSubmittedRequests < thread.forget.requestCount := more
    rw [if_neg more, if_neg stops]
    rfl

theorem processCompletedRequest_forget (req : IORequest) (access : Access) :
    forgotten (thread.processCompletedRequest backend.recording req access) =
      thread.forget.processCompletedRequest backend req access := by
  have same : thread.forget.world = thread.world.1 := rfl
  unfold processCompletedRequest
  rw [same]
  simp only [Backend.recording]
  cases backend.free thread.world.1 req.buf req.size with
  | error fault => rfl
  | ok world =>
    have drains : forgotten ((thread.settle req (world, thread.world.2)).drainWaiting
        backend.recording thread.waitingRequests) =
        (thread.forget.settle req world).drainWaiting backend thread.waitingRequests :=
      drainWaiting_forget thread.waitingRequests
    show forgotten (do
        let drained ← (thread.settle req (world, thread.world.2)).drainWaiting backend.recording
          thread.waitingRequests
        drained.onRequestCompleted backend.recording access) = (do
        let drained ← (thread.forget.settle req world).drainWaiting backend thread.waitingRequests
        drained.onRequestCompleted backend access)
    rw [← drains]
    cases (thread.settle req (world, thread.world.2)).drainWaiting backend.recording
        thread.waitingRequests with
    | error fault => rfl
    | ok drained => exact onRequestCompleted_forget access

end IOThread

namespace Flow

/-- The flow without the record. -/
def forget (flow : Flow (World × List Access)) : Flow World :=
  { flow with thread := flow.thread.forget }

variable {backend : Backend World Event} {flow : Flow (World × List Access)}

/-- **The record changes nothing**: each step over a recording backend is the step over the backend
itself. -/
theorem step_forget (flow : Flow (World × List Access)) (input : FlowInput Event) :
    (flow.step backend.recording input).map forget = flow.forget.step backend input := by
  cases input with
  | submit access =>
    have submitted : IOThread.forgotten (flow.thread.submitIoRequest backend.recording access) =
        flow.forget.thread.submitIoRequest backend access := IOThread.submitIoRequest_forget access
    simp only [step]
    rw [← submitted]
    by_cases allowed : flow.reqs = [] ∧ 0 < flow.burst
    · have goes : flow.forget.reqs = [] ∧ 0 < flow.forget.burst := allowed
      rw [if_pos allowed, if_pos goes]
      cases flow.thread.submitIoRequest backend.recording access <;> rfl
    · have stops : ¬ (flow.forget.reqs = [] ∧ 0 < flow.forget.burst) := allowed
      rw [if_neg allowed, if_neg stops]
      rfl
  | notify index =>
    have held : flow.forget.thread.issued[index]? = flow.thread.issued[index]? := rfl
    simp only [step]
    rw [held]
    cases flow.thread.issued[index]? with
    | none => rfl
    | some req =>
      have world : flow.forget.thread.world = flow.thread.world.1 := rfl
      simp only [Backend.recording, world]
      cases backend.complete flow.thread.world.1 req <;> rfl
  | wait =>
    simp only [step]
    by_cases ready : flow.reqs = [] ∧ flow.thread.completedRequests ≠ []
    · have goes : flow.forget.reqs = [] ∧ flow.forget.thread.completedRequests ≠ [] := ready
      rw [if_pos ready, if_pos goes]
      rfl
    · have stops : ¬ (flow.forget.reqs = [] ∧ flow.forget.thread.completedRequests ≠ []) := ready
      rw [if_neg ready, if_neg stops]
      rfl
  | process access =>
    have batch : flow.forget.reqs = flow.reqs := rfl
    simp only [step]
    rw [batch]
    cases flow.reqs with
    | nil => rfl
    | cons req rest =>
      have processed : IOThread.forgotten
          (flow.thread.processCompletedRequest backend.recording req access) =
          flow.forget.thread.processCompletedRequest backend req access :=
        IOThread.processCompletedRequest_forget req access
      dsimp only
      rw [← processed]
      cases flow.thread.processCompletedRequest backend.recording req access <;> rfl
  | evolve event =>
    have world : flow.forget.thread.world = flow.thread.world.1 := rfl
    simp only [step, Backend.recording, world]
    cases backend.evolve flow.thread.world.1 event <;> rfl

/-- The record is the list of dispatched requests. -/
def Recorded (flow : Flow (World × List Access)) : Prop :=
  flow.thread.world.2 = flow.thread.dispatched.map (·.toAccess)

/-- Passing a request on is one call, of the function for its direction. -/
theorem rwAsync_recorded {world after : World × List Access} {req : IORequest}
    (ok : backend.recording.rwAsync world req = .ok after) :
    after.2 = world.2 ++ [req.toAccess] := by
  unfold Backend.rwAsync at ok
  split at ok
  · rename_i write
    obtain ⟨next, -, same⟩ := bind_ok.mp ok
    cases same
    rw [← write]
  · rename_i other
    have read : req.doWrite = false := Bool.eq_false_iff.mpr other
    obtain ⟨next, -, same⟩ := bind_ok.mp ok
    cases same
    rw [← read]

/-- Every move keeps the record. -/
theorem Recorded.moves {before after : Flow (World × List Access)} (recorded : Recorded before)
    (move : Moves backend.recording before after) : Recorded after := by
  unfold Recorded at recorded ⊢
  cases move with
  | arrive allowed gave =>
    obtain ⟨⟨buf, next⟩, -, same⟩ := bind_ok.mp gave
    cases same
    exact recorded
  | pass waits below took =>
    show _ = (before.thread.dispatched ++ _).map _
    rw [List.map_append, ← recorded]
    exact rwAsync_recorded took
  | finish batch freed =>
    obtain ⟨next, -, same⟩ := bind_ok.mp freed
    cases same
    exact recorded
  | waive allowed => exact recorded
  | notify issued completed =>
    obtain ⟨next, -, rfl⟩ := Option.map_eq_some_iff.mp completed
    exact recorded
  | take empty => exact recorded
  | evolve evolved =>
    obtain ⟨next, -, rfl⟩ := Option.map_eq_some_iff.mp evolved
    exact recorded

/-- **The calls of the driver's functions are the dispatched requests**, in order, in every run over
every backend. -/
theorem calls_dispatched {world : World} {queueDepth requestCount burst : Nat}
    (reached : (machine backend.recording).Reaches
      (create (world, []) queueDepth requestCount burst) flow) :
    flow.thread.world.2 = flow.thread.dispatched.map (·.toAccess) := by
  have start : Recorded (create (world, []) queueDepth requestCount burst) := rfl
  exact (reaches_of_moves (fun _ _ recorded move => recorded.moves move) start
    (fun waits => absurd rfl waits) reached).1

end Flow

end McmqHost
