import Mathlib.Data.List.Perm.Basic
import Mathlib.Logic.Relation
import McmqHost.IoThread.Thread

/-!
# The scheduler's accounting

Every operation of a thread is a sequence of moves: a request arrives at the waiting
queue, the driver takes the first waiting one, a callback is called, the batch is taken,
a completed request is settled. What each move preserves therefore holds throughout every
run. A new request that bypasses the waiting queue is one that arrives at an empty queue
and is passed on, since requests wait only while the limit is reached.
-/

namespace McmqHost

open Relation

variable {World Event : Type}

namespace Flow

/-- A new request at the end of the waiting queue. -/
def arrive (flow : Flow World) (access : Access) (buf : Address) (world : World) : Flow World :=
  { flow with
    thread := (flow.thread.register world).setWaiting
      (flow.thread.waitingRequests ++ [⟨access, flow.thread.allocated, buf⟩])
    burst := flow.burst - 1
    submitted := flow.submitted ++ [access] }

/-- The driver took the first waiting request. -/
def pass (flow : Flow World) (req : IORequest) (rest : List IORequest) (world : World) :
    Flow World :=
  { flow with thread := (flow.thread.setWaiting rest).dispatch req world }

/-- The first request of the batch is settled, which allows one more submission. -/
def finish (flow : Flow World) (req : IORequest) (rest : List IORequest) (world : World) :
    Flow World :=
  { flow with
    thread := flow.thread.settle req world
    reqs := rest
    burst := flow.burst + 1
    processed := flow.processed ++ [req] }

/-- A submission that is allowed is not made. -/
def waive (flow : Flow World) : Flow World := { flow with burst := flow.burst - 1 }

/-- A callback is called. -/
def callBack (flow : Flow World) (index : Nat) (req : IORequest) (world : World) : Flow World :=
  { flow with
    thread := flow.thread.notifyRequestCompletion index req world
    notified := flow.notified ++ [req] }

/-- The batch is taken. -/
def take (flow : Flow World) : Flow World :=
  { flow with thread := flow.thread.takeCompleted, reqs := flow.thread.completedRequests }

/-- The moves of which every operation consists. -/
inductive Moves (backend : Backend World Event) : Flow World → Flow World → Prop
  /-- A request gets its buffer and arrives. -/
  | arrive {flow : Flow World} {access : Access} {buf : Address} {world : World} :
    0 < flow.burst → backend.allocatePages flow.thread.world access.size = .ok (buf, world) →
    Moves backend flow (flow.arrive access buf world)
  /-- A waiting request goes to the driver below the limit. -/
  | pass {flow : Flow World} {req : IORequest} {rest : List IORequest} {world : World} :
    flow.thread.waitingRequests = req :: rest →
    flow.thread.inflightRequests < flow.thread.queueDepth →
    backend.rwAsync flow.thread.world req = .ok world →
    Moves backend flow (flow.pass req rest world)
  /-- A completed request gives its buffer back. -/
  | finish {flow : Flow World} {req : IORequest} {rest : List IORequest} {world : World} :
    flow.reqs = req :: rest → backend.free flow.thread.world req.buf req.size = .ok world →
    Moves backend flow (flow.finish req rest world)
  /-- A submission is not made. -/
  | waive {flow : Flow World} : 0 < flow.burst → Moves backend flow flow.waive
  /-- A callback is called. -/
  | notify {flow : Flow World} {index : Nat} {req : IORequest} {world : World} :
    flow.thread.issued[index]? = some req → backend.complete flow.thread.world req = some world →
    Moves backend flow (flow.callBack index req world)
  /-- The batch is taken. -/
  | take {flow : Flow World} : flow.reqs = [] → Moves backend flow flow.take
  /-- The device or the driver moves. -/
  | evolve {flow : Flow World} {event : Event} {world : World} :
    backend.evolve flow.thread.world event = some world →
    Moves backend flow { flow with thread := flow.thread.setWorld world }

/-- Requests wait only while the limit is reached. -/
def Full (flow : Flow World) : Prop :=
  flow.thread.waitingRequests ≠ [] → flow.thread.queueDepth ≤ flow.thread.inflightRequests

end Flow

namespace IOThread

variable {backend : Backend World Event} {thread after : IOThread World}

/-- What `submit_to_device` does when it returns. -/
theorem submitToDevice_ok {req : IORequest} :
    thread.submitToDevice backend req = .ok after ↔
      ∃ world, backend.rwAsync thread.world req = .ok world ∧ after = thread.dispatch req world := by
  rw [submitToDevice]
  cases backend.rwAsync thread.world req with
  | error fault => simp [bind, Except.bind]
  | ok world => simp [bind, Except.bind, pure, Except.pure, eq_comm]

/-- What `submit_io_request` does when it returns. -/
theorem submitIoRequest_ok {access : Access} (ok : thread.submitIoRequest backend access = .ok after) :
    ∃ buf world, backend.allocatePages thread.world access.size = .ok (buf, world) ∧
      if thread.inflightRequests ≥ thread.queueDepth then
        after = (thread.register world).setWaiting
          (thread.waitingRequests ++ [⟨access, thread.allocated, buf⟩])
      else (thread.register world).submitToDevice backend ⟨access, thread.allocated, buf⟩ =
        .ok after := by
  rw [submitIoRequest] at ok
  cases gave : backend.allocatePages thread.world access.size with
  | error fault => simp [gave, bind, Except.bind] at ok
  | ok result =>
    obtain ⟨buf, world⟩ := result
    refine ⟨buf, world, rfl, ?_⟩
    rw [gave] at ok
    by_cases full : thread.inflightRequests ≥ thread.queueDepth
    · have waits : (thread.register world).inflightRequests ≥ (thread.register world).queueDepth :=
        full
      simp only [bind, Except.bind, waits, ↓reduceIte, pure, Except.pure, Except.ok.injEq] at ok
      rw [if_pos full, ← ok]
      rfl
    · have goes : ¬ (thread.register world).inflightRequests ≥ (thread.register world).queueDepth :=
        full
      simp only [bind, Except.bind, goes, ↓reduceIte] at ok
      rw [if_neg full, ok]

@[simp] theorem setWaiting_waiting (thread : IOThread World) (waiting : List IORequest) :
    (thread.setWaiting waiting).waitingRequests = waiting := rfl

/-- Assigning the queue that is there changes nothing. -/
theorem setWaiting_self {waiting : List IORequest} (same : thread.waitingRequests = waiting) :
    thread.setWaiting waiting = thread := by
  subst same
  rfl

end IOThread

namespace Flow

open IOThread

variable {backend : Backend World Event} {flow last : Flow World} {after : IOThread World}

/-- The loop over the waiting queue passes requests on until the limit is reached. -/
theorem drainWaiting_moves {waiting : List IORequest}
    (queue : flow.thread.waitingRequests = waiting)
    (ok : flow.thread.drainWaiting backend waiting = .ok after) :
    ReflTransGen (Moves backend) flow { flow with thread := after } ∧
      Full { flow with thread := after } := by
  induction waiting generalizing flow with
  | nil =>
    simp only [drainWaiting, pure, Except.pure, Except.ok.injEq, setWaiting_self queue] at ok
    subst ok
    exact ⟨.refl, fun waits => absurd queue waits⟩
  | cons req rest ih =>
    rw [drainWaiting] at ok
    split at ok
    case isTrue below =>
      cases passed : (flow.thread.setWaiting rest).submitToDevice backend req with
      | error fault => simp [passed, bind, Except.bind] at ok
      | ok next =>
        simp only [passed, bind, Except.bind] at ok
        obtain ⟨world, took, rfl⟩ := submitToDevice_ok.mp passed
        have moved : Moves backend flow (flow.pass req rest world) := .pass queue below took
        have queued : (flow.pass req rest world).thread.waitingRequests = rest := rfl
        have later := ih queued ok
        exact ⟨.head moved later.1, later.2⟩
    case isFalse reached =>
      simp only [pure, Except.pure, Except.ok.injEq, setWaiting_self queue] at ok
      subst ok
      exact ⟨.refl, fun _ => Nat.le_of_not_lt reached⟩

/-- A submission is an arrival, and at an empty queue below the limit it is also passed on. -/
theorem submitIoRequest_moves {access : Access} (full : flow.Full) (allowed : 0 < flow.burst)
    (ok : flow.thread.submitIoRequest backend access = .ok after) :
    ReflTransGen (Moves backend) flow { flow with
        thread := after, burst := flow.burst - 1, submitted := flow.submitted ++ [access] } ∧
      Full { flow with
        thread := after, burst := flow.burst - 1, submitted := flow.submitted ++ [access] } := by
  obtain ⟨buf, world, gave, rest⟩ := submitIoRequest_ok ok
  have arrived : Moves backend flow (flow.arrive access buf world) := .arrive allowed gave
  split at rest
  case isTrue reached =>
    subst rest
    exact ⟨.single arrived, fun _ => reached⟩
  case isFalse below =>
    have queue : flow.thread.waitingRequests = [] := by
      by_contra waits
      exact below (full waits)
    obtain ⟨passed, took, rfl⟩ := submitToDevice_ok.mp rest
    have moved : Moves backend (flow.arrive access buf world)
        ((flow.arrive access buf world).pass ⟨access, flow.thread.allocated, buf⟩ [] passed) := by
      refine .pass ?_ (Nat.lt_of_not_le below) took
      rw [arrive, setWaiting_waiting, queue, List.nil_append]
    have same : (flow.arrive access buf world).pass ⟨access, flow.thread.allocated, buf⟩ [] passed =
        { flow with
          thread := (flow.thread.register world).dispatch ⟨access, flow.thread.allocated, buf⟩ passed
          burst := flow.burst - 1
          submitted := flow.submitted ++ [access] } := by
      simp only [pass, arrive]
      have empty : (flow.thread.register world).waitingRequests = [] := queue
      rw [show ((flow.thread.register world).setWaiting (flow.thread.waitingRequests ++
        [⟨access, flow.thread.allocated, buf⟩])).setWaiting [] = flow.thread.register world from
          setWaiting_self empty]
    rw [same] at moved
    exact ⟨.head arrived (.single moved), fun waits => absurd queue waits⟩

/-- The loop over the waiting queue submits nothing new. -/
theorem drainWaiting_submitted {waiting : List IORequest} {thread : IOThread World}
    (ok : thread.drainWaiting backend waiting = .ok after) :
    after.nrSubmittedRequests = thread.nrSubmittedRequests ∧
      after.requestCount = thread.requestCount := by
  induction waiting generalizing thread with
  | nil =>
    obtain rfl := Except.ok.inj ok
    exact ⟨rfl, rfl⟩
  | cons req rest ih =>
    rw [drainWaiting] at ok
    split at ok
    case isTrue below =>
      cases passed : (thread.setWaiting rest).submitToDevice backend req with
      | error fault => simp [passed, bind, Except.bind] at ok
      | ok next =>
        simp only [passed, bind, Except.bind] at ok
        obtain ⟨world, -, rfl⟩ := submitToDevice_ok.mp passed
        have later := ih ok
        exact later
    case isFalse reached =>
      obtain rfl := Except.ok.inj ok
      exact ⟨rfl, rfl⟩

/-- What `process_completed_request` does when it returns. -/
theorem processCompletedRequest_ok {thread : IOThread World} {req : IORequest} {access : Access}
    (ok : thread.processCompletedRequest backend req access = .ok after) :
    ∃ world drained, backend.free thread.world req.buf req.size = .ok world ∧
      (thread.settle req world).drainWaiting backend thread.waitingRequests = .ok drained ∧
      drained.onRequestCompleted backend access = .ok after := by
  rw [processCompletedRequest] at ok
  cases freed : backend.free thread.world req.buf req.size with
  | error fault => simp [freed, bind, Except.bind] at ok
  | ok world =>
    have queue : (thread.settle req world).waitingRequests = thread.waitingRequests := rfl
    rw [freed] at ok
    simp only [bind, Except.bind, queue] at ok
    cases ran : (thread.settle req world).drainWaiting backend thread.waitingRequests with
    | error fault => simp [ran] at ok
    | ok drained =>
      rw [ran] at ok
      exact ⟨world, drained, rfl, ran, ok⟩

/-- Processing settles the request, passes waiting ones on and submits one more or none. -/
theorem processCompletedRequest_moves {req : IORequest} {rest : List IORequest} {access : Access}
    (batch : flow.reqs = req :: rest)
    (ok : flow.thread.processCompletedRequest backend req access = .ok after) :
    ReflTransGen (Moves backend) flow { flow with
        thread := after
        reqs := rest
        submitted := if flow.thread.nrSubmittedRequests < flow.thread.requestCount
          then flow.submitted ++ [access] else flow.submitted
        processed := flow.processed ++ [req] } ∧
      (after.waitingRequests ≠ [] → after.queueDepth ≤ after.inflightRequests) := by
  obtain ⟨world, drained, freed, ran, submitted⟩ := processCompletedRequest_ok ok
  obtain ⟨count, limit⟩ := drainWaiting_submitted ran
  have finished : Moves backend flow (flow.finish req rest world) := .finish batch freed
  have same : (flow.finish req rest world).thread.waitingRequests =
      (flow.finish req rest world).thread.waitingRequests := rfl
  have passed := drainWaiting_moves same ran
  have settled := ReflTransGen.head finished passed.1
  rw [onRequestCompleted, count, limit] at submitted
  change (if flow.thread.nrSubmittedRequests < flow.thread.requestCount then _ else _) = _ at submitted
  by_cases more : flow.thread.nrSubmittedRequests < flow.thread.requestCount
  · rw [if_pos more] at submitted ⊢
    have arrived := submitIoRequest_moves passed.2 (Nat.succ_pos flow.burst) submitted
    exact ⟨settled.trans arrived.1, arrived.2⟩
  · rw [if_neg more] at submitted ⊢
    obtain rfl := Except.ok.inj submitted
    exact ⟨settled.tail (.waive (Nat.succ_pos flow.burst)), passed.2⟩

/-- Every operation is a sequence of moves after which requests wait only at the limit. -/
theorem step_moves {input : FlowInput Event} (full : flow.Full)
    (stepped : flow.step backend input = some last) :
    ReflTransGen (Moves backend) flow last ∧ last.Full := by
  cases input with
  | submit access =>
    simp only [step] at stepped
    split at stepped
    case isFalse => contradiction
    case isTrue allowed =>
      cases ran : flow.thread.submitIoRequest backend access with
      | error fault => simp [ran] at stepped
      | ok thread =>
        simp only [ran, Option.some.injEq] at stepped
        subst stepped
        exact submitIoRequest_moves full allowed.2 ran
  | notify index =>
    simp only [step] at stepped
    cases held : flow.thread.issued[index]? with
    | none => simp [held] at stepped
    | some req =>
      cases done : backend.complete flow.thread.world req with
      | none => simp [held, done] at stepped
      | some world =>
        simp only [held, done, Option.some.injEq] at stepped
        subst stepped
        exact ⟨.single (.notify held done), full⟩
  | wait =>
    simp only [step] at stepped
    split at stepped
    case isFalse => contradiction
    case isTrue ready =>
      obtain rfl := Option.some.inj stepped
      exact ⟨.single (.take ready.1), full⟩
  | process access =>
    simp only [step] at stepped
    cases batch : flow.reqs with
    | nil => simp [batch] at stepped
    | cons req rest =>
      cases ran : flow.thread.processCompletedRequest backend req access with
      | error fault => simp [batch, ran] at stepped
      | ok thread =>
        simp only [batch, ran, Option.some.injEq] at stepped
        subst stepped
        exact processCompletedRequest_moves batch ran
  | evolve event =>
    simp only [step] at stepped
    cases moved : backend.evolve flow.thread.world event with
    | none => simp [moved] at stepped
    | some world =>
      simp only [moved, Option.some.injEq] at stepped
      subst stepped
      exact ⟨.single (.evolve moved), full⟩

/-- **Move rule.** What every move preserves holds, with the limit on waiting, in every state that a
run reaches. -/
theorem reaches_of_moves {Good : Flow World → Prop}
    (preserved : ∀ before after, Good before → Moves backend before after → Good after)
    {start : Flow World} (initial : Good start) (full : start.Full)
    (reached : (machine backend).Reaches start last) : Good last ∧ last.Full := by
  apply reached.invariant (fun flow => Good flow ∧ flow.Full) _ ⟨initial, full⟩
  rintro before input after ⟨good, full⟩ stepped
  have kept : ∀ flow, ReflTransGen (Moves backend) before flow → Good flow := by
    intro flow moves
    induction moves with
    | refl => exact good
    | tail _ move ih => exact preserved _ _ ih move
  obtain ⟨moves, full⟩ := step_moves full stepped
  exact ⟨kept after moves, full⟩

/-- Bytes of the requests of one kind. -/
def bytes (requests : List IORequest) : Nat := (requests.map (·.size)).sum

/-- The write requests. -/
def writes (requests : List IORequest) : List IORequest := requests.filter (·.doWrite)

/-- The read requests. -/
def reads (requests : List IORequest) : List IORequest := requests.filter (!·.doWrite)

/-- What every move preserves: each counter is that of the record of events, and each submitted
request is in one place. -/
structure Counted (queueDepth : Nat) (flow : Flow World) : Prop where
  /-- The limit does not change. -/
  limit : flow.thread.queueDepth = queueDepth
  /-- No more requests are in flight than the limit. -/
  limited : flow.thread.inflightRequests ≤ queueDepth
  /-- Requests in flight are issued, completed, or in the batch. -/
  inflight : flow.thread.inflightRequests =
    flow.thread.issued.length + flow.thread.completedRequests.length + flow.reqs.length
  /-- Submitted requests are dispatched or wait, in the order of their submission. -/
  queued : (flow.thread.dispatched ++ flow.thread.waitingRequests).map (·.toAccess) = flow.submitted
  /-- They are named by that order. -/
  named : (flow.thread.dispatched ++ flow.thread.waitingRequests).map (·.serial) =
    List.range flow.thread.allocated
  /-- Dispatched requests are issued still or were notified. -/
  served : flow.thread.dispatched.Perm (flow.thread.issued ++ flow.notified)
  /-- Notified requests are processed in the order of their notification. -/
  delivered : flow.notified = flow.processed ++ flow.reqs ++ flow.thread.completedRequests
  /-- Submissions are counted. -/
  submissions : flow.thread.nrSubmittedRequests = u64 flow.submitted.length
  /-- Completions are counted. -/
  completions : flow.thread.nrCompletedRequests = u64 flow.processed.length
  /-- Completed reads are counted. -/
  readCount : flow.thread.nrCompletedReadRequests = u64 (reads flow.processed).length
  /-- Completed writes are counted. -/
  writeCount : flow.thread.nrCompletedWriteRequests = u64 (writes flow.processed).length
  /-- Bytes of completed requests are added up. -/
  total : flow.thread.transferredBytesTotal = u64 (bytes flow.processed)
  /-- Bytes of completed reads are added up. -/
  readBytes : flow.thread.transferredBytesRead = u64 (bytes (reads flow.processed))
  /-- Bytes of completed writes are added up. -/
  writeBytes : flow.thread.transferredBytesWrite = u64 (bytes (writes flow.processed))

theorem Counted.create {queueDepth requestCount burst : Nat} (world : World) :
    Counted queueDepth (create world queueDepth requestCount burst) := by
  constructor <;> simp [Flow.create, IOThread.create, reads, writes, bytes, u64]

namespace Counted

variable {queueDepth : Nat}

theorem arrive (counted : Counted queueDepth flow) (access : Access) (buf : Address)
    (world : World) : Counted queueDepth (flow.arrive access buf world) := by
  have queued := counted.queued
  have named := counted.named
  exact { counted with
    queued := by
      simp only [Flow.arrive, IOThread.setWaiting, IOThread.register, ← List.append_assoc,
        List.map_append, List.map_cons, List.map_nil]
      rw [← List.map_append, queued]
    named := by
      simp only [Flow.arrive, IOThread.setWaiting, IOThread.register, ← List.append_assoc,
        List.map_append, List.map_cons, List.map_nil, List.range_succ]
      rw [← List.map_append, named]
    submissions := by
      simp only [Flow.arrive, IOThread.setWaiting, IOThread.register, counted.submissions,
        u64_u64_add, List.length_append, List.length_singleton] }

theorem pass (counted : Counted queueDepth flow) (narrow : queueDepth < 2 ^ 32)
    {req : IORequest} {rest : List IORequest} (queue : flow.thread.waitingRequests = req :: rest)
    (below : flow.thread.inflightRequests < flow.thread.queueDepth) (world : World) :
    Counted queueDepth (flow.pass req rest world) := by
  have limit := counted.limit
  have one : u32 (flow.thread.inflightRequests + 1) = flow.thread.inflightRequests + 1 :=
    u32_of_lt (by omega)
  have order : flow.thread.dispatched ++ [req] ++ rest =
      flow.thread.dispatched ++ flow.thread.waitingRequests := by
    rw [queue, List.append_assoc, List.singleton_append]
  exact { counted with
    limited := by
      simp only [Flow.pass, IOThread.dispatch, IOThread.setWaiting, one]
      omega
    inflight := by
      have inflight := counted.inflight
      simp only [Flow.pass, IOThread.dispatch, IOThread.setWaiting, one, List.length_append,
        List.length_singleton]
      omega
    queued := by
      simp only [Flow.pass, IOThread.dispatch, IOThread.setWaiting, order, counted.queued]
    named := by
      simp only [Flow.pass, IOThread.dispatch, IOThread.setWaiting, order, counted.named]
    served := by
      simp only [Flow.pass, IOThread.dispatch, IOThread.setWaiting]
      have moved : (flow.thread.issued ++ flow.notified ++ [req]).Perm
          (flow.thread.issued ++ [req] ++ flow.notified) := by
        rw [List.append_assoc, List.append_assoc]
        exact (List.perm_append_singleton req flow.notified).append_left flow.thread.issued
      exact (counted.served.append_right [req]).trans moved }

theorem finish (counted : Counted queueDepth flow) {req : IORequest} {rest : List IORequest}
    (batch : flow.reqs = req :: rest) (world : World) :
    Counted queueDepth (flow.finish req rest world) := by
  have limited := counted.limited
  have inflight := counted.inflight
  rw [batch, List.length_cons] at inflight
  have one : pred32 flow.thread.inflightRequests = flow.thread.inflightRequests - 1 :=
    pred32_of_pos (by omega)
  exact { counted with
    limited := by
      simp only [Flow.finish, IOThread.settle, one]
      omega
    inflight := by
      simp only [Flow.finish, IOThread.settle, one]
      omega
    delivered := by
      simp only [Flow.finish, IOThread.settle, counted.delivered, batch]
      simp
    completions := by
      simp [Flow.finish, IOThread.settle, counted.completions]
    readCount := by
      cases kind : req.doWrite <;>
        simp [Flow.finish, IOThread.settle, counted.readCount, reads, kind]
    writeCount := by
      cases kind : req.doWrite <;>
        simp [Flow.finish, IOThread.settle, counted.writeCount, writes, kind]
    total := by
      simp [Flow.finish, IOThread.settle, counted.total, bytes]
    readBytes := by
      cases kind : req.doWrite <;>
        simp [Flow.finish, IOThread.settle, counted.readBytes, reads, bytes, kind]
    writeBytes := by
      cases kind : req.doWrite <;>
        simp [Flow.finish, IOThread.settle, counted.writeBytes, writes, bytes, kind] }

theorem notify (counted : Counted queueDepth flow) {index : Nat} {req : IORequest}
    (held : flow.thread.issued[index]? = some req) (world : World) :
    Counted queueDepth (flow.callBack index req world) := by
  obtain ⟨inside, found⟩ := List.getElem?_eq_some_iff.mp held
  have perm := List.getElem_cons_eraseIdx_perm inside
  rw [found] at perm
  exact { counted with
    inflight := by
      have lengths := perm.length_eq
      have inflight := counted.inflight
      simp only [Flow.callBack, IOThread.notifyRequestCompletion, List.length_append,
        List.length_cons, List.length_nil] at lengths ⊢
      omega
    served := by
      simp only [Flow.callBack, IOThread.notifyRequestCompletion]
      have moved : (req :: (flow.thread.issued.eraseIdx index ++ flow.notified)).Perm
          (flow.thread.issued.eraseIdx index ++ (flow.notified ++ [req])) := by
        rw [← List.append_assoc]
        exact (List.perm_append_singleton _ _).symm
      exact counted.served.trans ((perm.symm.append_right flow.notified).trans moved)
    delivered := by
      simp only [Flow.callBack, IOThread.notifyRequestCompletion, counted.delivered,
        List.append_assoc] }

/-- Every move keeps the accounts. -/
theorem moves {before after : Flow World} (narrow : queueDepth < 2 ^ 32)
    (counted : Counted queueDepth before) (move : Moves backend before after) :
    Counted queueDepth after := by
  cases move with
  | arrive _ _ => exact counted.arrive _ _ _
  | pass queue below _ => exact counted.pass narrow queue below _
  | finish batch _ => exact counted.finish batch _
  | waive _ => exact { counted with }
  | notify held _ => exact counted.notify held _
  | take empty =>
    exact { counted with
      inflight := by
        have inflight := counted.inflight
        rw [empty] at inflight
        simp [Flow.take, IOThread.takeCompleted, inflight]
      delivered := by
        have delivered := counted.delivered
        rw [empty] at delivered
        simp [Flow.take, IOThread.takeCompleted, delivered] }
  | evolve _ => exact { counted with }

/-- Requests passed to the driver have different names. -/
theorem dispatched_nodup (counted : Counted queueDepth flow) :
    (flow.thread.dispatched.map (·.serial)).Nodup := by
  have named := counted.named
  rw [List.map_append] at named
  have distinct : (List.range flow.thread.allocated).Nodup := List.nodup_range
  rw [← named] at distinct
  exact (List.nodup_append.mp distinct).1

/-- Requests notified so far have different names. -/
theorem notified_nodup (counted : Counted queueDepth flow) :
    (flow.notified.map (·.serial)).Nodup := by
  have perm := counted.served.map (·.serial)
  have distinct := perm.nodup_iff.mp counted.dispatched_nodup
  rw [List.map_append] at distinct
  exact (List.nodup_append.mp distinct).2.1

/-- Reads and writes make up the requests. -/
theorem reads_writes (requests : List IORequest) :
    requests.length = (reads requests).length + (writes requests).length := by
  induction requests with
  | nil => rfl
  | cons req rest ih =>
    simp only [reads, writes, List.filter_cons, List.length_cons] at ih ⊢
    cases req.doWrite <;> simp <;> omega

end Counted

/-- What the scheduler promises in every state: its limit, its counters, and one place for each
request. -/
structure Scheduled (queueDepth : Nat) (flow : Flow World) : Prop where
  /-- No more requests are in flight than the limit. -/
  limited : flow.thread.inflightRequests ≤ queueDepth
  /-- The count in flight is that of the requests issued, completed or in the batch; it is positive
  whenever a completed request is about to lower it. -/
  inflight : flow.thread.inflightRequests =
    flow.thread.issued.length + flow.thread.completedRequests.length + flow.reqs.length
  /-- Submitted requests are completed, in flight or waiting, as values of `size_t`. -/
  balance : flow.thread.nrSubmittedRequests = u64 (flow.thread.nrCompletedRequests +
    flow.thread.inflightRequests + flow.thread.waitingRequests.length)
  /-- Requests wait only at the limit. -/
  full : flow.thread.waitingRequests ≠ [] → flow.thread.inflightRequests = queueDepth
  /-- Each submitted request is dispatched or waits, and none overtakes another. -/
  queued : (flow.thread.dispatched ++ flow.thread.waitingRequests).map (·.toAccess) = flow.submitted
  /-- No request is dispatched twice. -/
  dispatchedOnce : (flow.thread.dispatched.map (·.serial)).Nodup
  /-- A dispatched request is issued still or was notified. -/
  served : flow.thread.dispatched.Perm (flow.thread.issued ++ flow.notified)
  /-- A notified request is processed or on its way there, and it is there once. -/
  delivered : flow.notified = flow.processed ++ flow.reqs ++ flow.thread.completedRequests
  /-- No request is notified twice, so none is processed twice. -/
  notifiedOnce : (flow.notified.map (·.serial)).Nodup
  /-- The completed requests are those processed. -/
  completed : flow.thread.nrCompletedRequests = u64 flow.processed.length
  /-- Completed requests are reads or writes. -/
  kinds : flow.thread.nrCompletedRequests =
    u64 (flow.thread.nrCompletedReadRequests + flow.thread.nrCompletedWriteRequests)
  /-- `transferred_bytes_total` is the sum of the sizes processed. -/
  total : flow.thread.transferredBytesTotal = u64 (bytes flow.processed)
  /-- `transferred_bytes_read` is the sum of the sizes of the reads processed. -/
  readBytes : flow.thread.transferredBytesRead = u64 (bytes (reads flow.processed))
  /-- `transferred_bytes_write` is the sum of the sizes of the writes processed. -/
  writeBytes : flow.thread.transferredBytesWrite = u64 (bytes (writes flow.processed))

/-- The accounts and the limit on waiting are what the scheduler promises. -/
theorem Counted.schedule {queueDepth : Nat} (counted : Counted queueDepth flow)
    (full : flow.Full) : Scheduled queueDepth flow where
  limited := counted.limited
  inflight := counted.inflight
  balance := by
    have lengths := congrArg List.length counted.queued
    have served := counted.served.length_eq
    have delivered := congrArg List.length counted.delivered
    have inflight := counted.inflight
    simp only [List.length_append, List.length_map] at lengths served delivered
    rw [counted.submissions, counted.completions, Nat.add_assoc, u64_u64_add]
    congr 1
    omega
  full := by
    intro waits
    have reached := full waits
    rw [counted.limit] at reached
    exact Nat.le_antisymm counted.limited reached
  queued := counted.queued
  dispatchedOnce := counted.dispatched_nodup
  served := counted.served
  delivered := counted.delivered
  notifiedOnce := counted.notified_nodup
  completed := counted.completions
  kinds := by
    rw [counted.completions, counted.readCount, counted.writeCount, u64_u64_add, u64_add_u64,
      Counted.reads_writes]
  total := counted.total
  readBytes := counted.readBytes
  writeBytes := counted.writeBytes

/-- **The scheduler** keeps its promises in every state that any sequence of submissions,
notifications, batches and device steps reaches, over any backend. -/
theorem scheduled {world : World} {queueDepth requestCount burst : Nat}
    (narrow : queueDepth < 2 ^ 32)
    (reached : (machine backend).Reaches (create world queueDepth requestCount burst) flow) :
    Scheduled queueDepth flow := by
  have waits : (create world queueDepth requestCount burst).Full := fun waits => absurd rfl waits
  obtain ⟨counted, full⟩ := reaches_of_moves (fun _ _ counted move => Counted.moves narrow counted move)
    (Counted.create world) waits reached
  exact counted.schedule full

/-- A backend with memory for every request, one page after another. -/
def pages : Backend Nat Unit where
  allocatePages used _ := .ok (0x1000 * (used + 1), used + 1)
  free used _ _ := .ok used
  readAsync used _ := .ok used
  writeAsync used _ := .ok used
  complete used _ := some used
  evolve used _ := some used

/-- Two requests, the second of which waits until the first is processed. -/
def twoRequests : List (FlowInput Unit) :=
  [.submit ⟨true, 1, 0, 4096⟩, .submit ⟨false, 1, 4096, 512⟩, .notify 0, .wait,
    .process ⟨false, 1, 0, 512⟩]

/-- With a limit of one the second of two requests waits, and then goes to the driver. -/
theorem scheduled_two : ∃ flow, (machine pages).run (create 0 1 2 2) twoRequests = some flow ∧
    flow.thread.dispatched.length = 2 ∧ flow.processed.length = 1 ∧ Scheduled 1 flow := by
  have performed : ∃ flow, (machine pages).run (create 0 1 2 2) twoRequests = some flow ∧
      flow.thread.dispatched.length = 2 ∧ flow.processed.length = 1 := ⟨_, rfl, rfl, rfl⟩
  obtain ⟨flow, ran, dispatched, processed⟩ := performed
  have narrow : 1 < 2 ^ 32 := by decide
  exact ⟨flow, ran, dispatched, processed, scheduled narrow ⟨twoRequests, ran⟩⟩

end Flow

end McmqHost
