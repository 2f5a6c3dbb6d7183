import McmqHost.Base.Machine
import McmqHost.Basic

/-!
# The I/O thread

An `IOThread` gives each request a buffer, passes at most `queue_depth` of them to the
driver and lets the others wait. A callback from the driver moves a request to the
completed queue; the thread takes that queue in one batch and processes the batch one
request after another, which may pass on a waiting request and submit a new one. The
memory space and the driver are a backend, so that one model of the thread serves
every model of them. The latency histograms and the final rates are left out.
-/

namespace McmqHost

/-- Arguments of `IOThread::submit_io_request`. -/
structure Access where
  /-- Write rather than read. -/
  doWrite : Bool
  /-- Namespace. -/
  nsid : Nat
  /-- First byte. -/
  pos : Int
  /-- Number of bytes. -/
  size : Nat
deriving DecidableEq, Repr

/-- `IOThread::IORequest`, named by its order among the thread's allocations of one. -/
structure IORequest extends Access where
  /-- Which `new IORequest` this is. -/
  serial : Nat
  /-- The buffer. -/
  buf : Address
deriving DecidableEq, Repr

/-- The memory space and the driver behind a thread, with what a device may do meanwhile. -/
structure Backend (World Event : Type) where
  /-- `MemorySpace::allocate_pages`. -/
  allocatePages : World → Nat → Except Fault (Address × World)
  /-- `MemorySpace::free`. -/
  free : World → Address → Nat → Except Fault World
  /-- `NVMeDriver::read_async`. -/
  readAsync : World → IORequest → Except Fault World
  /-- `NVMeDriver::write_async`. -/
  writeAsync : World → IORequest → Except Fault World
  /-- The call of a request's callback, when the device may have completed a command. -/
  complete : World → IORequest → Option World
  /-- Any other step of the device or the driver. -/
  evolve : World → Event → Option World

/-- The branch of `IOThread::submit_to_device` on the kind of request. -/
def Backend.rwAsync {World Event : Type} (backend : Backend World Event) (world : World)
    (req : IORequest) : Except Fault World :=
  if req.doWrite then backend.writeAsync world req else backend.readAsync world req

/-- `IOThread` and its backend. -/
structure IOThread (World : Type) where
  /-- The memory space and the driver. -/
  world : World
  /-- `queue_depth`. -/
  queueDepth : Nat
  /-- `request_count`. -/
  requestCount : Nat
  /-- `nr_submitted_requests`. -/
  nrSubmittedRequests : Nat
  /-- `nr_completed_requests`. -/
  nrCompletedRequests : Nat
  /-- `inflight_requests`. -/
  inflightRequests : Nat
  /-- `nr_completed_read_requests`. -/
  nrCompletedReadRequests : Nat
  /-- `nr_completed_write_requests`. -/
  nrCompletedWriteRequests : Nat
  /-- `transferred_bytes_total`. -/
  transferredBytesTotal : Nat
  /-- `transferred_bytes_read`. -/
  transferredBytesRead : Nat
  /-- `transferred_bytes_write`. -/
  transferredBytesWrite : Nat
  /-- `waiting_requests`. -/
  waitingRequests : List IORequest
  /-- `completed_requests`. -/
  completedRequests : List IORequest
  /-- Number of requests allocated so far. -/
  allocated : Nat
  /-- Requests whose callback the driver holds. -/
  issued : List IORequest
  /-- Every request passed to the driver so far, in order. -/
  dispatched : List IORequest

namespace IOThread

variable {World Event : Type}

/-- `IOThread::IOThread`. -/
def create (world : World) (queueDepth requestCount : Nat) : IOThread World where
  world := world
  queueDepth := queueDepth
  requestCount := requestCount
  nrSubmittedRequests := 0
  nrCompletedRequests := 0
  inflightRequests := 0
  nrCompletedReadRequests := 0
  nrCompletedWriteRequests := 0
  transferredBytesTotal := 0
  transferredBytesRead := 0
  transferredBytesWrite := 0
  waitingRequests := []
  completedRequests := []
  allocated := 0
  issued := []
  dispatched := []

/-- The thread after the driver took a request. -/
def dispatch (thread : IOThread World) (req : IORequest) (world : World) : IOThread World :=
  { thread with
    world := world
    inflightRequests := u32 (thread.inflightRequests + 1)
    issued := thread.issued ++ [req]
    dispatched := thread.dispatched ++ [req] }

/-- `IOThread::submit_to_device`. -/
def submitToDevice (backend : Backend World Event) (thread : IOThread World) (req : IORequest) :
    Except Fault (IOThread World) := do
  let world ← backend.rwAsync thread.world req
  pure (thread.dispatch req world)

/-- The thread after it allocated and counted a request. -/
def register (thread : IOThread World) (world : World) : IOThread World :=
  { thread with
    world := world
    allocated := thread.allocated + 1
    nrSubmittedRequests := u64 (thread.nrSubmittedRequests + 1) }

/-- Assign the waiting queue. -/
def setWaiting (thread : IOThread World) (waiting : List IORequest) : IOThread World :=
  { thread with waitingRequests := waiting }

/-- `IOThread::submit_io_request`. -/
def submitIoRequest (backend : Backend World Event) (thread : IOThread World) (access : Access) :
    Except Fault (IOThread World) := do
  let (buf, world) ← backend.allocatePages thread.world access.size
  let req : IORequest := ⟨access, thread.allocated, buf⟩
  let registered := thread.register world
  if registered.inflightRequests ≥ registered.queueDepth then
    pure (registered.setWaiting (registered.waitingRequests ++ [req]))
  else registered.submitToDevice backend req

/-- The loop of `IOThread::process_completed_request` over the waiting queue. -/
def drainWaiting (backend : Backend World Event) (thread : IOThread World) :
    List IORequest → Except Fault (IOThread World)
  | [] => pure (thread.setWaiting [])
  | req :: rest =>
    if thread.inflightRequests < thread.queueDepth then do
      let next ← (thread.setWaiting rest).submitToDevice backend req
      next.drainWaiting backend rest
    else pure (thread.setWaiting (req :: rest))

/-- `IOThreadSynthetic::on_request_completed`, given what `generate_request` draws. -/
def onRequestCompleted (backend : Backend World Event) (thread : IOThread World)
    (access : Access) : Except Fault (IOThread World) :=
  if thread.nrSubmittedRequests < thread.requestCount then
    thread.submitIoRequest backend access
  else pure thread

/-- The counters after a request completed and its buffer was freed. -/
def settle (thread : IOThread World) (req : IORequest) (world : World) : IOThread World :=
  { thread with
    world := world
    inflightRequests := pred32 thread.inflightRequests
    nrCompletedRequests := u64 (thread.nrCompletedRequests + 1)
    transferredBytesTotal := u64 (thread.transferredBytesTotal + req.size)
    nrCompletedWriteRequests := if req.doWrite then u64 (thread.nrCompletedWriteRequests + 1)
      else thread.nrCompletedWriteRequests
    transferredBytesWrite := if req.doWrite then u64 (thread.transferredBytesWrite + req.size)
      else thread.transferredBytesWrite
    nrCompletedReadRequests := if req.doWrite then thread.nrCompletedReadRequests
      else u64 (thread.nrCompletedReadRequests + 1)
    transferredBytesRead := if req.doWrite then thread.transferredBytesRead
      else u64 (thread.transferredBytesRead + req.size) }

/-- `IOThread::process_completed_request`. -/
def processCompletedRequest (backend : Backend World Event) (thread : IOThread World)
    (req : IORequest) (access : Access) : Except Fault (IOThread World) := do
  let world ← backend.free thread.world req.buf req.size
  let settled := thread.settle req world
  let drained ← settled.drainWaiting backend settled.waitingRequests
  drained.onRequestCompleted backend access

/-- `IOThread::notify_request_completion` for the request at an index of the issued ones. -/
def notifyRequestCompletion (thread : IOThread World) (index : Nat) (req : IORequest)
    (world : World) : IOThread World :=
  { thread with
    world := world
    issued := thread.issued.eraseIdx index
    completedRequests := thread.completedRequests ++ [req] }

/-- The head of `IOThread::wait_for_completed_requests` empties the completed queue. -/
def takeCompleted (thread : IOThread World) : IOThread World :=
  { thread with completedRequests := [] }

/-- Assign the backend's state. -/
def setWorld (thread : IOThread World) (world : World) : IOThread World :=
  { thread with world := world }

end IOThread

/-- A thread between two of its operations, with the record of what happened to it. -/
structure Flow (World : Type) where
  /-- The thread. -/
  thread : IOThread World
  /-- `reqs`: the rest of the batch that `wait_for_completed_requests` works through. -/
  reqs : List IORequest
  /-- Calls of `submit_io_request` that `run_impl` has still to make. -/
  burst : Nat
  /-- Every access submitted so far, in order. -/
  submitted : List Access
  /-- Every request whose callback was called so far, in order. -/
  notified : List IORequest
  /-- Every request processed as completed so far, in order. -/
  processed : List IORequest

/-- One operation of the thread, or one step of the driver and the device. -/
inductive FlowInput (Event : Type)
  /-- `run_impl` submits a request. -/
  | submit (access : Access)
  /-- The driver calls the callback at an index of the issued requests. -/
  | notify (index : Nat)
  /-- `wait_for_completed_requests` takes the completed queue. -/
  | wait
  /-- It processes the next request of the batch; the access is what the generator draws then. -/
  | process (access : Access)
  /-- The driver or the device takes a step of its own. -/
  | evolve (event : Event)

namespace Flow

variable {World Event : Type}

/-- A thread at its start, with the number of requests that it submits up front. -/
def create (world : World) (queueDepth requestCount averageEnqueuedRequests : Nat) : Flow World where
  thread := .create world queueDepth requestCount
  reqs := []
  burst := averageEnqueuedRequests
  submitted := []
  notified := []
  processed := []

/-- `IOThreadSynthetic::run_impl` interleaved with the driver and the device; an exception ends
the run. -/
def step (backend : Backend World Event) (flow : Flow World) :
    FlowInput Event → Option (Flow World)
  | .submit access =>
    if flow.reqs = [] ∧ 0 < flow.burst then
      match flow.thread.submitIoRequest backend access with
      | .error _ => none
      | .ok thread => some { flow with
          thread := thread
          burst := flow.burst - 1
          submitted := flow.submitted ++ [access] }
    else none
  | .notify index =>
    match flow.thread.issued[index]? with
    | none => none
    | some req =>
      match backend.complete flow.thread.world req with
      | none => none
      | some world => some { flow with
          thread := flow.thread.notifyRequestCompletion index req world
          notified := flow.notified ++ [req] }
  | .wait =>
    if flow.reqs = [] ∧ flow.thread.completedRequests ≠ [] then
      some { flow with thread := flow.thread.takeCompleted, reqs := flow.thread.completedRequests }
    else none
  | .process access =>
    match flow.reqs with
    | [] => none
    | req :: rest =>
      match flow.thread.processCompletedRequest backend req access with
      | .error _ => none
      | .ok thread => some { flow with
          thread := thread
          reqs := rest
          submitted := if flow.thread.nrSubmittedRequests < flow.thread.requestCount
            then flow.submitted ++ [access] else flow.submitted
          processed := flow.processed ++ [req] }
  | .evolve event =>
    match backend.evolve flow.thread.world event with
    | none => none
    | some world => some { flow with thread := flow.thread.setWorld world }

/-- The machine of one thread over a backend. -/
def machine (backend : Backend World Event) : Machine (Flow World) (FlowInput Event) where
  step := Flow.step backend

end Flow

end McmqHost
