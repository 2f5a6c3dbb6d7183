import McmqHost.Base.Monitor

/-!
# Waiting for the receiving thread

Five calls block until the receiving thread has done something: the wait for the device at
start-up, the wait for a command, a register read, the report, and an I/O thread's wait for
completed requests. Below is the locking of each of them and of what the receiving thread
calls, one program a function of the source. `set_ready` alone sets its flag without the mutex that
the waiting thread tests it with, which is a local variable of that thread.
-/

namespace McmqHost

/-- The receiving thread and all others. -/
inductive HostThread
  /-- The thread of `recv_thread`. -/
  | receiver
  /-- The main thread or an I/O thread. -/
  | worker (index : Nat)
deriving DecidableEq, Repr

/-- The mutexes of the link, the driver and the I/O threads. -/
inductive HostMutex
  /-- `ready_mutex`, local to the call of a thread. -/
  | ready (thread : HostThread)
  /-- `PCIeLinkMcmq::mutex`. -/
  | link
  /-- `sock_mutex`. -/
  | sock
  /-- `ReadRequest::mutex`. -/
  | readRequest (id : Nat)
  /-- `command_mutex`. -/
  | commands
  /-- `AsyncCommand::mutex`. -/
  | asyncCommand (id : Nat)
  /-- `completion_mutex` of an I/O thread. -/
  | completion (index : Nat)
deriving DecidableEq, Repr

/-- What a thread waits for; each has its condition variable. -/
inductive HostCondition
  /-- `device_ready`. -/
  | deviceReady
  /-- `ReadRequest::completed`. -/
  | readCompleted (id : Nat)
  /-- `result_ready`. -/
  | resultReady
  /-- `AsyncCommand::completed`. -/
  | commandCompleted (id : Nat)
  /-- `completed_requests` of an I/O thread is not empty. -/
  | completedRequests (index : Nat)
deriving DecidableEq, Repr

/-- The functions that lock, wait or notify. -/
inductive HostProcedure
  /-- `PCIeLink::wait_for_device_ready`. -/
  | waitForDeviceReady
  /-- `PCIeLinkMcmq::send_message` and `send_config`. -/
  | sendMessage
  /-- `PCIeLinkMcmq::read_from_device`. -/
  | readFromDevice (id : Nat)
  /-- `PCIeLinkMcmq::report`. -/
  | report
  /-- `NVMeDriver::setup_async_command`. -/
  | setupAsyncCommand (id : Nat)
  /-- `AsyncCommand::wait`. -/
  | asyncCommandWait (id : Nat)
  /-- `IOThread::wait_for_completed_requests`. -/
  | waitForCompletedRequests
  /-- `PCIeLink::set_ready`. -/
  | setReady
  /-- `PCIeLinkMcmq::complete_read_request`, unless the id is not pending. -/
  | completeReadRequest (id : Option Nat)
  /-- The receiving thread's case for `RESULT`; the argument tells whether the result is whole. -/
  | result (whole : Bool)
  /-- `NVMeDriver::handle_cqe` of an unknown command. -/
  | handleUnknown
  /-- `NVMeDriver::handle_cqe` of a command without a callback. -/
  | handleCommand (id : Nat)
  /-- `NVMeDriver::handle_cqe` of a command whose callback notifies an I/O thread. -/
  | handleRequest (id index : Nat)
deriving DecidableEq, Repr

namespace HostProcedure

/-- Programs of the host's threads. -/
abbrev Program := List (Statement HostMutex HostCondition)

/-- The wait of `wait_for_device_ready`. -/
def waitForDeviceReadyProgram (thread : HostThread) : Program :=
  [.lock (.ready thread), .await .deviceReady (.ready thread), .unlock (.ready thread)]

/-- `send_message` and `send_config` send under the socket's mutex. -/
def sendMessageProgram : Program := [.lock .sock, .unlock .sock]

/-- `setup_read_request`. -/
def setupReadRequestProgram (id : Nat) : Program :=
  [.lock .link, .clear (.readCompleted id), .unlock .link]

/-- `read_from_device`. -/
def readFromDeviceProgram (id : Nat) : Program :=
  setupReadRequestProgram id ++ sendMessageProgram ++
    [.lock (.readRequest id), .await (.readCompleted id) (.readRequest id),
      .unlock (.readRequest id), .lock .link, .unlock .link]

/-- `report` sends and waits under the link's mutex. -/
def reportProgram : Program :=
  [.lock .link, .clear .resultReady] ++ sendMessageProgram ++
    [.await .resultReady .link, .unlock .link]

/-- `setup_async_command`. -/
def setupAsyncCommandProgram (id : Nat) : Program :=
  [.lock .commands, .clear (.commandCompleted id), .unlock .commands]

/-- `remove_async_command`. -/
def removeAsyncCommandProgram : Program := [.lock .commands, .unlock .commands]

/-- `AsyncCommand::wait`. -/
def asyncCommandWaitProgram (id : Nat) : Program :=
  [.lock (.asyncCommand id), .await (.commandCompleted id) (.asyncCommand id),
    .unlock (.asyncCommand id)] ++ removeAsyncCommandProgram

/-- The critical section of `wait_for_completed_requests`, which empties the queue. -/
def waitForCompletedRequestsProgram (index : Nat) : Program :=
  [.lock (.completion index), .await (.completedRequests index) (.completion index),
    .clear (.completedRequests index), .unlock (.completion index)]

/-- `set_ready`. -/
def setReadyProgram : Program := [.set .deviceReady, .notify .deviceReady]

/-- `complete_read_request`. -/
def completeReadRequestProgram : Option Nat → Program
  | none => [.lock .link, .unlock .link]
  | some id => [.lock .link, .lock (.readRequest id), .set (.readCompleted id),
      .notify (.readCompleted id), .unlock (.readRequest id), .unlock .link]

/-- The case for `RESULT`. -/
def resultProgram (whole : Bool) : Program :=
  [.lock .link] ++ (if whole then [.set .resultReady, .notify .resultReady] else []) ++
    [.unlock .link]

/-- `notify_request_completion`. -/
def notifyRequestCompletionProgram (index : Nat) : Program :=
  [.lock (.completion index), .set (.completedRequests index), .notify (.completedRequests index),
    .unlock (.completion index)]

/-- `handle_cqe` of an unknown command. -/
def handleUnknownProgram : Program := [.lock .commands, .unlock .commands]

/-- `handle_cqe` of a command without a callback. -/
def handleCommandProgram (id : Nat) : Program :=
  [.lock .commands, .lock (.asyncCommand id), .set (.commandCompleted id),
    .notify (.commandCompleted id), .unlock (.asyncCommand id), .unlock .commands]

/-- `handle_cqe` of a command with a callback. -/
def handleRequestProgram (id index : Nat) : Program :=
  [.lock .commands, .lock (.asyncCommand id)] ++ notifyRequestCompletionProgram index ++
    [.unlock (.asyncCommand id), .unlock .commands] ++ removeAsyncCommandProgram

/-- The program of a procedure on the thread that calls it. -/
def program : HostThread → HostProcedure → Option Program
  | _, .sendMessage => some sendMessageProgram
  | .worker index, .waitForDeviceReady => some (waitForDeviceReadyProgram (.worker index))
  | .worker _, .readFromDevice id => some (readFromDeviceProgram id)
  | .worker _, .report => some reportProgram
  | .worker _, .setupAsyncCommand id => some (setupAsyncCommandProgram id)
  | .worker _, .asyncCommandWait id => some (asyncCommandWaitProgram id)
  | .worker index, .waitForCompletedRequests => some (waitForCompletedRequestsProgram index)
  | .receiver, .setReady => some setReadyProgram
  | .receiver, .completeReadRequest id => some (completeReadRequestProgram id)
  | .receiver, .result whole => some (resultProgram whole)
  | .receiver, .handleUnknown => some handleUnknownProgram
  | .receiver, .handleCommand id => some (handleCommandProgram id)
  | .receiver, .handleRequest id index => some (handleRequestProgram id index)
  | _, _ => none

/-- The machine of the host's threads. -/
def machine : Machine (Monitors HostThread HostMutex HostCondition)
    (MonitorInput HostThread HostProcedure) := Monitors.machine program

/-- The mutex under which the threads set a condition and wait for it. -/
def guard : HostCondition → Option HostMutex
  | .deviceReady => none
  | .readCompleted id => some (.readRequest id)
  | .resultReady => some .link
  | .commandCompleted id => some (.asyncCommand id)
  | .completedRequests index => some (.completion index)

/-- Every function gives back the mutexes that it takes, and all but `set_ready` set their flag under
the mutex of those who wait for it. -/
theorem disciplined (thread : HostThread) (procedure : HostProcedure) (statements : Program)
    (called : program thread procedure = some statements) : Disciplined guard statements := by
  cases procedure with
  | sendMessage =>
    cases called
    constructor <;> simp [sendMessageProgram, Owes, Obeys]
  | waitForDeviceReady | readFromDevice | report | setupAsyncCommand | asyncCommandWait
  | waitForCompletedRequests =>
    cases thread with
    | receiver => cases called
    | worker index =>
      cases called
      constructor <;>
        simp +contextual [waitForDeviceReadyProgram, readFromDeviceProgram, setupReadRequestProgram,
          sendMessageProgram, reportProgram, setupAsyncCommandProgram, asyncCommandWaitProgram,
          removeAsyncCommandProgram, waitForCompletedRequestsProgram, Owes, Obeys, guard]
  | completeReadRequest id =>
    cases thread with
    | receiver =>
      cases called
      cases id <;> constructor <;> simp +contextual [completeReadRequestProgram, Owes, Obeys, guard]
    | worker => cases called
  | result whole =>
    cases thread with
    | receiver =>
      cases called
      cases whole <;> constructor <;> simp [resultProgram, Owes, Obeys, guard]
    | worker => cases called
  | setReady | handleUnknown | handleCommand | handleRequest =>
    cases thread with
    | receiver =>
      cases called
      constructor <;>
        simp +contextual [setReadyProgram, handleUnknownProgram, handleCommandProgram, handleRequestProgram,
          notifyRequestCompletionProgram, removeAsyncCommandProgram, Owes, Obeys, guard]
    | worker => cases called

/-- A notification of `set_ready` falls between no thread's failed test of `device_ready` and its
block. -/
def ReadyTimely (before : Monitors HostThread HostMutex HostCondition)
    (input : MonitorInput HostThread HostProcedure) : Prop :=
  ∀ thread, input = .step thread → before.Announces .deviceReady thread →
    ∀ waiter, ¬ before.InWindow .deviceReady waiter

/-- Only `device_ready` has no guard. -/
theorem ReadyTimely.timely {before : Monitors HostThread HostMutex HostCondition}
    {input : MonitorInput HostThread HostProcedure} (timely : ReadyTimely before input) :
    Monitors.Timely guard before input := by
  intro thread condition stepped announces unguarded
  cases condition with
  | deviceReady => exact timely thread stepped announces
  | readCompleted | resultReady | commandCompleted | completedRequests => cases unguarded

/-- No thread blocks on a condition that holds and was announced, in any run in which `set_ready`
does not notify between a failed test of `device_ready` and the block that follows it. -/
theorem no_lost_wakeup {inputs : List (MonitorInput HostThread HostProcedure)}
    {after : Monitors HostThread HostMutex HostCondition}
    (timely : ∀ before input next, machine.Takes .idle inputs before input next →
      ReadyTimely before input)
    (ran : machine.run .idle inputs = some after) (thread : HostThread) : ¬ after.Lost thread := by
  apply Monitors.not_lost_of_timely disciplined _ ran
  intro before input next taken
  exact (timely before input next taken).timely

/-- Otherwise the wake-up is lost with the next step of the thread that has tested. -/
theorem untimely_loses {before : Monitors HostThread HostMutex HostCondition}
    {thread waiter : HostThread} (announces : before.Announces .deviceReady thread)
    (ready : before.holds .deviceReady = true) (window : before.InWindow .deviceReady waiter) :
    ∃ after, machine.run before [.step thread, .step waiter] = some after ∧ after.Lost waiter := by
  obtain ⟨rest, phase, here⟩ := announces
  obtain ⟨mutex, more, there⟩ := window
  have differ : waiter ≠ thread := by
    rintro rfl
    rw [here] at there
    cases there
  obtain ⟨notified, stepped, announced, held, still⟩ :=
    Monitors.advance_notify here there differ
  obtain ⟨after, blocked, lost⟩ := Monitors.lost_of_window still (held.trans ready) announced
  have first : machine.run before [.step thread] = some notified := by
    rw [Machine.run_cons]
    exact Option.bind_eq_some_iff.mpr ⟨notified, stepped, rfl⟩
  refine ⟨after, ?_, lost⟩
  show machine.run before ([.step thread] ++ [.step waiter]) = some after
  exact machine.run_concat.mpr ⟨notified, first, blocked⟩

/-- The device gets ready while the main thread is blocked. -/
def goodStart : List (MonitorInput HostThread HostProcedure) :=
  [.call (.worker 0) .waitForDeviceReady, .step (.worker 0), .step (.worker 0), .step (.worker 0),
    .call .receiver .setReady, .step .receiver, .step .receiver]

/-- Steps other than a notification of `set_ready` are timely. -/
theorem ReadyTimely.of_silent {before : Monitors HostThread HostMutex HostCondition}
    {input : MonitorInput HostThread HostProcedure}
    (silent : ∀ thread, input = .step thread → ¬ before.Announces .deviceReady thread) :
    ReadyTimely before input :=
  fun thread stepped announces => absurd announces (silent thread stepped)

/-- In that run `set_ready` notifies while the main thread is blocked. -/
theorem ready_timely (before : Monitors HostThread HostMutex HostCondition)
    (input : MonitorInput HostThread HostProcedure)
    (next : Monitors HostThread HostMutex HostCondition)
    (taken : machine.Takes .idle goodStart before input next) : ReadyTimely before input := by
  revert before input next
  iterate 6
    refine Machine.forall_takes_cons.mpr fun next stepped => ?_
    cases stepped
    refine ⟨?_, ?_⟩
    · apply ReadyTimely.of_silent
      rintro thread stepped ⟨rest, phase, here⟩
      cases stepped <;> cases here
  refine Machine.forall_takes_cons.mpr fun next stepped => ?_
  cases stepped
  refine ⟨?_, ?_⟩
  · rintro thread - - waiter ⟨mutex, rest, there⟩
    have main : waiter ≠ .worker 0 := by
      rintro rfl
      cases there
    have receiving : waiter ≠ .receiver := by
      rintro rfl
      cases there
    simp [Monitors.assign, Monitors.own, Monitors.idle, main, receiving] at there
  intro before input next taken
  exact absurd taken Machine.not_takes_nil

/-- No wake-up is lost when the device gets ready while the main thread is blocked. -/
theorem no_lost_wakeup_blocked : ∃ after, machine.run .idle goodStart = some after ∧
    ∀ thread, ¬ after.Lost thread :=
  ⟨_, rfl, no_lost_wakeup ready_timely rfl⟩

/-- The device gets ready between the failed test of the main thread and its block. -/
def badStart : List (MonitorInput HostThread HostProcedure) :=
  [.call (.worker 0) .waitForDeviceReady, .step (.worker 0), .step (.worker 0),
    .call .receiver .setReady, .step .receiver, .step .receiver, .step (.worker 0)]

/-- The main thread blocks for good on `device_ready`. -/
theorem ready_lost : ¬ ∀ inputs after, machine.run .idle inputs = some after →
    ∀ thread, ¬ after.Lost thread := by
  intro never
  exact never badStart _ rfl (.worker 0) ⟨.deviceReady, ⟨_, _, rfl⟩, rfl, rfl⟩

end HostProcedure

end McmqHost
