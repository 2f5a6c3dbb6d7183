import Mathlib.Logic.Function.Basic
import McmqHost.Base.Machine
import McmqHost.Driver.Prp

/-!
# Asynchronous commands

A command lives in `command_map` from `setup_async_command` until it is removed: by the
interrupt handler once it called the command's callback, else by the thread that waited for
it. The threads, the handler and the device below interleave in any way. Each step of the
machine is a critical section of the driver, one call of the memory space, or a step of the
device.
-/

namespace McmqHost

/-- The fields of an `NVMeCompletion` that `handle_cqe` uses. -/
structure Cqe where
  /-- The command that completed. -/
  commandId : Nat
  /-- The status field, with the phase as its lowest bit. -/
  status : Nat
  /-- The result. -/
  result : Nat
deriving DecidableEq, Repr

/-- `NVMeDriver::AsyncCommand`, named by the call of `setup_async_command` that made it. -/
structure AsyncCommand where
  /-- Which `std::make_unique<AsyncCommand>()` this is. -/
  serial : Nat
  /-- `id`. -/
  id : Nat
  /-- `status`. -/
  status : Nat
  /-- `result`. -/
  result : Nat
  /-- `completed`. -/
  completed : Bool
  /-- `callback`: the submission that passed it, unless it is empty. -/
  callback : Option Nat
  /-- `prp_lists`. -/
  prpLists : List Address
deriving DecidableEq, Repr

/-- `std::make_unique<AsyncCommand>()`. -/
def AsyncCommand.make (serial : Nat) : AsyncCommand := ⟨serial, 0, 0, 0, false, none, []⟩

/-- The status and result of `AsyncCommand::wait`, when it need not block. -/
def AsyncCommand.wait (cmd : AsyncCommand) : Option (Nat × Nat) :=
  if cmd.completed then some (cmd.status, cmd.result) else none

/-- The members of `NVMeDriver` that `command_mutex` guards. -/
structure CommandTable where
  /-- `command_id_counter`. -/
  commandIdCounter : Nat
  /-- `command_map`. -/
  commandMap : Nat → Option AsyncCommand

namespace CommandTable

/-- `NVMeDriver::setup_async_command`; `emplace` keeps an entry that the map already has. -/
def setupAsyncCommand (table : CommandTable) (serial : Nat) (callback : Option Nat) :
    AsyncCommand × CommandTable :=
  let id := table.commandIdCounter
  let entry := (table.commandMap id).getD (.make serial)
  let cmd := { entry with id := id, completed := false, callback := callback }
  (cmd, ⟨u16 (id + 1), Function.update table.commandMap id (some cmd)⟩)

/-- `NVMeDriver::remove_async_command`, without the destructor. -/
def removeAsyncCommand (table : CommandTable) (commandId : Nat) : CommandTable :=
  { table with commandMap := Function.update table.commandMap commandId none }

/-- The critical section of `NVMeDriver::handle_cqe`, with the callback that it calls. -/
def handleCqe (table : CommandTable) (cqe : Cqe) : CommandTable × Option Nat :=
  match table.commandMap cqe.commandId with
  | none => (table, none)
  | some cmd =>
    match cmd.callback with
    | some callback => (table, some callback)
    | none =>
      let done := { cmd with status := cqe.status >>> 1, result := cqe.result, completed := true }
      ({ table with commandMap := Function.update table.commandMap cqe.commandId (some done) }, none)

end CommandTable

/-- Where the submitting thread stands. -/
inductive Program
  /-- It builds the command. -/
  | building
  /-- It has submitted the command, and waits unless there is a callback. -/
  | waiting
  /-- `wait` has read the result and has still to remove the command. -/
  | returned
  /-- It has removed the command. -/
  | finished
deriving DecidableEq, Repr

/-- Where the completion of a command stands. -/
inductive Completion
  /-- The device has not posted it. -/
  | absent
  /-- It is posted. -/
  | posted (status result : Nat)
  /-- `handle_cqe` has run its critical section and knows `release_cmd`. -/
  | handled (status result : Nat) (releaseCmd : Bool)
  /-- `handle_cqe` has removed the command. -/
  | released (status result : Nat)
deriving DecidableEq, Repr

/-- One call of `setup_async_command` and what became of it. -/
structure Submission where
  /-- The `AsyncCommand` that the call returned. -/
  serial : Nat
  /-- The id that the call gave it. -/
  id : Nat
  /-- The callback is not empty. -/
  callback : Bool
  /-- The thread. -/
  program : Program
  /-- The completion. -/
  completion : Completion
  /-- Every list page allocated for the command so far. -/
  pages : List Address
  /-- List pages that the destructor of the command has still to free. -/
  leaving : List Address
  /-- List pages that it freed. -/
  freed : List Address
  /-- Status and result of each call of the callback. -/
  calls : List (Nat × Nat)
  /-- Status and result of each return of `wait`. -/
  returns : List (Nat × Nat)
deriving DecidableEq, Repr

/-- The command table, the allocator, and all that happened to each submission. -/
structure Commands where
  /-- The table. -/
  table : CommandTable
  /-- The allocator of the memory space. -/
  memory : HoleTable
  /-- Submissions, in order of `setup_async_command`. -/
  submissions : List Submission
  /-- Buffers of the threads, which use the same memory space. -/
  buffers : List Extent
  /-- Every buffer given back so far. -/
  givenBack : List Extent

/-- Steps of the threads, the interrupt handler and the device; a number names a submission. -/
inductive CommandInput
  /-- `setup_async_command`. -/
  | setup (callback : Bool)
  /-- `setup_buffer` takes one list page. -/
  | takePage (index : Nat)
  /-- `submit_sq_command`. -/
  | submit (index : Nat)
  /-- The device posts the completion of a submitted command. -/
  | post (index status result : Nat)
  /-- `handle_cqe` of an entry whose id is not in the table. -/
  | stray (cqe : Cqe)
  /-- `handle_cqe` of the completion, up to the end of its critical section. -/
  | handle (index : Nat)
  /-- `handle_cqe` removes the command after its callback. -/
  | release (index : Nat)
  /-- `wait` finds the command completed and reads its result. -/
  | wait (index : Nat)
  /-- `wait` removes the command. -/
  | remove (index : Nat)
  /-- The destructor of the command frees one list page. -/
  | freePage (index : Nat)
  /-- A thread takes a buffer. -/
  | borrow (size : Nat)
  /-- A thread gives a buffer back. -/
  | giveBack (index : Nat)
deriving DecidableEq, Repr

/-- A command is outstanding until it is removed. -/
def Submission.outstanding (submission : Submission) : Bool :=
  match submission.program, submission.completion with
  | .finished, _ => false
  | _, .released _ _ => false
  | _, _ => true

namespace Commands

/-- The driver at its start; `command_id_counter` is not initialised. -/
def create (counter : Nat) (memory : HoleTable) : Commands where
  table := ⟨u16 counter, fun _ => none⟩
  memory := memory
  submissions := []
  buffers := []
  givenBack := []

/-- The command behind a pointer, while it exists. -/
def deref (flow : Commands) (submission : Submission) : Option AsyncCommand :=
  (flow.table.commandMap submission.id).filter fun cmd => cmd.serial = submission.serial

/-- Note something about a submission. -/
def note (flow : Commands) (index : Nat) (change : Submission → Submission) : Commands :=
  { flow with submissions := flow.submissions.modify index change }

/-- A new submission. -/
def setup (flow : Commands) (callback : Bool) : Commands :=
  let serial := flow.submissions.length
  let (cmd, table) := flow.table.setupAsyncCommand serial (if callback then some serial else none)
  { flow with
    table := table
    submissions := flow.submissions ++
      [⟨cmd.serial, cmd.id, callback, .building, .absent, [], [], [], [], []⟩] }

/-- `acmd->prp_lists.push_back`. -/
def pushPage (flow : Commands) (index id : Nat) (cmd : AsyncCommand) (page : Address)
    (memory : HoleTable) : Commands :=
  let grown := { cmd with prpLists := cmd.prpLists ++ [page] }
  { flow with
    table := { flow.table with
      commandMap := Function.update flow.table.commandMap id (some grown) }
    memory := memory }.note index fun submission =>
      { submission with pages := submission.pages ++ [page] }

/-- `handle_cqe` of an entry, with the value of `release_cmd`. -/
def deliver (flow : Commands) (cqe : Cqe) : Commands × Bool :=
  match flow.table.handleCqe cqe with
  | (table, none) => ({ flow with table := table }, false)
  | (table, some callback) =>
    ({ flow with table := table }.note callback fun submission =>
      { submission with calls := submission.calls ++ [(cqe.status >>> 1, cqe.result)] }, true)

/-- `remove_async_command`, after which the destructor has the list pages to free. -/
def removeCommand (flow : Commands) (commandId : Nat) : Commands :=
  match flow.table.commandMap commandId with
  | none => flow
  | some cmd => { flow with table := flow.table.removeAsyncCommand commandId }.note cmd.serial
      fun submission => { submission with leaving := cmd.prpLists }

/-- A step for one submission. -/
def stepAt (flow : Commands) (index : Nat) (submission : Submission) :
    CommandInput → Option Commands
  | .takePage _ =>
    match submission.program, flow.deref submission, flow.memory.allocatePages ctrlPageSize with
    | .building, some cmd, .ok (page, memory) => 
      some (flow.pushPage index submission.id cmd page memory)
    | _, _, _ => none
  | .submit _ =>
    match submission.program with
    | .building => some (flow.note index fun submission => { submission with program := .waiting })
    | _ => none
  | .post _ status result =>
    match submission.program, submission.completion with
    | .building, _ => none
    | _, .absent => some (flow.note index fun submission =>
        { submission with completion := .posted status result })
    | _, _ => none
  | .handle _ =>
    match submission.completion with
    | .posted status result =>
      let (after, releaseCmd) := flow.deliver ⟨submission.id, status, result⟩
      some (after.note index fun submission =>
        { submission with completion := .handled status result releaseCmd })
    | _ => none
  | .release _ =>
    match submission.completion with
    | .handled status result true => some ((flow.removeCommand submission.id).note index
        fun submission => { submission with completion := .released status result })
    | _ => none
  | .wait _ =>
    match submission.program, (flow.deref submission).bind AsyncCommand.wait with
    | .waiting, some outcome => some (flow.note index fun submission =>
        { submission with program := .returned, returns := submission.returns ++ [outcome] })
    | _, _ => none
  | .remove _ =>
    match submission.program, flow.deref submission with
    | .returned, some cmd => some ((flow.removeCommand cmd.id).note index
        fun submission => { submission with program := .finished })
    | _, _ => none
  | .freePage _ =>
    match submission.leaving with
    | [] => none
    | page :: rest =>
      match flow.memory.free page 0x1000 with
      | .error _ => none
      | .ok memory => some ({ flow with memory := memory }.note index fun submission =>
          { submission with leaving := rest, freed := submission.freed ++ [page] })
  | _ => none

/-- One step of the threads, the handler or the device. -/
def step (flow : Commands) (input : CommandInput) : Option Commands :=
  match input with
  | .setup callback => some (flow.setup callback)
  | .stray cqe =>
    if flow.table.commandMap cqe.commandId = none then some (flow.deliver cqe).1 else none
  | .borrow size =>
    if Rounds size then
      match flow.memory.allocatePages size with
      | .error _ => none
      | .ok (address, memory) =>
        some { flow with memory := memory, buffers := ⟨address, size⟩ :: flow.buffers }
    else none
  | .giveBack index =>
    match flow.buffers[index]? with
    | none => none
    | some buffer =>
      match flow.memory.free buffer.base buffer.len with
      | .error _ => none
      | .ok memory => some { flow with
          memory := memory
          buffers := flow.buffers.eraseIdx index
          givenBack := buffer :: flow.givenBack }
  | .takePage index | .submit index | .post index _ _ | .handle index | .release index
  | .wait index | .remove index | .freePage index =>
    match flow.submissions[index]? with
    | none => none
    | some submission => flow.stepAt index submission input

/-- The machine of the threads, the handler and the device. -/
def machine : Machine Commands CommandInput where
  step := step

end Commands

end McmqHost
