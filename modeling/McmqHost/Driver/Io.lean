import McmqHost.Driver.Prp
import McmqHost.IoThread.Thread

/-!
# The driver behind an I/O thread

A read or write request becomes one command on the thread's queue, with list pages that
the driver keeps until it has handled the completion. Beside the driver stands the part of
the device that a queue can tell: the head up to which it has fetched commands. The command
table, which pairs completions with callbacks, is left to another model: here a device that
has fetched a command may complete any request whose callback the driver holds.
-/

namespace McmqHost

/-- `nvme_rw_command` without the fields that stay zero. -/
structure RwCommand where
  /-- Kind of command. -/
  opcode : Nat
  /-- Identifier that the completion will carry. -/
  commandId : Nat
  /-- Namespace. -/
  nsid : Nat
  /-- First region of the data. -/
  prp1 : Nat
  /-- Second region, or list page. -/
  prp2 : Nat
  /-- First block. -/
  slba : Nat
  /-- Number of blocks, less one. -/
  length : Nat
deriving DecidableEq, Repr

/-- `nvme_cmd_write` and `nvme_cmd_read`. -/
def rwOpcode (doWrite : Bool) : Nat := if doWrite then 1 else 2

/-- The 64 bytes of a command. -/
def RwCommand.bytes (cmd : RwCommand) : List UInt8 :=
  leBytes 1 cmd.opcode ++ leBytes 1 0 ++ leBytes 2 cmd.commandId ++ leBytes 4 cmd.nsid ++
    leBytes 16 0 ++ leBytes 8 cmd.prp1 ++ leBytes 8 cmd.prp2 ++ leBytes 8 cmd.slba ++
    leBytes 2 cmd.length ++ leBytes 14 0

/-- The list pages of a command whose `AsyncCommand` exists. -/
structure CommandPages where
  /-- The request whose command it is. -/
  serial : Nat
  /-- `prp_lists`. -/
  prpLists : List Address
  /-- The callback was called, and the command is about to be removed. -/
  called : Bool
deriving DecidableEq, Repr

/-- The driver, with one I/O queue and the device behind it. -/
structure Driver where
  /-- The memory space, the queue and the link. -/
  port : QueuePort
  /-- `command_id_counter`. -/
  commandIdCounter : Nat
  /-- Commands set up and not yet removed. -/
  commands : List CommandPages
  /-- The device's head in the submission queue. -/
  sqHead : Nat
  /-- Slots of the commands that the device has not fetched, oldest first. -/
  unfetched : List Nat
  /-- Number of commands fetched. -/
  fetched : Nat
  /-- Number of requests completed. -/
  completed : Nat
  /-- Some submission wrote the slot of an unfetched command, or announced the device's own head,
  which says that the queue is empty. -/
  overrun : Bool

/-- What the device or the interrupt handler does besides completing a request. -/
inductive DriverEvent
  /-- The device fetches the command at its head. -/
  | fetch
  /-- The handler removes a command whose callback was called. -/
  | release (index : Nat)

namespace Driver

/-- A driver whose queue has just been initialised; register writes count from there on. -/
def create (port : QueuePort) (commandIdCounter : Nat) : Driver where
  port := { port with writes := [] }
  commandIdCounter := commandIdCounter
  commands := []
  sqHead := 0
  unfetched := []
  fetched := 0
  completed := 0
  overrun := false

/-- The call of `setup_buffer` in `submit_async_command`, made unless the length is zero. -/
def describe (space : MemorySpace) (req : IORequest) : Except Fault Prps :=
  if req.size ≠ 0 then Prps.setupBuffer space req.buf req.size else pure ⟨space, 0, 0, []⟩

/-- The command that `submit_rw_command` builds. -/
def rwCommand (doWrite : Bool) (req : IORequest) (id : Nat) (prps : Prps) : RwCommand where
  opcode := rwOpcode doWrite
  commandId := id
  nsid := req.nsid
  prp1 := prps.prp1
  prp2 := prps.prp2
  slba := (req.pos / 2 ^ 12 % 2 ^ 64).toNat
  length := u16 (u64 (req.size / 2 ^ 12 + (2 ^ 64 - 1)))

/-- The driver after a command was written and announced; an overrun is noted. -/
def record (driver : Driver) (port : QueuePort) (req : IORequest) (prps : Prps) : Driver :=
  let nvmeq := driver.port.nvmeq
  { driver with
    port := port
    commandIdCounter := u16 (driver.commandIdCounter + 1)
    commands := driver.commands ++ [⟨req.serial, prps.prpLists, false⟩]
    unfetched := driver.unfetched ++ [nvmeq.sqTail]
    overrun := driver.overrun || driver.unfetched.contains nvmeq.sqTail ||
      port.nvmeq.sqTail == driver.sqHead }

/-- `NVMeDriver::submit_rw_command`. -/
def submitRwCommand (doWrite : Bool) (driver : Driver) (req : IORequest) : Except Fault Driver := do
  let prps ← describe driver.port.space req
  let cmd := rwCommand doWrite req driver.commandIdCounter prps
  let port ← { driver.port with space := prps.space }.submitSqCommand cmd.bytes true
  pure (driver.record port req prps)

/-- The tail in the doorbell: the last value written to the register, or the last tail that was
announced through the shadow doorbell. -/
def tailDoorbell (driver : Driver) : Nat :=
  if driver.port.nvmeq.dbbufSqDb = 0 then
    ((driver.port.writes.filter fun write => write.1 = driver.port.nvmeq.qDb).getLast?.map
      (·.2)).getD 0
  else driver.port.nvmeq.lastSqTail

/-- The device fetches the command at its head, unless the doorbell says that there is none. -/
def fetch (driver : Driver) : Option Driver :=
  if driver.sqHead = driver.tailDoorbell then none
  else some { driver with
    sqHead := (driver.sqHead + 1) % driver.port.nvmeq.depth
    unfetched := driver.unfetched.erase driver.sqHead
    fetched := driver.fetched + 1 }

/-- Assign the hole table. -/
def setTable (driver : Driver) (table : HoleTable) : Driver :=
  { driver with port := { driver.port with space := { driver.port.space with table := table } } }

/-- `remove_async_command` after a callback. -/
def release (driver : Driver) (index : Nat) : Option Driver :=
  match driver.commands[index]? with
  | none => none
  | some command =>
    if command.called then
      match Prps.freePrpLists driver.port.space.table command.prpLists with
      | .error _ => none
      | .ok table =>
        some { driver.setTable table with commands := driver.commands.eraseIdx index }
    else none

/-- The callback of a request is called, for one of the commands that the device fetched. -/
def complete (driver : Driver) (req : IORequest) : Option Driver :=
  if driver.completed < driver.fetched then
    some { driver with
      completed := driver.completed + 1
      commands := driver.commands.map fun command =>
        if command.serial = req.serial then { command with called := true } else command }
  else none

/-- The driver and its memory space as the backend of a thread. -/
def backend : Backend Driver DriverEvent where
  allocatePages driver len := do
    let (address, space) ← driver.port.space.allocatePages len
    pure (address, { driver with port := { driver.port with space := space } })
  free driver addr len := do
    let table ← driver.port.space.table.free addr len
    pure (driver.setTable table)
  readAsync := submitRwCommand false
  writeAsync := submitRwCommand true
  complete := complete
  evolve driver
    | .fetch => driver.fetch
    | .release index => driver.release index

/-- What `submit_rw_command` does when it returns. -/
theorem submitRwCommand_ok {doWrite : Bool} {driver after : Driver} {req : IORequest}
    (ok : driver.submitRwCommand doWrite req = .ok after) :
    ∃ prps port, describe driver.port.space req = .ok prps ∧
      ({ driver.port with space := prps.space } : QueuePort).submitSqCommand
        (rwCommand doWrite req driver.commandIdCounter prps).bytes true = .ok port ∧
      after = driver.record port req prps := by
  obtain ⟨prps, described, ok⟩ := bind_ok.mp ok
  obtain ⟨port, submitted, ok⟩ := bind_ok.mp ok
  exact ⟨prps, port, described, submitted, (Except.ok.inj ok).symm⟩

/-- Reads and writes are both a command of the queue. -/
theorem rwAsync_ok {driver after : Driver} {req : IORequest}
    (ok : backend.rwAsync driver req = .ok after) :
    ∃ doWrite, driver.submitRwCommand doWrite req = .ok after := by
  unfold Backend.rwAsync at ok
  split at ok
  · exact ⟨true, ok⟩
  · exact ⟨false, ok⟩

end Driver

end McmqHost
