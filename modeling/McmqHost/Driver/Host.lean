import McmqHost.Base.Effect
import McmqHost.Driver.Command

/-!
# The whole driver

An `NVMeDriver` with all its queues, as an effect on its members, the memory space and the link, so
that what it leaves behind when it throws is there to be looked at. The script says what the device
and the socket do. Beside the members stand records that the code does not keep: the live blocks of
device memory and what each is for, every store with the blocks that were live then, the commands put
on the rings and the answers to the synchronous ones.
-/

namespace McmqHost

/-- How an operation of the driver ends when it does not return. -/
inductive Halt
  /-- By an exception or the end of the program. -/
  | fault (fault : Fault)
  /-- It waits for what does not come. -/
  | waits
deriving DecidableEq, Repr

/-- An exception that reaches the end of a destructor or a thread's function ends the program. -/
def Halt.terminate : Halt → Halt
  | .fault .memoryNotAvailable => .fault .abort
  | .fault .runtimeError => .fault .abort
  | other => other

/-- What a block of device memory is for. -/
inductive Purpose
  /-- The shadow doorbells. -/
  | doorbells
  /-- The submission queue at an index. -/
  | submissionQueue (index : Nat)
  /-- The completion queue at an index. -/
  | completionQueue (index : Nat)
  /-- The PRP lists of a command, by its serial number. -/
  | prpList (serial : Nat)
  /-- Data of a caller. -/
  | buffer
deriving DecidableEq, Repr

/-- A live block. -/
structure Block where
  /-- What it is for. -/
  purpose : Purpose
  /-- Where it is. -/
  extent : Extent
deriving DecidableEq, Repr

/-- A `write` or `memset` of the driver. -/
structure Store where
  /-- What it writes. -/
  purpose : Purpose
  /-- Where it writes. -/
  extent : Extent
  /-- The blocks that are live then. -/
  live : List Block
deriving DecidableEq, Repr

/-- `nvme_command` without the fields that stay zero. -/
structure NVMeCommand where
  /-- Kind of command. -/
  opcode : Nat
  /-- Identifier that the completion will carry. -/
  commandId : Nat
  /-- Namespace. -/
  nsid : Nat
  /-- First region of the data, or the address of a queue. -/
  prp1 : Nat
  /-- Second region, or list page. -/
  prp2 : Nat
  /-- `cdw10`. -/
  cdw10 : Nat
  /-- `cdw11`. -/
  cdw11 : Nat
  /-- `cdw12`. -/
  cdw12 : Nat
deriving DecidableEq, Repr

/-- `memset` of a command, and its opcode. -/
def NVMeCommand.blank (opcode : Nat) : NVMeCommand := ⟨opcode, 0, 0, 0, 0, 0, 0, 0⟩

/-- The 64 bytes of a command. -/
def NVMeCommand.bytes (cmd : NVMeCommand) : List UInt8 :=
  leBytes 1 cmd.opcode ++ leBytes 1 0 ++ leBytes 2 cmd.commandId ++ leBytes 4 cmd.nsid ++
    leBytes 16 0 ++ leBytes 8 cmd.prp1 ++ leBytes 8 cmd.prp2 ++ leBytes 4 cmd.cdw10 ++
    leBytes 4 cmd.cdw11 ++ leBytes 4 cmd.cdw12 ++ leBytes 12 0

/-- The device's answer to a synchronous command. -/
structure Reply where
  /-- The status without the phase. -/
  status : Nat
  /-- The result. -/
  result : Nat
deriving DecidableEq, Repr

/-- What the device and the socket do when they are asked next. -/
structure Script where
  /-- Whether the socket takes each of the next messages; it takes those behind them. -/
  sends : List Bool
  /-- The device becomes ready. -/
  ready : Bool
  /-- `NVME_REG_CAP`. -/
  cap : Nat
  /-- What the next reads of `NVME_REG_CSTS` return. -/
  csts : List Nat
  /-- The answers to the next synchronous commands. -/
  replies : List Reply
deriving DecidableEq, Repr

/-- `NVMeDriver`. -/
structure NVMeDriver where
  /-- `ncpus`. -/
  ncpus : Nat
  /-- `io_queue_depth`. -/
  ioQueueDepth : Nat
  /-- `memory_space`. -/
  space : MemorySpace
  /-- `queues`. -/
  queues : List NVMeQueue
  /-- `queue_count`. -/
  queueCount : Nat
  /-- `online_queues`. -/
  onlineQueues : Nat
  /-- `command_id_counter` and `command_map`. -/
  commands : CommandTable
  /-- `ctrl_cap`. -/
  ctrlCap : Nat
  /-- `ctrl_config`. -/
  ctrlConfig : Nat
  /-- `queue_depth`. -/
  queueDepth : Int
  /-- `db_stride`. -/
  dbStride : Nat
  /-- `dbbuf_dbs`. -/
  dbbufDbs : Address
  /-- The device and the socket. -/
  script : Script
  /-- Register writes on the link, in order. -/
  writes : List (Nat × Nat)
  /-- Number of calls of `setup_async_command`. -/
  made : Nat
  /-- Live blocks, latest first. -/
  blocks : List Block
  /-- Every store, in order. -/
  stores : List Store
  /-- Every command put on a ring, in order, with the index of its queue. -/
  submitted : List (Nat × NVMeCommand)
  /-- Every synchronous command that was answered, in order. -/
  answered : List (NVMeCommand × Reply)
  /-- Every index that `init_queue` was called with and returned for. -/
  initialised : List Nat

/-- An operation of the driver. -/
abbrev Drive (Value : Type) : Type := Effect NVMeDriver Halt Value

namespace NVMeDriver

/-- The members before the constructor's body; those that it does not set are arbitrary. -/
def blank (ncpus ioQueueDepth : Nat) (space : MemorySpace) (commandIdCounter ctrlConfig : Nat)
    (script : Script) : NVMeDriver where
  ncpus := ncpus
  ioQueueDepth := ioQueueDepth
  space := space
  queues := []
  queueCount := 0
  onlineQueues := 0
  commands := ⟨u16 commandIdCounter, fun _ => none⟩
  ctrlCap := 0
  ctrlConfig := ctrlConfig
  queueDepth := 0
  dbStride := 0
  dbbufDbs := 0
  script := script
  writes := []
  made := 0
  blocks := []
  stores := []
  submitted := []
  answered := []
  initialised := []

/-! ## Memory -/

/-- A call of the memory space; when it throws, nothing has changed. -/
def call {Value : Type} (change : NVMeDriver → Except Fault (Value × NVMeDriver)) : Drive Value :=
  Effect.attempt fun driver => (change driver).mapError .fault

/-- The driver after an allocation. -/
def take (driver : NVMeDriver) (space : MemorySpace) (block : Block) : NVMeDriver :=
  { driver with space := space, blocks := block :: driver.blocks }

/-- `memory_space->allocate`. -/
def allocate (purpose : Purpose) (len align : Nat) : Drive Address :=
  call fun driver => do
    let (address, space) ← driver.space.allocate len align
    pure (address, driver.take space ⟨purpose, ⟨address, len⟩⟩)

/-- `memory_space->allocate_pages`. -/
def allocatePages (purpose : Purpose) (len : Nat) : Drive Address :=
  allocate purpose (HoleTable.roundupPage len) 0x1000

/-- `memory_space->free` of bytes at the start of a block, which ends with it. -/
def free (block : Block) (len : Nat) : Drive Unit :=
  call fun driver => do
    let space ← driver.space.free block.extent.base len
    pure ((), { driver with space := space, blocks := driver.blocks.erase block })

/-- The driver after a store. -/
def stored (driver : NVMeDriver) (space : MemorySpace) (purpose : Purpose) (extent : Extent) :
    NVMeDriver :=
  { driver with space := space, stores := driver.stores ++ [⟨purpose, extent, driver.blocks⟩] }

/-- `memory_space->write`. -/
def write (purpose : Purpose) (addr : Nat) (bytes : List UInt8) : Drive Unit :=
  call fun driver => do
    let space ← driver.space.write addr bytes
    pure ((), driver.stored space purpose ⟨addr, bytes.length⟩)

/-- `memory_space->memset`. -/
def memset (purpose : Purpose) (addr : Nat) (c : UInt8) (len : Nat) : Drive Unit :=
  call fun driver => do
    let space ← driver.space.memset addr c len
    pure ((), driver.stored space purpose ⟨addr, len⟩)

/-- `memory_space->read`. -/
def readMemory (addr len : Nat) : Drive (List UInt8) :=
  call fun driver => do
    let bytes ← driver.space.read addr len
    pure (bytes, driver)

/-! ## The link -/

/-- A message to the device; the link throws when the socket does not take it. -/
def sendMessage : Drive Unit := fun driver =>
  let rest := { driver with script := { driver.script with sends := driver.script.sends.tail } }
  if driver.script.sends.headD true then (.ok (), rest) else (.error (.fault .runtimeError), rest)

/-- `link->writel` and `link->writeq`. -/
def writeRegister (addr value : Nat) : Drive Unit := do
  sendMessage
  Effect.modify fun driver => { driver with writes := driver.writes ++ [(addr, value)] }

/-- `link->readq` of `NVME_REG_CAP`. -/
def readCap : Drive Nat := do
  sendMessage
  Effect.read fun driver => driver.script.cap

/-- `link->readl` of `NVME_REG_CSTS`. -/
def readCsts : Drive Nat := do
  sendMessage
  Effect.attempt fun driver =>
    match driver.script.csts with
    | [] => .error .waits
    | csts :: rest => .ok (csts, { driver with script := { driver.script with csts := rest } })

/-! ## Queues and commands -/

/-- `queues[index]`. -/
def queue (index : Nat) : Drive NVMeQueue :=
  Effect.attempt fun driver =>
    match driver.queues[index]? with
    | none => .error (.fault .nullPointer)
    | some nvmeq => .ok (nvmeq, driver)

/-- Assign members of `queues[index]`. -/
def updateQueue (index : Nat) (change : NVMeQueue → NVMeQueue) : Drive Unit :=
  Effect.modify fun driver => { driver with queues := driver.queues.modify index change }

/-- `NVMeDriver::setup_async_command`. -/
def setupAsyncCommand (callback : Bool) : Drive AsyncCommand :=
  Effect.attempt fun driver =>
    let (cmd, commands) := driver.commands.setupAsyncCommand driver.made
      (if callback then some driver.made else none)
    .ok (cmd, { driver with commands := commands, made := driver.made + 1 })

/-- `acmd->prp_lists.push_back`. -/
def pushPrpList (id : Nat) (page : Address) : Drive Unit :=
  Effect.modify fun driver => { driver with
    commands := { driver.commands with
      commandMap := Function.update driver.commands.commandMap id
        ((driver.commands.commandMap id).map fun cmd =>
          { cmd with prpLists := cmd.prpLists ++ [page] }) } }

/-- Nothing is thrown out of a destructor or a thread's function. -/
def noexcept {Value : Type} (drive : Drive Value) : Drive Value :=
  Effect.mapError Halt.terminate drive

/-- The loop of `~AsyncCommand`. -/
def freePrpLists (serial : Nat) : List Address → Drive Unit
  | [] => pure ()
  | prp :: rest => do
    free ⟨.prpList serial, ⟨prp, 0x1000⟩⟩ 0x1000
    freePrpLists serial rest

/-- `NVMeDriver::remove_async_command`, with the destructor of the command. -/
def removeAsyncCommand (id : Nat) : Drive Unit := do
  let entry ← Effect.read fun driver => driver.commands.commandMap id
  Effect.modify fun driver => { driver with commands := driver.commands.removeAsyncCommand id }
  match entry with
  | none => pure ()
  | some cmd => noexcept (freePrpLists cmd.serial cmd.prpLists)

/-- The head of the loop of `NVMeDriver::setup_buffer`. -/
def currentList (acmd : AsyncCommand) (prpList i : Nat) : Drive Address :=
  if i = ctrlPageSize >>> 3 then do
    let next ← allocatePages (.prpList acmd.serial) ctrlPageSize
    pushPrpList acmd.id next
    let lastEntry ← readMemory (u32 (prpList + (i - 1) * 8)) 8
    write (.prpList acmd.serial) next lastEntry
    write (.prpList acmd.serial) (u32 (prpList + (i - 1) * 8)) (leBytes 8 next)
    pure next
  else pure prpList

/-- The loop of `NVMeDriver::setup_buffer`; the first number bounds the entries still to write. -/
def fill (acmd : AsyncCommand) : Nat → Nat → Nat → Nat → Nat → Drive Unit
  | 0, _, _, _, _ => Effect.fail .waits
  | fuel + 1, prpList, i, buf, buflen => do
    let current ← currentList acmd prpList i
    write (.prpList acmd.serial) (u32 (current + i * 8)) (leBytes 8 buf)
    if buflen ≤ ctrlPageSize then pure ()
    else fill acmd fuel current (i + 1) (u32 (buf + ctrlPageSize)) (buflen - ctrlPageSize)

/-- A buffer that needs a PRP list. -/
def NeedsList (buf buflen : Nat) : Prop := ctrlPageSize * 2 < u64 (buf % ctrlPageSize + buflen)

instance (buf buflen : Nat) : Decidable (NeedsList buf buflen) :=
  inferInstanceAs (Decidable (_ < _))

/-- `NVMeDriver::setup_buffer`. -/
def setupBuffer (acmd : AsyncCommand) (cmd : NVMeCommand) (buf buflen : Nat) : Drive NVMeCommand :=
  let firstPrpLen := ctrlPageSize - buf % ctrlPageSize
  if NeedsList buf buflen then do
    let prpList ← allocatePages (.prpList acmd.serial) ctrlPageSize
    pushPrpList acmd.id prpList
    let rest := buflen - firstPrpLen
    fill acmd (rest / ctrlPageSize + 1) prpList 0 (u32 (buf + firstPrpLen)) rest
    pure { cmd with prp1 := buf, prp2 := prpList }
  else pure { cmd with
    prp1 := buf
    prp2 := if firstPrpLen < buflen then u32 (buf + firstPrpLen) else cmd.prp2 }

/-- Announce a position through the shadow doorbell, when there is one, or the register. -/
def ringDoorbell (shadow register value : Nat) : Drive Unit :=
  if shadow ≠ 0 then write .doorbells shadow (leBytes 4 value) else writeRegister register value

/-- `NVMeDriver::write_sq_doorbell`. -/
def writeSqDoorbell (index : Nat) (writeSq : Bool) : Drive Unit := do
  let nvmeq ← queue index
  if !writeSq && nvmeq.nextTail != nvmeq.lastSqTail then pure ()
  else do
    ringDoorbell nvmeq.dbbufSqDb nvmeq.qDb nvmeq.sqTail
    updateQueue index fun nvmeq => { nvmeq with lastSqTail := nvmeq.sqTail }

/-- `NVMeDriver::ring_cq_doorbell`. -/
def ringCqDoorbell (index : Nat) : Drive Unit := do
  let nvmeq ← queue index
  let dbStride ← Effect.read NVMeDriver.dbStride
  ringDoorbell nvmeq.dbbufCqDb (u32 (nvmeq.qDb + 4 * dbStride)) nvmeq.cqHead

/-- `NVMeDriver::submit_sq_command`. -/
def submitSqCommand (index : Nat) (cmd : NVMeCommand) (writeSq : Bool) : Drive Unit := do
  let nvmeq ← queue index
  write (.submissionQueue index) (u32 (nvmeq.sqDmaAddr + nvmeq.sqTail <<< nvmeq.sqeShift)) cmd.bytes
  Effect.modify fun driver => { driver with submitted := driver.submitted ++ [(index, cmd)] }
  updateQueue index fun nvmeq => { nvmeq with sqTail := nvmeq.nextTail }
  writeSqDoorbell index writeSq

/-- The call of `setup_buffer` in a submission, made unless the length is zero. -/
def describe (acmd : AsyncCommand) (cmd : NVMeCommand) (buf buflen : Nat) : Drive NVMeCommand :=
  if buflen ≠ 0 then setupBuffer acmd cmd buf buflen else pure cmd

/-- `NVMeDriver::submit_async_command`. -/
def submitAsyncCommand (index : Nat) (cmd : NVMeCommand) (buf buflen : Nat) (callback : Bool) :
    Drive AsyncCommand := do
  let acmd ← setupAsyncCommand callback
  let described ← describe acmd { cmd with commandId := acmd.id } buf buflen
  submitSqCommand index described true
  pure acmd

/-- `NVMeDriver::handle_cqe` of a completion that the device posted. -/
def handleCqe (cqe : Cqe) : Drive Unit := do
  let releaseCmd ← Effect.read fun driver => (driver.commands.handleCqe cqe).2.isSome
  Effect.modify fun driver => { driver with commands := (driver.commands.handleCqe cqe).1 }
  if releaseCmd then removeAsyncCommand cqe.commandId else pure ()

/-- The assertion of `NVMeDriver::cqe_pending`. -/
def assertHead (index : Nat) : Drive Unit := do
  let nvmeq ← queue index
  if nvmeq.cqHead < nvmeq.depth then pure () else Effect.fail (.fault .assertion)

/-- The loop of `NVMeDriver::nvme_irq` over the completions that are pending; `cqe_pending` is called
before each and behind the last. -/
def handleCqes (index : Nat) : List Cqe → Drive Unit
  | [] => assertHead index
  | cqe :: rest => do
    assertHead index
    handleCqe cqe
    updateQueue index NVMeQueue.updateCqHead
    handleCqes index rest

/-- `NVMeDriver::nvme_irq`. -/
def nvmeIrq (index : Nat) (cqes : List Cqe) : Drive Unit := do
  handleCqes index cqes
  if cqes ≠ [] then ringCqDoorbell index else pure ()

/-- The device answers a command, the receiving thread handles its completion, and
`AsyncCommand::wait` returns. -/
def wait (index : Nat) (acmd : AsyncCommand) : Drive Reply := do
  let reply ← Effect.attempt fun driver =>
    match driver.script.replies with
    | [] => .error Halt.waits
    | reply :: rest => .ok (reply, { driver with script := { driver.script with replies := rest } })
  noexcept (nvmeIrq index [⟨acmd.id, reply.status <<< 1, reply.result⟩])
  let outcome ← Effect.attempt fun driver =>
    match (driver.commands.commandMap acmd.id).bind AsyncCommand.wait with
    | none => .error Halt.waits
    | some outcome => .ok (outcome, driver)
  removeAsyncCommand acmd.id
  pure ⟨outcome.1, outcome.2⟩

/-- `NVMeDriver::submit_sync_command`. -/
def submitSyncCommand (index : Nat) (cmd : NVMeCommand) (buf buflen : Nat) : Drive Reply := do
  let acmd ← setupAsyncCommand false
  let described ← describe acmd { cmd with commandId := acmd.id } buf buflen
  submitSqCommand index described true
  let reply ← wait index acmd
  Effect.modify fun driver => { driver with answered := driver.answered ++ [(described, reply)] }
  pure reply

/-! ## How the operations end -/

variable {Value : Type} {driver after : NVMeDriver}

theorem call_ok {change : NVMeDriver → Except Fault (Value × NVMeDriver)} {value : Value} :
    (call change).run driver = (.ok value, after) ↔ change driver = .ok (value, after) := by
  unfold call
  rw [Effect.attempt_ok]
  cases change driver <;> simp [Except.mapError]

theorem call_error {change : NVMeDriver → Except Fault (Value × NVMeDriver)} {halt : Halt} :
    (call change).run driver = (.error halt, after) ↔
      ∃ fault, change driver = .error fault ∧ halt = .fault fault ∧ after = driver := by
  unfold call
  rw [Effect.attempt_error]
  cases change driver <;> simp [Except.mapError, eq_comm]

theorem queue_ok {index : Nat} {nvmeq : NVMeQueue} :
    (queue index).run driver = (.ok nvmeq, after) ↔
      driver.queues[index]? = some nvmeq ∧ after = driver := by
  unfold queue
  rw [Effect.attempt_ok]
  cases driver.queues[index]? <;> simp [eq_comm]

theorem sendMessage_ok :
    sendMessage.run driver = (.ok (), after) ↔ driver.script.sends.headD true = true ∧
      after = { driver with script := { driver.script with sends := driver.script.sends.tail } } := by
  unfold sendMessage Effect.run
  dsimp only
  cases driver.script.sends.headD true <;> simp [eq_comm]

theorem write_ok {purpose : Purpose} {addr : Nat} {bytes : List UInt8} {result : Unit} :
    (write purpose addr bytes).run driver = (.ok result, after) ↔
      ∃ space, driver.space.write addr bytes = .ok space ∧
        after = driver.stored space purpose ⟨addr, bytes.length⟩ := by
  unfold write
  rw [call_ok, McmqHost.bind_ok]
  simp [pure, Except.pure, eq_comm]

end NVMeDriver

end McmqHost
