import McmqHost.Driver.Host

/-!
# Starting the driver

`start` resets the controller, sets up the admin queue, asks for as many I/O queues as there are
threads, allocates those that it was granted and creates them on the device until one of the
commands fails.
-/

namespace McmqHost

namespace NVMeDriver

/-- `NVMeDriver::NVMeDriver` behind its initialisers. -/
def construct (useDbbuf : Bool) : Drive Unit :=
  if useDbbuf then do
    let dbbufDbs ← allocate .doorbells 0x1000 1
    Effect.modify fun driver => { driver with dbbufDbs := dbbufDbs }
    memset .doorbells dbbufDbs 0 0x1000
  else pure ()

/-- `NVMeDriver::allocate_queue`. -/
def allocateQueue (qid depth : Nat) : Drive Unit := do
  let _ ← queue qid
  let dbStride ← Effect.read NVMeDriver.dbStride
  updateQueue qid fun nvmeq => { nvmeq with sqeShift := nvmeSqes, depth := depth }
  let sqDmaAddr ← allocatePages (.submissionQueue qid) (u32 (depth <<< nvmeSqes))
  updateQueue qid fun nvmeq => { nvmeq with sqDmaAddr := sqDmaAddr }
  let cqDmaAddr ← allocatePages (.completionQueue qid) (depth * cqeSize)
  updateQueue qid fun nvmeq => nvmeq.place qid depth dbStride sqDmaAddr cqDmaAddr
  Effect.modify fun driver => { driver with queueCount := driver.queueCount + 1 }

/-- `NVMeDriver::init_queue`. -/
def initQueue (qid : Nat) : Drive Unit := do
  let nvmeq ← queue qid
  let dbStride ← Effect.read NVMeDriver.dbStride
  let dbbufDbs ← Effect.read NVMeDriver.dbbufDbs
  updateQueue qid fun nvmeq => nvmeq.restart qid dbStride dbbufDbs
  memset (.completionQueue qid) nvmeq.cqDmaAddr 0 (nvmeq.depth * cqeSize)
  Effect.modify fun driver => { driver with
    onlineQueues := driver.onlineQueues + 1
    initialised := driver.initialised ++ [qid] }

/-- The loop of `NVMeDriver::wait_ready`; the number bounds the reads. -/
def pollReady (bit : Nat) : Nat → Drive Unit
  | 0 => Effect.fail .waits
  | fuel + 1 => do
    let csts ← readCsts
    if csts = 2 ^ 32 - 1 then Effect.fail (.fault .runtimeError)
    else if csts % 2 = bit then pure ()
    else pollReady bit fuel

/-- `NVMeDriver::wait_ready`. -/
def waitReady (enabled : Bool) : Drive Unit := do
  let reads ← Effect.read fun driver => driver.script.csts.length
  pollReady (if enabled then 1 else 0) (reads + 1)

/-- `NVMeDriver::disable_controller`. -/
def disableController : Drive Unit := do
  Effect.modify fun driver =>
    { driver with ctrlConfig := driver.ctrlConfig &&& (2 ^ 32 - 1 - 3 <<< 14) &&& (2 ^ 32 - 2) }
  let ctrlConfig ← Effect.read NVMeDriver.ctrlConfig
  writeRegister 0x14 ctrlConfig
  waitReady false

/-- `NVMeDriver::enable_controller`. -/
def enableController : Drive Unit := do
  let cap ← readCap
  Effect.modify fun driver => { driver with ctrlCap := cap }
  if 12 < (cap >>> 48) % 16 + 12 then Effect.fail (.fault .runtimeError)
  else do
    let ctrlConfig := nvmeSqes <<< 16 ||| 4 <<< 20 ||| 1
    Effect.modify fun driver => { driver with ctrlConfig := ctrlConfig }
    writeRegister 0x14 ctrlConfig
    waitReady true

/-- `NVMeDriver::setup_admin_queue`, which gives the admin queue `NVME_AQ_DEPTH` slots. -/
def setupAdminQueue : Drive Unit := do
  disableController
  allocateQueue 0 32
  let nvmeq ← queue 0
  let aqa := nvmeq.depth - 1
  writeRegister 0x24 (aqa ||| aqa <<< 16)
  writeRegister 0x28 nvmeq.sqDmaAddr
  writeRegister 0x30 nvmeq.cqDmaAddr
  enableController
  initQueue 0

/-- `NVMeDriver::identify_controller`. -/
def identifyController : Drive Nat := do
  let idBuf ← allocatePages .buffer 4096
  let reply ← submitSyncCommand 0 { NVMeCommand.blank 0x06 with cdw10 := 1 } idBuf 4096
  free ⟨.buffer, ⟨idBuf, 4096⟩⟩ 4096
  pure reply.status

/-- `NVMeDriver::set_features`. -/
def setFeatures (fid dword11 : Nat) : Drive Reply :=
  submitSyncCommand 0 { NVMeCommand.blank 0x09 with cdw10 := fid, cdw11 := dword11 } 0 0

/-- The number of queues that a result of `NVME_FEAT_NUM_QUEUES` grants; a field counts from zero. -/
def granted (result : Nat) : Int := (min (u32 result % 2 ^ 16) (u32 result >>> 16) : Nat) + 1

/-- `NVMeDriver::set_queue_count`, with the count that it leaves. -/
def setQueueCount (count : Int) : Drive Int := do
  let fewer := ((count - 1) % 2 ^ 32).toNat
  let reply ← setFeatures 0x07 (u32 (fewer ||| fewer <<< 16))
  pure (if 0 < reply.status then 0 else min count (granted reply.result))

/-- `NVMeDriver::create_cq`. -/
def createCq (qid vector : Nat) : Drive Nat := do
  let nvmeq ← queue qid
  let reply ← submitSyncCommand 0 { NVMeCommand.blank 0x05 with
    prp1 := nvmeq.cqDmaAddr
    cdw10 := u16 qid ||| u16 (nvmeq.depth + (2 ^ 32 - 1)) <<< 16
    cdw11 := 1 ||| u16 vector <<< 16 } 0 0
  pure reply.status

/-- `NVMeDriver::create_sq`. -/
def createSq (qid : Nat) : Drive Nat := do
  let nvmeq ← queue qid
  let reply ← submitSyncCommand 0 { NVMeCommand.blank 0x01 with
    prp1 := nvmeq.sqDmaAddr
    cdw10 := u16 qid ||| u16 (nvmeq.depth + (2 ^ 32 - 1)) <<< 16
    cdw11 := 1 ||| u16 qid <<< 16 } 0 0
  pure reply.status

/-- `NVMeDriver::create_queue`. -/
def createQueue (qid : Nat) : Drive Nat := do
  let status ← createCq qid qid
  if status ≠ 0 then pure status
  else do
    let status ← createSq qid
    if status ≠ 0 then pure status
    else do
      initQueue qid
      pure 0

/-- The first loop of `NVMeDriver::setup_io_queues`, over a number of queues. -/
def allocateQueues (depth : Nat) : Nat → Nat → Drive Unit
  | _, 0 => pure ()
  | first, count + 1 => do
    allocateQueue first depth
    allocateQueues depth (first + 1) count

/-- The second loop of `NVMeDriver::setup_io_queues`, which the first failure ends. -/
def createQueues : Nat → Nat → Drive Unit
  | _, 0 => pure ()
  | first, count + 1 => do
    let status ← createQueue first
    if status ≠ 0 then pure () else createQueues (first + 1) count

/-- `NVMeDriver::setup_io_queues`. -/
def setupIoQueues : Drive Unit := do
  let size ← Effect.read fun driver => driver.queues.length
  let nrIoQueues ← setQueueCount (toInt (u32 (size + (2 ^ 32 - 1))))
  if nrIoQueues = 0 then Effect.fail (.fault .runtimeError)
  else do
    let queueCount ← Effect.read NVMeDriver.queueCount
    let queueDepth ← Effect.read NVMeDriver.queueDepth
    allocateQueues (queueDepth % 2 ^ 32).toNat queueCount (nrIoQueues - queueCount + 1).toNat
    let allocated ← Effect.read NVMeDriver.queueCount
    let onlineQueues ← Effect.read NVMeDriver.onlineQueues
    let maxQs := min (allocated - 1) (nrIoQueues % 2 ^ 64).toNat
    createQueues onlineQueues (maxQs + 1 - onlineQueues)

/-- `NVMeDriver::dbbuf_config`. -/
def dbbufConfig : Drive Unit := do
  let dbbufDbs ← Effect.read NVMeDriver.dbbufDbs
  let reply ← submitSyncCommand 0 { NVMeCommand.blank 0x7c with prp1 := dbbufDbs } 0 0
  if reply.status ≠ 0 then Effect.fail (.fault .runtimeError) else pure ()

/-- The tail of `NVMeDriver::reset`. -/
def configDoorbells : Drive Unit := do
  let dbbufDbs ← Effect.read NVMeDriver.dbbufDbs
  if dbbufDbs ≠ 0 then dbbufConfig else pure ()

/-- `NVMeDriver::reset`. -/
def reset : Drive Unit := do
  let cap ← readCap
  Effect.modify fun driver => { driver with
    ctrlCap := cap
    queueDepth := negotiatedDepth cap driver.ioQueueDepth
    dbStride := 1 <<< ((cap >>> 32) % 16) }
  setupAdminQueue
  let _ ← identifyController
  setupIoQueues
  configDoorbells

/-- `NVMeDriver::start`. -/
def start : Drive Unit := do
  sendMessage
  let ready ← Effect.read fun driver => driver.script.ready
  if ready then do
    Effect.modify fun driver =>
      { driver with queues := driver.queues ++ List.replicate (u32 (driver.ncpus + 1)) .blank }
    reset
  else Effect.fail .waits

/-- `NVMeDriver::set_thread_id`, with the queue that the thread gets. -/
def setThreadId (threadId : Nat) : Drive Nat := do
  let size ← Effect.read fun driver => driver.queues.length
  if threadId < size then pure threadId else Effect.fail (.fault .assertion)

end NVMeDriver

end McmqHost
