import McmqHost.Driver.Stores

/-!
# Which queues are live

`start` allocates as many I/O queues as there are threads, or as the device grants, and creates them
on the device until a command fails. A command on the admin queue consumes one answer of the device
and leaves the other queues and their counters alone, so that after `start` the live queues are those
up to the first failure.
-/

namespace McmqHost

open Extents HoleTable

/-- Where the rings of a queue are. -/
structure Ring where
  /-- `depth`. -/
  depth : Nat
  /-- `sq_dma_addr`. -/
  sq : Address
  /-- `cq_dma_addr`. -/
  cq : Address

/-- The rings of a queue. -/
def NVMeQueue.ring (nvmeq : NVMeQueue) : Ring := ⟨nvmeq.depth, nvmeq.sqDmaAddr, nvmeq.cqDmaAddr⟩

namespace NVMeDriver

variable {Value : Type} {driver after : NVMeDriver}

/-! ## What a command leaves alone -/

/-- The members that no command assigns, and what is known of the device. -/
structure Standing where
  /-- `ncpus`. -/
  ncpus : Nat
  /-- `io_queue_depth`. -/
  ioQueueDepth : Nat
  /-- `NVME_REG_CAP`. -/
  cap : Nat
  /-- `queue_depth`. -/
  queueDepth : Int
  /-- `db_stride`. -/
  dbStride : Nat
  /-- `queue_count`. -/
  queueCount : Nat
  /-- `online_queues`. -/
  onlineQueues : Nat
  /-- The initialised queues. -/
  initialised : List Nat
  /-- The rings of the queues. -/
  rings : List Ring
  /-- The answers to come. -/
  replies : List Reply
  /-- The commands that were answered. -/
  answered : List (NVMeCommand × Reply)

/-- The standing of a driver. -/
def standing (driver : NVMeDriver) : Standing where
  ncpus := driver.ncpus
  ioQueueDepth := driver.ioQueueDepth
  cap := driver.script.cap
  queueDepth := driver.queueDepth
  dbStride := driver.dbStride
  queueCount := driver.queueCount
  onlineQueues := driver.onlineQueues
  initialised := driver.initialised
  rings := driver.queues.map NVMeQueue.ring
  replies := driver.script.replies
  answered := driver.answered

/-- The standing and the command table are as before. -/
def Rests (before after : NVMeDriver) : Prop :=
  after.standing = before.standing ∧ after.commands = before.commands

theorem Rests.refl (driver : NVMeDriver) : Rests driver driver := ⟨rfl, rfl⟩

theorem Rests.trans {one two three : NVMeDriver} (front : Rests one two) (back : Rests two three) :
    Rests one three :=
  ⟨back.1.trans front.1, back.2.trans front.2⟩

/-- A sequence rests when its parts do. -/
theorem rests_bind {Other : Type} {first : Drive Value} {next : Value → Drive Other}
    (front : Effect.Keeps Rests first) (back : ∀ value, Effect.Keeps Rests (next value)) :
    Effect.Keeps Rests (first >>= next) :=
  Effect.Keeps.bind Rests.trans front back

theorem rests_pure (value : Value) : Effect.Keeps Rests (pure value : Drive Value) :=
  Effect.Keeps.pure Rests.refl value

/-- A call of the memory space changes neither. -/
theorem rests_call {change : NVMeDriver → Except Fault (Value × NVMeDriver)}
    (same : ∀ driver value after, change driver = .ok (value, after) → Rests driver after) :
    Effect.Keeps Rests (call change) := by
  refine Effect.Keeps.attempt Rests.refl ?_
  intro driver value after ran
  cases changed : change driver with
  | error fault =>
    rw [changed] at ran
    cases ran
  | ok result =>
    rw [changed] at ran
    cases ran
    exact same driver value after changed

theorem rests_write (purpose : Purpose) (addr : Nat) (bytes : List UInt8) :
    Effect.Keeps Rests (write purpose addr bytes) := by
  apply rests_call
  intro driver _ after ran
  obtain ⟨space, -, ran⟩ := McmqHost.bind_ok.mp ran
  cases ran
  exact ⟨rfl, rfl⟩

theorem rests_memset (purpose : Purpose) (addr : Nat) (c : UInt8) (len : Nat) :
    Effect.Keeps Rests (memset purpose addr c len) := by
  apply rests_call
  intro driver _ after ran
  obtain ⟨space, -, ran⟩ := McmqHost.bind_ok.mp ran
  cases ran
  exact ⟨rfl, rfl⟩

theorem rests_allocate (purpose : Purpose) (len align : Nat) :
    Effect.Keeps Rests (allocate purpose len align) := by
  apply rests_call
  intro driver _ after ran
  obtain ⟨⟨address, space⟩, -, ran⟩ := McmqHost.bind_ok.mp ran
  cases ran
  exact ⟨rfl, rfl⟩

theorem rests_free (block : Block) (len : Nat) : Effect.Keeps Rests (free block len) := by
  apply rests_call
  intro driver _ after ran
  obtain ⟨space, -, ran⟩ := McmqHost.bind_ok.mp ran
  cases ran
  exact ⟨rfl, rfl⟩

theorem rests_queue (index : Nat) : Effect.Keeps Rests (queue index) := by
  refine Effect.Keeps.attempt Rests.refl ?_
  intro driver nvmeq after ran
  split at ran
  · contradiction
  · cases ran
    exact .refl _

theorem rests_sendMessage : Effect.Keeps Rests sendMessage := by
  intro driver
  unfold sendMessage Effect.run
  dsimp only
  cases driver.script.sends.headD true with
  | false => exact ⟨rfl, rfl⟩
  | true => exact ⟨rfl, rfl⟩

theorem rests_writeRegister (addr value : Nat) : Effect.Keeps Rests (writeRegister addr value) :=
  rests_bind rests_sendMessage fun _ => Effect.Keeps.modify fun _ => ⟨rfl, rfl⟩

theorem rests_ringDoorbell (shadow register value : Nat) :
    Effect.Keeps Rests (ringDoorbell shadow register value) := by
  unfold ringDoorbell
  split
  · exact rests_write _ _ _
  · exact rests_writeRegister _ _

/-- Positions and doorbells of a queue are assigned. -/
theorem rests_updateQueue {index : Nat} {change : NVMeQueue → NVMeQueue}
    (same : ∀ nvmeq, (change nvmeq).ring = nvmeq.ring) :
    Effect.Keeps Rests (updateQueue index change) := by
  refine Effect.Keeps.modify fun driver => ⟨?_, rfl⟩
  have rings : (driver.queues.modify index change).map NVMeQueue.ring =
      driver.queues.map NVMeQueue.ring := by
    apply List.ext_getElem?
    intro other
    rw [List.getElem?_map, List.getElem?_map, List.getElem?_modify]
    split
    · cases driver.queues[other]? with
      | none => rfl
      | some nvmeq => exact congrArg some (same nvmeq)
    · cases driver.queues[other]? <;> rfl
  simp only [standing, rings]

theorem rests_submitSqCommand (index : Nat) (cmd : NVMeCommand) (writeSq : Bool) :
    Effect.Keeps Rests (submitSqCommand index cmd writeSq) := by
  refine rests_bind (rests_queue index) fun nvmeq => ?_
  refine rests_bind (rests_write _ _ _) fun _ => ?_
  refine rests_bind (Effect.Keeps.modify fun _ => ⟨rfl, rfl⟩) fun _ => ?_
  refine rests_bind (rests_updateQueue fun _ => rfl) fun _ => ?_
  refine rests_bind (rests_queue index) fun nvmeq => ?_
  split
  · exact rests_pure _
  · exact rests_bind (rests_ringDoorbell _ _ _) fun _ => rests_updateQueue fun _ => rfl

theorem rests_assertHead (index : Nat) : Effect.Keeps Rests (assertHead index) := by
  refine rests_bind (rests_queue index) fun nvmeq => ?_
  split
  · exact rests_pure _
  · exact Effect.Keeps.fail Rests.refl _

theorem rests_ringCqDoorbell (index : Nat) : Effect.Keeps Rests (ringCqDoorbell index) := by
  refine rests_bind (rests_queue index) fun nvmeq => ?_
  exact rests_bind (Effect.Keeps.read Rests.refl _) fun _ => rests_ringDoorbell _ _ _

theorem rests_freePrpLists (serial : Nat) (pages : List Address) :
    Effect.Keeps Rests (freePrpLists serial pages) := by
  induction pages with
  | nil => exact rests_pure _
  | cons page rest ih => exact rests_bind (rests_free _ _) fun _ => ih

/-- What rests is as it was, however the effect ends. -/
theorem rests_of {drive : Drive Value} (keeps : Effect.Keeps Rests drive) {outcome : Except Halt Value}
    (ran : drive.run driver = (outcome, after)) : Rests driver after := by
  have kept := keeps driver
  rwa [ran] at kept

/-! ## Synchronous commands -/

/-- The standing is as before. -/
def Stands (before after : NVMeDriver) : Prop := after.standing = before.standing

/-- Removing a command leaves the standing alone. -/
theorem stands_removeAsyncCommand (id : Nat) : Effect.Keeps Stands (removeAsyncCommand id) := by
  have chain : ∀ {one two three : NVMeDriver}, Stands one two → Stands two three → Stands one three :=
    fun front back => Eq.trans back front
  have same : ∀ driver, Stands driver driver := fun _ => rfl
  refine Effect.Keeps.bind chain (Effect.Keeps.read same _) fun entry => ?_
  refine Effect.Keeps.bind chain (Effect.Keeps.modify fun _ => rfl) fun _ => ?_
  cases entry with
  | none => exact Effect.Keeps.pure same _
  | some cmd =>
    exact Effect.Keeps.mapError fun driver => (rests_freePrpLists cmd.serial cmd.prpLists driver).1

/-- The completion of a command without callback is entered into the table. -/
theorem handleCqe_ok {cqe : Cqe} {cmd : AsyncCommand}
    (entry : driver.commands.commandMap cqe.commandId = some cmd) (waiting : cmd.callback = none)
    (ok : (handleCqe cqe).run driver = (.ok (), after)) :
    after.standing = driver.standing ∧ ∃ done, after.commands.commandMap cqe.commandId = some done ∧
      done.wait = some (cqe.status >>> 1, cqe.result) := by
  have handled : driver.commands.handleCqe cqe =
      (⟨driver.commands.commandIdCounter, Function.update driver.commands.commandMap cqe.commandId
        (some { cmd with status := cqe.status >>> 1, result := cqe.result, completed := true })⟩,
        none) := by
    simp only [CommandTable.handleCqe, entry, waiting]
  obtain ⟨releaseCmd, looked, readOk, modifyOk⟩ := Effect.bind_ok.mp ok
  obtain ⟨_, changed, modified, lastOk⟩ := Effect.bind_ok.mp modifyOk
  cases readOk
  cases modified
  simp only [handled] at lastOk
  cases lastOk
  exact ⟨rfl, _, Function.update_self _ _ _, rfl⟩

/-- A wait consumes the next answer and returns it. -/
theorem wait_ok {index : Nat} {acmd cmd : AsyncCommand} {reply : Reply}
    (entry : driver.commands.commandMap acmd.id = some cmd) (waiting : cmd.callback = none)
    (ok : (wait index acmd).run driver = (.ok reply, after)) :
    ∃ rest, driver.script.replies = reply :: rest ∧
      after.standing = { driver.standing with replies := rest } := by
  obtain ⟨answer, popped, popOk, servedOk⟩ := Effect.bind_ok.mp ok
  obtain ⟨_, served, irqOk, wokenOk⟩ := Effect.bind_ok.mp servedOk
  obtain ⟨outcome, woken, wakeOk, removedOk⟩ := Effect.bind_ok.mp wokenOk
  obtain ⟨_, last, removeOk, returnOk⟩ := Effect.bind_ok.mp removedOk
  have taken := Effect.attempt_ok.mp popOk
  split at taken
  · contradiction
  rename_i _ rest replies
  cases taken
  obtain ⟨_, handled, eachOk, ringOk⟩ := Effect.bind_ok.mp (Effect.mapError_ok.mp irqOk)
  obtain ⟨_, checked, checkOk, handlingOk⟩ := Effect.bind_ok.mp eachOk
  obtain ⟨_, entered, handleOk, advancingOk⟩ := Effect.bind_ok.mp handlingOk
  obtain ⟨_, advanced, advanceOk, againOk⟩ := Effect.bind_ok.mp advancingOk
  have before := rests_of (rests_assertHead index) checkOk
  obtain ⟨stands, done, found, result⟩ :=
    handleCqe_ok (by rw [before.2]; exact entry) waiting handleOk
  have moved := rests_of (rests_updateQueue fun nvmeq => by
    unfold NVMeQueue.updateCqHead
    split <;> rfl) advanceOk
  have again := rests_of (rests_assertHead index) againOk
  have rung : Rests handled served := by
    rw [if_pos (List.cons_ne_nil _ _)] at ringOk
    exact rests_of (rests_ringCqDoorbell index) ringOk
  have tail := (moved.trans again).trans rung
  have answered := Effect.attempt_ok.mp wakeOk
  rw [tail.2, found, Option.bind_some, result] at answered
  cases answered
  have removed := stands_removeAsyncCommand acmd.id served
  rw [removeOk] at removed
  cases returnOk
  have status : answer.status <<< 1 >>> 1 = answer.status := Nat.shiftLeft_shiftRight _ _
  refine ⟨rest, ?_, ?_⟩
  · rw [replies]
    simp only [status]
  · have before := before.1
    have tail := tail.1
    rw [removed, tail, stands, before]
    rfl

/-- A buffer that needs no list is described in the command. -/
theorem describe_ok {acmd : AsyncCommand} {cmd described : NVMeCommand} {buf buflen : Nat}
    (short : ¬NeedsList buf buflen)
    (ok : (describe acmd cmd buf buflen).run driver = (.ok described, after)) :
    after = driver ∧ (buflen = 0 → described = cmd) := by
  unfold describe at ok
  split at ok
  · rename_i some
    unfold setupBuffer at ok
    simp only [if_neg short] at ok
    cases ok
    exact ⟨rfl, fun none => absurd none some⟩
  · cases ok
    exact ⟨rfl, fun _ => rfl⟩

/-- **A synchronous command** consumes the next answer. -/
theorem submitSyncCommand_ok {index : Nat} {cmd : NVMeCommand} {buf buflen : Nat} {reply : Reply}
    (short : ¬NeedsList buf buflen)
    (ok : (submitSyncCommand index cmd buf buflen).run driver = (.ok reply, after)) :
    ∃ rest id described, driver.script.replies = reply :: rest ∧
      (buflen = 0 → described = { cmd with commandId := id }) ∧
      after.standing = { driver.standing with
        replies := rest
        answered := driver.answered ++ [(described, reply)] } := by
  obtain ⟨acmd, entered, setupOk, describedOk⟩ := Effect.bind_ok.mp ok
  obtain ⟨described, same, describeOk, submittedOk⟩ := Effect.bind_ok.mp describedOk
  obtain ⟨_, submitted, submitOk, waitedOk⟩ := Effect.bind_ok.mp submittedOk
  obtain ⟨answer, waited, waitOk, notedOk⟩ := Effect.bind_ok.mp waitedOk
  obtain ⟨_, noted, noteOk, returnOk⟩ := Effect.bind_ok.mp notedOk
  have registered := Effect.attempt_ok.mp setupOk
  cases registered
  obtain ⟨rfl, whole⟩ := describe_ok short describeOk
  cases noteOk
  cases returnOk
  have rests := rests_of (rests_submitSqCommand index described true) submitOk
  obtain ⟨rest, replies, stands⟩ :=
    wait_ok (by rw [rests.2]; exact Function.update_self _ _ _) rfl waitOk
  have before : submitted.standing = driver.standing := rests.1
  rw [before] at stands
  refine ⟨rest, _, described, ?_, whole, ?_⟩
  · rw [← replies]
    exact (congrArg Standing.replies before).symm
  · have answered := congrArg Standing.answered stands
    calc _ = { waited.standing with
          answered := waited.standing.answered ++ [(described, reply)] } := rfl
      _ = _ := by
        rw [stands]
        rfl

/-- A command without data. -/
theorem plainCommand_ok {index : Nat} {cmd : NVMeCommand} {reply : Reply}
    (ok : (submitSyncCommand index cmd 0 0).run driver = (.ok reply, after)) :
    ∃ rest id, driver.script.replies = reply :: rest ∧ after.standing = { driver.standing with
      replies := rest
      answered := driver.answered ++ [({ cmd with commandId := id }, reply)] } := by
  obtain ⟨rest, id, described, replies, same, stands⟩ := submitSyncCommand_ok (by decide) ok
  rw [same rfl] at stands
  exact ⟨rest, id, replies, stands⟩

/-- Asking for the queue count. -/
theorem setQueueCount_ok {count fewer : Int}
    (ok : (setQueueCount count).run driver = (.ok fewer, after)) :
    ∃ features rest answered, driver.script.replies = features :: rest ∧
      after.standing = { driver.standing with replies := rest, answered := answered } ∧
      (fewer ≠ 0 → fewer = min count (granted features.result)) := by
  obtain ⟨reply, sent, sentOk, returnOk⟩ := Effect.bind_ok.mp ok
  obtain ⟨rest, id, replies, stands⟩ := plainCommand_ok sentOk
  cases returnOk
  refine ⟨reply, rest, _, replies, stands, fun some => ?_⟩
  split
  · rename_i refused
    rw [if_pos refused] at some
    exact absurd rfl some
  · rfl

/-! ## Allocating the queues -/

/-- The rings of the queues before an index are as they were, and all that no allocation assigns. -/
structure Beyond (first : Nat) (before after : NVMeDriver) : Prop where
  /-- Only queues are allocated. -/
  rest : after.standing = { before.standing with
    queueCount := after.queueCount
    rings := after.standing.rings }
  /-- The earlier queues. -/
  earlier : ∀ index < first, after.standing.rings[index]? = before.standing.rings[index]?
  /-- There are as many. -/
  size : after.queues.length = before.queues.length

theorem Rests.beyond {before after : NVMeDriver} (rests : Rests before after) (first : Nat) :
    Beyond first before after := by
  have count : after.queueCount = before.queueCount := congrArg Standing.queueCount rests.1
  have size := congrArg (fun standing : Standing => standing.rings.length) rests.1
  simp only [standing, List.length_map] at size
  refine ⟨?_, fun index _ => by rw [rests.1], size⟩
  rw [rests.1, count]
  rfl

theorem Beyond.trans {first : Nat} {one two three : NVMeDriver} (front : Beyond first one two)
    (back : Beyond first two three) : Beyond first one three := by
  refine ⟨?_, fun index below => (back.earlier index below).trans (front.earlier index below),
    back.size.trans front.size⟩
  rw [back.rest, front.rest]

theorem beyond_bind {first : Nat} {Other : Type} {drive : Drive Value} {next : Value → Drive Other}
    (front : Effect.Keeps (Beyond first) drive)
    (back : ∀ value, Effect.Keeps (Beyond first) (next value)) :
    Effect.Keeps (Beyond first) (drive >>= next) :=
  Effect.Keeps.bind Beyond.trans front back

theorem beyond_rests {first : Nat} {drive : Drive Value} (keeps : Effect.Keeps Rests drive) :
    Effect.Keeps (Beyond first) drive :=
  fun driver => (keeps driver).beyond first

/-- A later queue is changed. -/
theorem beyond_updateQueue {first index : Nat} (change : NVMeQueue → NVMeQueue)
    (later : first ≤ index) : Effect.Keeps (Beyond first) (updateQueue index change) := by
  refine Effect.Keeps.modify fun driver => ⟨rfl, fun other below => ?_, List.length_modify ..⟩
  have different : index ≠ other := by omega
  simp [standing, different]

/-- **Allocating** a queue leaves the earlier ones alone. -/
theorem beyond_allocateQueue {first qid : Nat} (depth : Nat) (later : first ≤ qid) :
    Effect.Keeps (Beyond first) (allocateQueue qid depth) := by
  refine beyond_bind (beyond_rests (rests_queue qid)) fun nvmeq => ?_
  refine beyond_bind (beyond_rests (Effect.Keeps.read Rests.refl _)) fun dbStride => ?_
  refine beyond_bind (beyond_updateQueue _ later) fun _ => ?_
  refine beyond_bind (beyond_rests (rests_allocate _ _ _)) fun sq => ?_
  refine beyond_bind (beyond_updateQueue _ later) fun _ => ?_
  refine beyond_bind (beyond_rests (rests_allocate _ _ _)) fun cq => ?_
  refine beyond_bind (beyond_updateQueue _ later) fun _ => ?_
  exact Effect.Keeps.modify fun driver => ⟨rfl, fun _ _ => rfl, rfl⟩

/-- Allocating a queue gives it rings of the depth. -/
theorem allocateQueue_ok {qid depth : Nat}
    (ok : (allocateQueue qid depth).run driver = (.ok (), after)) :
    after.queueCount = driver.queueCount + 1 ∧
      ∃ ring, after.standing.rings[qid]? = some ring ∧ ring.depth = depth := by
  obtain ⟨nvmeq, looked, lookOk, readOk⟩ := Effect.bind_ok.mp ok
  obtain ⟨dbStride, same, strideOk, sizedOk⟩ := Effect.bind_ok.mp readOk
  obtain ⟨_, sized, sizeOk, sqOk⟩ := Effect.bind_ok.mp sizedOk
  obtain ⟨sq, roomSq, roomSqOk, placedSqOk⟩ := Effect.bind_ok.mp sqOk
  obtain ⟨_, placedSq, placeSqOk, cqOk⟩ := Effect.bind_ok.mp placedSqOk
  obtain ⟨cq, roomCq, roomCqOk, placedOk⟩ := Effect.bind_ok.mp cqOk
  obtain ⟨_, placed, placeOk, countOk⟩ := Effect.bind_ok.mp placedOk
  obtain ⟨found, rfl⟩ := queue_ok.mp lookOk
  cases strideOk
  cases sizeOk
  obtain ⟨⟨sqAddr, sqSpace⟩, -, sqOk⟩ := McmqHost.bind_ok.mp (call_ok.mp roomSqOk)
  cases sqOk
  cases placeSqOk
  obtain ⟨⟨cqAddr, cqSpace⟩, -, cqOk⟩ := McmqHost.bind_ok.mp (call_ok.mp roomCqOk)
  cases cqOk
  cases placeOk
  cases countOk
  refine ⟨rfl, ⟨depth, sq, cq⟩, ?_, rfl⟩
  simp [standing, take, found, NVMeQueue.ring, NVMeQueue.place]

/-- The loop that allocates the I/O queues gives each its rings. -/
theorem allocateQueues_ok {depth first count : Nat}
    (ok : (allocateQueues depth first count).run driver = (.ok (), after)) :
    Beyond first driver after ∧ after.queueCount = driver.queueCount + count ∧
      ∀ index, first ≤ index → index < first + count →
        ∃ ring, after.standing.rings[index]? = some ring ∧ ring.depth = depth := by
  induction count generalizing first driver with
  | zero =>
    cases ok
    exact ⟨(Rests.refl _).beyond _, rfl, fun index low high => by omega⟩
  | succ count ih =>
    obtain ⟨_, allocated, allocateOk, laterOk⟩ := Effect.bind_ok.mp ok
    obtain ⟨more, ring, found, sized⟩ := allocateQueue_ok allocateOk
    obtain ⟨beyond, counted, each⟩ := ih laterOk
    have front := beyond_allocateQueue depth (le_refl first) driver
    rw [allocateOk] at front
    refine ⟨front.trans ⟨beyond.rest, fun index below => beyond.earlier index (by omega),
      beyond.size⟩, by omega, ?_⟩
    intro index low high
    rcases Nat.eq_or_lt_of_le low with rfl | later
    · exact ⟨ring, (beyond.earlier _ (Nat.lt_succ_self _)).trans found, sized⟩
    · exact each index later (by omega)

/-! ## Creating the queues -/

/-- The command that creates the completion queue of a queue's rings. -/
def createCqCommand (qid : Nat) (ring : Ring) : NVMeCommand :=
  { NVMeCommand.blank 0x05 with
    prp1 := ring.cq
    cdw10 := u16 qid ||| u16 (ring.depth + (2 ^ 32 - 1)) <<< 16
    cdw11 := 1 ||| u16 qid <<< 16 }

/-- The command that creates the submission queue of a queue's rings. -/
def createSqCommand (qid : Nat) (ring : Ring) : NVMeCommand :=
  { NVMeCommand.blank 0x01 with
    prp1 := ring.sq
    cdw10 := u16 qid ||| u16 (ring.depth + (2 ^ 32 - 1)) <<< 16
    cdw11 := 1 ||| u16 qid <<< 16 }

/-- The device answered a command with success. -/
def Agreed (answered : List (NVMeCommand × Reply)) (cmd : NVMeCommand) : Prop :=
  ∃ id reply, ({ cmd with commandId := id }, reply) ∈ answered ∧ reply.status = 0

theorem Agreed.mono {answered more : List (NVMeCommand × Reply)} {cmd : NVMeCommand}
    (agreed : Agreed answered cmd) (subset : answered ⊆ more) : Agreed more cmd := by
  obtain ⟨id, reply, sent, success⟩ := agreed
  exact ⟨id, reply, subset sent, success⟩

/-- How many queues are created until the first command fails, by the answers to the commands. -/
def created : Nat → List Reply → Nat
  | count + 1, cq :: sq :: rest =>
    if cq.status = 0 ∧ sq.status = 0 then created count rest + 1 else 0
  | _, _ => 0

theorem created_failed {cq : Reply} (failed : cq.status ≠ 0) (count : Nat) (rest : List Reply) :
    created count (cq :: rest) = 0 := by
  cases count with
  | zero => rfl
  | succ count =>
    cases rest with
    | nil => rfl
    | cons sq rest => rw [created, if_neg fun success => failed success.1]

/-- A number of queues was created. -/
structure Made (first count : Nat) (before after : NVMeDriver) : Prop where
  /-- The rings are where they were. -/
  rings : after.standing.rings = before.standing.rings
  /-- No queue was allocated. -/
  allocated : after.queueCount = before.queueCount
  /-- They were initialised. -/
  initialised : after.initialised = before.initialised ++ List.range' first count
  /-- What was answered before. -/
  answered : before.answered ⊆ after.answered
  /-- The device agreed to each. -/
  agreed : ∀ index, first ≤ index → index < first + count →
    ∃ ring, after.standing.rings[index]? = some ring ∧
      Agreed after.answered (createCqCommand index ring) ∧
      Agreed after.answered (createSqCommand index ring)

/-- A command was answered, and nothing was made. -/
structure Sent (cmd : NVMeCommand) (reply : Reply) (before after : NVMeDriver) : Prop where
  /-- The answer is the next one. -/
  replies : before.script.replies = reply :: after.script.replies
  /-- The rings are where they were. -/
  rings : after.standing.rings = before.standing.rings
  /-- No queue was allocated. -/
  allocated : after.queueCount = before.queueCount
  /-- No queue was initialised. -/
  initialised : after.initialised = before.initialised
  /-- The command was recorded. -/
  answered : ∃ id, after.answered = before.answered ++ [({ cmd with commandId := id }, reply)]

/-- A command that creates a ring of a queue. -/
theorem create_ok {qid status : Nat} {command : NVMeQueue → NVMeCommand}
    (ok : (queue qid >>= fun nvmeq => submitSyncCommand 0 (command nvmeq) 0 0 >>= fun reply =>
      (pure reply.status : Drive Nat)).run driver = (.ok status, after)) :
    ∃ nvmeq reply, driver.queues[qid]? = some nvmeq ∧ status = reply.status ∧
      Sent (command nvmeq) reply driver after := by
  obtain ⟨nvmeq, looked, lookOk, sentOk⟩ := Effect.bind_ok.mp ok
  obtain ⟨found, rfl⟩ := queue_ok.mp lookOk
  obtain ⟨reply, sent, submitOk, returnOk⟩ := Effect.bind_ok.mp sentOk
  obtain ⟨rest, id, replies, stands⟩ := plainCommand_ok submitOk
  cases returnOk
  have left : after.script.replies = rest := congrArg Standing.replies stands
  have rings := congrArg Standing.rings stands
  have allocated := congrArg Standing.queueCount stands
  have initialised := congrArg Standing.initialised stands
  have answered := congrArg Standing.answered stands
  exact ⟨nvmeq, reply, found, rfl, by rw [replies, left], rings, allocated, initialised, id, answered⟩

/-- Initialising a queue. -/
theorem initQueue_ok {qid : Nat} (ok : (initQueue qid).run driver = (.ok (), after)) :
    after.standing = { driver.standing with
      onlineQueues := driver.onlineQueues + 1
      initialised := driver.initialised ++ [qid] } := by
  obtain ⟨nvmeq, looked, lookOk, strideOk⟩ := Effect.bind_ok.mp ok
  obtain ⟨dbStride, same, readOk, dbsOk⟩ := Effect.bind_ok.mp strideOk
  obtain ⟨dbbufDbs, again, readDbsOk, restartedOk⟩ := Effect.bind_ok.mp dbsOk
  obtain ⟨_, restarted, restartOk, clearedOk⟩ := Effect.bind_ok.mp restartedOk
  obtain ⟨_, cleared, clearOk, countOk⟩ := Effect.bind_ok.mp clearedOk
  obtain ⟨-, rfl⟩ := queue_ok.mp lookOk
  cases readOk
  cases readDbsOk
  have keeps : ∀ nvmeq : NVMeQueue,
      (nvmeq.restart qid looked.dbStride looked.dbbufDbs).ring = nvmeq.ring := fun _ => rfl
  have first := (rests_of (rests_updateQueue keeps) restartOk).1
  have second := (rests_of (rests_memset _ _ _ _) clearOk).1
  cases countOk
  have same : cleared.standing = looked.standing := second.trans first
  calc _ = { cleared.standing with
        onlineQueues := cleared.standing.onlineQueues + 1
        initialised := cleared.standing.initialised ++ [qid] } := rfl
    _ = _ := by
      rw [same]
      rfl

/-- Nothing was made. -/
theorem Sent.made {cmd : NVMeCommand} {reply : Reply} {before after : NVMeDriver}
    (sent : Sent cmd reply before after) (first : Nat) : Made first 0 before after := by
  obtain ⟨id, answered⟩ := sent.answered
  refine ⟨sent.rings, sent.allocated, sent.initialised.trans (List.append_nil _).symm, ?_,
    fun index low high => by omega⟩
  rw [answered]
  exact List.subset_append_left _ _

/-- A command that was answered with success is agreed to. -/
theorem Sent.agreed {cmd : NVMeCommand} {reply : Reply} {before after : NVMeDriver}
    (sent : Sent cmd reply before after) (success : reply.status = 0) :
    Agreed after.answered cmd := by
  obtain ⟨id, answered⟩ := sent.answered
  refine ⟨id, reply, ?_, success⟩
  rw [answered]
  exact List.mem_append_right _ List.mem_cons_self

theorem Made.trans {first count more : Nat} {one two three : NVMeDriver}
    (front : Made first count one two) (back : Made (first + count) more two three) :
    Made first (count + more) one three := by
  refine ⟨back.rings.trans front.rings, back.allocated.trans front.allocated, ?_, List.Subset.trans front.answered back.answered, ?_⟩
  · rw [back.initialised, front.initialised, List.append_assoc, List.range'_append_1]
  · intro index low high
    by_cases early : index < first + count
    · obtain ⟨ring, found, cq, sq⟩ := front.agreed index low early
      exact ⟨ring, by rw [back.rings, found], cq.mono back.answered, sq.mono back.answered⟩
    · exact back.agreed index (by omega) (by omega)

/-- **Creating a queue** takes two answers, or ends with the first that is a failure. -/
theorem createQueue_ok {qid status : Nat}
    (ok : (createQueue qid).run driver = (.ok status, after)) :
    (status = 0 → Made qid 1 driver after ∧ ∃ cq sq, cq.status = 0 ∧ sq.status = 0 ∧
      driver.script.replies = cq :: sq :: after.script.replies) ∧
    (status ≠ 0 → Made qid 0 driver after ∧ ∀ count, created count driver.script.replies = 0) := by
  obtain ⟨cqStatus, middle, cqOk, sqOk⟩ := Effect.bind_ok.mp ok
  obtain ⟨nvmeq, cq, found, rfl, cqSent⟩ := create_ok cqOk
  by_cases cqFailed : cq.status ≠ 0
  · rw [if_pos cqFailed] at sqOk
    cases sqOk
    refine ⟨fun success => absurd success cqFailed, fun _ => ⟨cqSent.made qid, fun count => ?_⟩⟩
    rw [cqSent.replies, created_failed cqFailed]
  · rw [if_neg cqFailed] at sqOk
    have cqSuccess := not_not.mp cqFailed
    obtain ⟨sqStatus, last, sqOk, initOk⟩ := Effect.bind_ok.mp sqOk
    obtain ⟨another, sq, again, rfl, sqSent⟩ := create_ok sqOk
    by_cases sqFailed : sq.status ≠ 0
    · rw [if_pos sqFailed] at initOk
      cases initOk
      refine ⟨fun success => absurd success sqFailed, fun _ => ⟨(cqSent.made qid).trans
        (sqSent.made qid), fun count => ?_⟩⟩
      rw [cqSent.replies, sqSent.replies]
      cases count with
      | zero => rfl
      | succ count => rw [created, if_neg fun success => sqFailed success.2]
    · rw [if_neg sqFailed] at initOk
      have sqSuccess := not_not.mp sqFailed
      obtain ⟨_, initialised, initOk, returnOk⟩ := Effect.bind_ok.mp initOk
      have stands := initQueue_ok initOk
      cases returnOk
      have rings := congrArg Standing.rings stands
      have allocated := congrArg Standing.queueCount stands
      have made := congrArg Standing.initialised stands
      have answered := congrArg Standing.answered stands
      have replies := congrArg Standing.replies stands
      simp only [standing] at made answered replies
      have both := (cqSent.made qid).trans (sqSent.made qid)
      refine ⟨fun _ => ⟨⟨rings.trans both.rings, allocated.trans both.allocated, ?_, ?_, ?_⟩, cq, sq, cqSuccess, sqSuccess, ?_⟩,
        fun failed => absurd rfl failed⟩
      · rw [made, both.initialised, List.append_assoc]
        rfl
      · rw [answered]
        exact both.answered
      · intro index low high
        obtain rfl : index = qid := by omega
        have before : driver.standing.rings[index]? = some nvmeq.ring := by
          simp [standing, found]
        have between : middle.standing.rings[index]? = some another.ring := by
          simp [standing, again]
        have same : another.ring = nvmeq.ring := by
          rw [cqSent.rings, before] at between
          exact (Option.some.inj between).symm
        refine ⟨nvmeq.ring, by rw [rings, both.rings, before], ?_, ?_⟩
        · rw [answered]
          exact (cqSent.agreed cqSuccess).mono (sqSent.made index).answered
        · rw [answered, ← same]
          exact sqSent.agreed sqSuccess
      · rw [cqSent.replies, sqSent.replies, replies]

/-- **The loop that creates the I/O queues** creates those up to the first failure. -/
theorem createQueues_ok {first count : Nat}
    (ok : (createQueues first count).run driver = (.ok (), after)) :
    Made first (created count driver.script.replies) driver after := by
  induction count generalizing first driver with
  | zero =>
    cases ok
    exact ⟨rfl, rfl, (List.append_nil _).symm, List.Subset.refl _, fun index low high => by
      simp only [created] at high
      omega⟩
  | succ count ih =>
    obtain ⟨status, middle, createOk, laterOk⟩ := Effect.bind_ok.mp ok
    obtain ⟨succeeds, fails⟩ := createQueue_ok createOk
    by_cases failed : status ≠ 0
    · obtain ⟨made, none⟩ := fails failed
      rw [if_pos failed] at laterOk
      cases laterOk
      rw [none]
      exact made
    · obtain ⟨made, cq, sq, cqSuccess, sqSuccess, replies⟩ := succeeds (not_not.mp failed)
      rw [if_neg failed] at laterOk
      have later := made.trans (ih laterOk)
      rw [replies, created, if_pos ⟨cqSuccess, sqSuccess⟩, Nat.add_comm]
      exact later

theorem created_le (count : Nat) (replies : List Reply) : created count replies ≤ count := by
  induction count, replies using created.induct with
  | case1 count cq sq rest both ih =>
    rw [created, if_pos both]
    exact Nat.succ_le_succ ih
  | case2 count cq sq rest failed =>
    rw [created, if_neg failed]
    exact Nat.zero_le _
  | case3 count replies other =>
    rw [created]
    · exact Nat.zero_le _
    · exact other

/-! ## Starting -/

theorem rests_waitReady (enabled : Bool) : Effect.Keeps Rests (waitReady enabled) := by
  refine rests_bind (Effect.Keeps.read Rests.refl _) fun reads => ?_
  generalize reads + 1 = fuel
  generalize (if enabled then 1 else 0) = bit
  induction fuel with
  | zero => exact Effect.Keeps.fail Rests.refl _
  | succ fuel ih =>
    refine rests_bind (rests_bind rests_sendMessage fun _ => ?_) fun csts => ?_
    · refine Effect.Keeps.attempt Rests.refl ?_
      intro driver csts after ran
      split at ran
      · contradiction
      · cases ran
        exact ⟨rfl, rfl⟩
    · split
      · exact Effect.Keeps.fail Rests.refl _
      · split
        · exact rests_pure _
        · exact ih

theorem rests_disableController : Effect.Keeps Rests disableController := by
  refine rests_bind (Effect.Keeps.modify fun _ => ⟨rfl, rfl⟩) fun _ => ?_
  refine rests_bind (Effect.Keeps.read Rests.refl _) fun ctrlConfig => ?_
  exact rests_bind (rests_writeRegister _ _) fun _ => rests_waitReady false

theorem rests_readCap : Effect.Keeps Rests readCap :=
  rests_bind rests_sendMessage fun _ => Effect.Keeps.read Rests.refl _

theorem rests_enableController : Effect.Keeps Rests enableController := by
  refine rests_bind rests_readCap fun cap => ?_
  refine rests_bind (Effect.Keeps.modify fun _ => ⟨rfl, rfl⟩) fun _ => ?_
  split
  · exact Effect.Keeps.fail Rests.refl _
  · refine rests_bind (Effect.Keeps.modify fun _ => ⟨rfl, rfl⟩) fun _ => ?_
    exact rests_bind (rests_writeRegister _ _) fun _ => rests_waitReady true

/-- Setting up the admin queue. -/
theorem setupAdminQueue_ok (ok : setupAdminQueue.run driver = (.ok (), after)) :
    after.queues.length = driver.queues.length ∧ after.standing = { driver.standing with
      queueCount := driver.queueCount + 1
      onlineQueues := driver.onlineQueues + 1
      initialised := driver.initialised ++ [0]
      rings := after.standing.rings } := by
  obtain ⟨_, disabled, disableOk, allocatedOk⟩ := Effect.bind_ok.mp ok
  obtain ⟨_, allocated, allocateOk, foundOk⟩ := Effect.bind_ok.mp allocatedOk
  obtain ⟨nvmeq, found, findOk, aqaOk⟩ := Effect.bind_ok.mp foundOk
  obtain ⟨_, aqa, aqaWritten, asqOk⟩ := Effect.bind_ok.mp aqaOk
  obtain ⟨_, asq, asqWritten, acqOk⟩ := Effect.bind_ok.mp asqOk
  obtain ⟨_, acq, acqWritten, enabledOk⟩ := Effect.bind_ok.mp acqOk
  obtain ⟨_, enabled, enableOk, initOk⟩ := Effect.bind_ok.mp enabledOk
  have before := rests_of rests_disableController disableOk
  have front := beyond_allocateQueue 32 (le_refl 0) disabled
  rw [allocateOk] at front
  have counted := (allocateQueue_ok allocateOk).1
  have written := ((rests_of (rests_queue 0) findOk).trans (rests_of (rests_writeRegister _ _)
    aqaWritten)).trans ((rests_of (rests_writeRegister _ _) asqWritten).trans
      (rests_of (rests_writeRegister _ _) acqWritten))
  have ready := written.trans (rests_of rests_enableController enableOk)
  have beyond := ((before.beyond 0).trans front).trans (ready.beyond 0)
  have stands := initQueue_ok initOk
  have rings := congrArg Standing.rings stands
  have size := congrArg List.length rings
  simp only [standing, List.length_map] at size
  have more : enabled.queueCount = driver.queueCount + 1 := by
    have first : disabled.queueCount = driver.queueCount := congrArg Standing.queueCount before.1
    have last : enabled.queueCount = allocated.queueCount := congrArg Standing.queueCount ready.1
    rw [last, counted, first]
  have online := congrArg Standing.onlineQueues beyond.rest
  have initialised := congrArg Standing.initialised beyond.rest
  simp only [standing] at online initialised
  refine ⟨size.trans beyond.size, ?_⟩
  rw [rings, stands, beyond.rest, more, online, initialised]

/-- A buffer is taken for one command. -/
theorem exchange_ok {cmd : NVMeCommand} {len status : Nat}
    (short : ∀ buf, ¬NeedsList buf len)
    (ok : (allocatePages .buffer len >>= fun buf => submitSyncCommand 0 cmd buf len >>= fun reply =>
      free ⟨.buffer, ⟨buf, len⟩⟩ len >>= fun _ => (pure reply.status : Drive Nat)).run driver =
        (.ok status, after)) :
    ∃ reply rest answered, driver.script.replies = reply :: rest ∧
      after.standing = { driver.standing with replies := rest, answered := answered } := by
  obtain ⟨buf, taken, takeOk, sentOk⟩ := Effect.bind_ok.mp ok
  obtain ⟨reply, sent, submitOk, freedOk⟩ := Effect.bind_ok.mp sentOk
  obtain ⟨_, freed, freeOk, returnOk⟩ := Effect.bind_ok.mp freedOk
  cases returnOk
  have before := (rests_of (rests_allocate _ _ _) takeOk).1
  obtain ⟨rest, id, described, replies, -, stands⟩ := submitSyncCommand_ok (short buf) submitOk
  have behind := (rests_of (rests_free _ _) freeOk).1
  refine ⟨reply, rest, taken.answered ++ [(described, reply)], ?_, ?_⟩
  · rw [← replies]
    exact (congrArg Standing.replies before).symm
  · rw [behind, stands, before]

/-- A page needs no list. -/
theorem short_page (buf : Nat) : ¬NeedsList buf 4096 := by
  have offset : buf % 4096 < 4096 := Nat.mod_lt buf (by decide)
  have small : u64 (buf % 4096 + 4096) < 4096 * 2 := by
    unfold u64
    omega
  exact Nat.not_lt_of_ge (Nat.le_of_lt small)

/-- Identifying the controller. -/
theorem identifyController_ok {status : Nat}
    (ok : identifyController.run driver = (.ok status, after)) :
    ∃ reply rest answered, driver.script.replies = reply :: rest ∧
      after.standing = { driver.standing with replies := rest, answered := answered } :=
  exchange_ok short_page ok

/-- Handing over the shadow doorbells. -/
theorem configDoorbells_ok (ok : configDoorbells.run driver = (.ok (), after)) (first : Nat) :
    Made first 0 driver after := by
  have same : Made first 0 driver driver :=
    ⟨rfl, rfl, (List.append_nil _).symm, List.Subset.refl _, fun index low high => by omega⟩
  obtain ⟨dbbufDbs, looked, readOk, configOk⟩ := Effect.bind_ok.mp ok
  cases readOk
  split at configOk
  · obtain ⟨page, again, readOk, sentOk⟩ := Effect.bind_ok.mp configOk
    cases readOk
    obtain ⟨reply, sent, submitOk, returnOk⟩ := Effect.bind_ok.mp sentOk
    split at returnOk
    · cases returnOk
    · cases returnOk
      obtain ⟨rest, id, replies, stands⟩ := plainCommand_ok submitOk
      have rings := congrArg Standing.rings stands
      have allocated := congrArg Standing.queueCount stands
      have initialised := congrArg Standing.initialised stands
      have answered := congrArg Standing.answered stands
      simp only [standing] at initialised answered
      refine ⟨rings, allocated, initialised.trans same.initialised, ?_, fun index low high => by omega⟩
      rw [answered]
      exact List.subset_append_left _ _
  · cases configOk
    exact same

/-- Number of I/O queues that are asked for, by the number of queues and the device's answer. -/
def wanted (size : Nat) (features : Reply) : Int :=
  min (toInt (u32 (size + (2 ^ 32 - 1)))) (granted features.result)

/-- The I/O queues that were created have rings of the negotiated depth. -/
theorem setupIoQueues_ok (allocated : driver.queueCount = 1) (online : driver.onlineQueues = 1)
    (ok : setupIoQueues.run driver = (.ok (), after)) :
    ∃ features rest, driver.script.replies = features :: rest ∧
      let count := created (wanted driver.queues.length features).toNat rest
      after.queues.length = driver.queues.length ∧ count < after.queueCount ∧
      after.initialised = driver.initialised ++ List.range' 1 count ∧
      ∀ index, 1 ≤ index → index < 1 + count →
        ∃ ring, after.standing.rings[index]? = some ring ∧
          ring.depth = (driver.queueDepth % 2 ^ 32).toNat ∧
          Agreed after.answered (createCqCommand index ring) ∧
          Agreed after.answered (createSqCommand index ring) := by
  obtain ⟨size, looked, readOk, countOk⟩ := Effect.bind_ok.mp ok
  cases readOk
  obtain ⟨nrIoQueues, counted, setOk, allocatedOk⟩ := Effect.bind_ok.mp countOk
  obtain ⟨features, rest, answered, replies, stands, fewer⟩ := setQueueCount_ok setOk
  split at allocatedOk
  · cases allocatedOk
  rename_i nonzero
  obtain ⟨queueCount, countRead, countOk, depthOk⟩ := Effect.bind_ok.mp allocatedOk
  cases countOk
  obtain ⟨queueDepth, depthRead, readOk, loopOk⟩ := Effect.bind_ok.mp depthOk
  cases readOk
  obtain ⟨_, filled, fillOk, restOk⟩ := Effect.bind_ok.mp loopOk
  obtain ⟨total, totalRead, totalOk, restOk⟩ := Effect.bind_ok.mp restOk
  cases totalOk
  obtain ⟨onlineQueues, onlineRead, onlineOk, createOk⟩ := Effect.bind_ok.mp restOk
  cases onlineOk
  have asked : nrIoQueues = wanted driver.queues.length features := fewer nonzero
  have one : counted.queueCount = 1 :=
    (congrArg Standing.queueCount stands).trans allocated
  have number : (nrIoQueues - (1 : Nat) + 1).toNat = nrIoQueues.toNat := by omega
  rw [one, number] at fillOk
  obtain ⟨beyond, grown, each⟩ := allocateQueues_ok fillOk
  have small : nrIoQueues < 2 ^ 31 := by
    have below : nrIoQueues ≤ toInt (u32 (driver.queues.length + (2 ^ 32 - 1))) := by
      rw [asked]
      exact min_le_left _ _
    have limit : toInt (u32 (driver.queues.length + (2 ^ 32 - 1))) < 2 ^ 31 := by
      have bound : u32 (driver.queues.length + (2 ^ 32 - 1)) < 2 ^ 32 := Nat.mod_lt _ (by decide)
      unfold toInt
      split <;> omega
    omega
  have still : filled.onlineQueues = 1 := by
    have kept := congrArg Standing.onlineQueues beyond.rest
    exact kept.trans ((congrArg Standing.onlineQueues stands).trans online)
  have loop : min (filled.queueCount - 1) (nrIoQueues % 2 ^ 64).toNat + 1 - filled.onlineQueues =
      nrIoQueues.toNat := by
    omega
  change (createQueues filled.onlineQueues (min (filled.queueCount - 1) (nrIoQueues % 2 ^ 64).toNat +
    1 - filled.onlineQueues)).run filled = _ at createOk
  rw [loop, still] at createOk
  have made := createQueues_ok createOk
  have left : filled.script.replies = rest :=
    (congrArg Standing.replies beyond.rest).trans (congrArg Standing.replies stands)
  have initialised : filled.initialised = driver.initialised :=
    (congrArg Standing.initialised beyond.rest).trans (congrArg Standing.initialised stands)
  have depth : counted.queueDepth = driver.queueDepth := congrArg Standing.queueDepth stands
  have within := created_le (wanted driver.queues.length features).toNat rest
  have size : after.queues.length = driver.queues.length := by
    have front := congrArg (fun standing : Standing => standing.rings.length) stands
    have back := congrArg List.length made.rings
    simp only [standing, List.length_map] at front back
    rw [back, beyond.size, front]
  rw [left, asked] at made
  rw [asked] at each grown
  have more : created (wanted driver.queues.length features).toNat rest < after.queueCount := by
    rw [made.allocated, grown, one, Nat.add_comm]
    exact Nat.lt_succ_of_le within
  refine ⟨features, rest, replies, size, more, made.initialised.trans (by rw [initialised]), ?_⟩
  intro index low high
  obtain ⟨ring, found, cq, sq⟩ := made.agreed index low high
  obtain ⟨other, there, sized⟩ :=
    each index low (Nat.lt_of_lt_of_le high (Nat.add_le_add_left within 1))
  have same : some ring = some other := found.symm.trans ((congrArg (·[index]?) made.rings).trans there)
  obtain rfl := Option.some.inj same
  exact ⟨ring, found, sized.trans (by rw [depth]), cq, sq⟩

/-- Creating the queues of a driver that has none. -/
theorem reset_ok (ok : reset.run driver = (.ok (), after))
    (fresh : driver.queueCount = 0 ∧ driver.onlineQueues = 0 ∧ driver.initialised = []) :
    ∃ identified features rest, driver.script.replies = identified :: features :: rest ∧
      let count := created (wanted driver.queues.length features).toNat rest
      after.queues.length = driver.queues.length ∧ count < after.queueCount ∧
      after.initialised = List.range' 0 (count + 1) ∧
      ∀ index, 1 ≤ index → index < 1 + count →
        ∃ ring, after.standing.rings[index]? = some ring ∧
          ring.depth = (negotiatedDepth driver.script.cap driver.ioQueueDepth % 2 ^ 32).toNat ∧
          Agreed after.answered (createCqCommand index ring) ∧
          Agreed after.answered (createSqCommand index ring) := by
  obtain ⟨queueCount, onlineQueues, initialised⟩ := fresh
  obtain ⟨cap, read, capOk, setOk⟩ := Effect.bind_ok.mp ok
  obtain ⟨_, sent, sendOk, readOk⟩ := Effect.bind_ok.mp capOk
  cases readOk
  obtain ⟨-, rfl⟩ := sendMessage_ok.mp sendOk
  obtain ⟨_, set, assignOk, adminOk⟩ := Effect.bind_ok.mp setOk
  cases assignOk
  obtain ⟨_, admin, setupOk, identifiedOk⟩ := Effect.bind_ok.mp adminOk
  obtain ⟨size, stands⟩ := setupAdminQueue_ok setupOk
  obtain ⟨status, known, identifyOk, ioOk⟩ := Effect.bind_ok.mp identifiedOk
  obtain ⟨identified, rest, answered, replies, same⟩ := identifyController_ok identifyOk
  obtain ⟨_, made, makeOk, configOk⟩ := Effect.bind_ok.mp ioOk
  have first := congrArg Standing.replies stands
  simp only [standing] at first
  rw [stands] at same
  have one : known.queueCount = 1 := by
    have one := congrArg Standing.queueCount same
    exact one.trans (by rw [queueCount])
  have online : known.onlineQueues = 1 := by
    have one := congrArg Standing.onlineQueues same
    exact one.trans (by rw [onlineQueues])
  have listed : known.initialised = [0] := by
    have one := congrArg Standing.initialised same
    exact one.trans (by rw [initialised]; rfl)
  have depth : known.queueDepth = negotiatedDepth driver.script.cap driver.ioQueueDepth :=
    congrArg Standing.queueDepth same
  have behind := congrArg Standing.replies same
  have number := congrArg (fun standing : Standing => standing.rings.length) same
  simp only [standing, List.length_map] at behind number
  obtain ⟨features, later, answers, sizeIo, more, initialisedIo, each⟩ := setupIoQueues_ok one online makeOk
  have last := configDoorbells_ok configOk 1
  rw [number, size] at sizeIo more initialisedIo each
  rw [first] at replies
  rw [behind] at answers
  subst answers
  have sized := congrArg List.length last.rings
  simp only [standing, List.length_map] at sized
  refine ⟨identified, features, later, replies, sized.trans sizeIo, last.allocated ▸ more, ?_,
    fun index low high => ?_⟩
  · rw [last.initialised, initialisedIo, listed, List.append_assoc, List.range'_zero, List.append_nil,
      List.range'_succ, List.singleton_append]
  · obtain ⟨ring, found, sized, cq, sq⟩ := each index low high
    have still : after.standing.rings[index]? = some ring := by
      rw [last.rings]
      exact found
    rw [depth] at sized
    exact ⟨ring, still, sized, cq.mono last.answered, sq.mono last.answered⟩

/-- `start` creates the queues of a driver that has none. -/
theorem start_ok (ok : start.run driver = (.ok (), after)) (none : driver.queues = [])
    (fresh : driver.queueCount = 0 ∧ driver.onlineQueues = 0 ∧ driver.initialised = []) :
    ∃ identified features rest, driver.script.replies = identified :: features :: rest ∧
      let count := created (wanted (u32 (driver.ncpus + 1)) features).toNat rest
      after.queues.length = u32 (driver.ncpus + 1) ∧ count < after.queueCount ∧
      after.initialised = List.range' 0 (count + 1) ∧
      ∀ index, 1 ≤ index → index < 1 + count →
        ∃ ring, after.standing.rings[index]? = some ring ∧
          ring.depth = (negotiatedDepth driver.script.cap driver.ioQueueDepth % 2 ^ 32).toNat ∧
          Agreed after.answered (createCqCommand index ring) ∧
          Agreed after.answered (createSqCommand index ring) := by
  obtain ⟨_, sent, sendOk, readyOk⟩ := Effect.bind_ok.mp ok
  obtain ⟨ready, looked, readOk, restOk⟩ := Effect.bind_ok.mp readyOk
  cases readOk
  obtain ⟨-, rfl⟩ := sendMessage_ok.mp sendOk
  split at restOk
  case isFalse => cases restOk
  obtain ⟨_, sized, sizeOk, resetOk⟩ := Effect.bind_ok.mp restOk
  cases sizeOk
  have size : (driver.queues ++ List.replicate (u32 (driver.ncpus + 1)) NVMeQueue.blank).length =
      u32 (driver.ncpus + 1) := by
    rw [none, List.nil_append, List.length_replicate]
  have made := reset_ok resetOk fresh
  rw [size] at made
  exact made

/-! ## Live queues -/

/-- The device was told of a ring of a queue, its number of entries and its interrupt vector or
completion queue, and agreed. -/
def Told (answered : List (NVMeCommand × Reply)) (opcode tid depth addr : Nat) : Prop :=
  ∃ cmd reply, (cmd, reply) ∈ answered ∧ reply.status = 0 ∧ cmd.opcode = opcode ∧
    cmd.prp1 = addr ∧ cmd.cdw10 % 2 ^ 16 = tid ∧ cmd.cdw10 / 2 ^ 16 + 1 = depth ∧
    cmd.cdw11 / 2 ^ 16 = tid

/-- The queue of a thread has its own memory and doorbell, and the device knows it. -/
structure Usable (driver : NVMeDriver) (tid : Nat) (nvmeq : NVMeQueue) : Prop where
  /-- It has slots. -/
  positive : 0 < nvmeq.depth
  /-- The submission queue memory is live. -/
  sq : ∃ len, ⟨.submissionQueue tid, ⟨nvmeq.sqDmaAddr, len⟩⟩ ∈ driver.blocks ∧ nvmeq.depth * 64 ≤ len
  /-- The completion queue memory is live. -/
  cq : ∃ len, ⟨.completionQueue tid, ⟨nvmeq.cqDmaAddr, len⟩⟩ ∈ driver.blocks ∧
    nvmeq.depth * cqeSize ≤ len
  /-- Its doorbell register. -/
  qDb : nvmeq.qDb = u32 (nvmeRegDbs + tid * 8 * driver.dbStride)
  /-- `init_queue` was called for it. -/
  initialised : tid ∈ driver.initialised
  /-- Create CQ. -/
  cqTold : Told driver.answered 0x05 tid nvmeq.depth nvmeq.cqDmaAddr
  /-- Create SQ. -/
  sqTold : Told driver.answered 0x01 tid nvmeq.depth nvmeq.sqDmaAddr

/-- A thread has a live queue. -/
def Live (driver : NVMeDriver) (tid : Nat) : Prop :=
  ∃ nvmeq, driver.queues[tid]? = some nvmeq ∧ driver.Usable tid nvmeq

/-- Two 16-bit fields of a command. -/
theorem fields_or {low : Nat} (high : Nat) (small : low < 2 ^ 16) :
    (low ||| high <<< 16) % 2 ^ 16 = low ∧ (low ||| high <<< 16) / 2 ^ 16 = high := by
  have sum : low ||| high <<< 16 = high * 2 ^ 16 + low := by
    rw [Nat.or_comm, ← Nat.shiftLeft_add_eq_or_of_lt small, Nat.shiftLeft_eq]
  rw [sum]
  omega

/-- What a command that creates a ring tells the device. -/
theorem told_of_agreed {answered : List (NVMeCommand × Reply)} {cmd : NVMeCommand}
    {opcode tid depth addr : Nat} (agreed : Agreed answered cmd) (kind : cmd.opcode = opcode)
    (prp1 : cmd.prp1 = addr) (cdw10 : cmd.cdw10 = u16 tid ||| u16 (depth + (2 ^ 32 - 1)) <<< 16)
    (cdw11 : cmd.cdw11 = 1 ||| u16 tid <<< 16) (positive : 0 < depth) (narrow : depth ≤ 2 ^ 16)
    (numbered : tid < 2 ^ 16) : Told answered opcode tid depth addr := by
  obtain ⟨id, reply, sent, success⟩ := agreed
  have same : u16 tid = tid := Nat.mod_eq_of_lt numbered
  have entries : u16 (depth + (2 ^ 32 - 1)) = depth - 1 := by
    unfold u16
    omega
  have small : u16 tid < 2 ^ 16 := Nat.mod_lt _ (by decide)
  have left := fields_or (u16 (depth + (2 ^ 32 - 1))) small
  have right := fields_or (u16 tid) (show 1 < 2 ^ 16 by decide)
  rw [← cdw10, same, entries] at left
  rw [← cdw11, same] at right
  exact ⟨_, reply, sent, success, kind, prp1, left.1, by rw [left.2]; omega, right.2⟩

/-- The constructor leaves the standing alone. -/
theorem rests_construct (useDbbuf : Bool) : Effect.Keeps Rests (construct useDbbuf) := by
  unfold construct
  split
  · refine rests_bind (rests_allocate _ _ _) fun dbbufDbs => ?_
    exact rests_bind (Effect.Keeps.modify fun _ => ⟨rfl, rfl⟩) fun _ => rests_memset _ _ _ _
  · exact rests_pure _

/-- A thread is accepted when there is a queue object for it. -/
theorem setThreadId_ok {tid : Nat} :
    (setThreadId tid).run driver = (.ok tid, driver) ↔ tid < driver.queues.length := by
  unfold setThreadId
  rw [Effect.bind_run, Effect.read_run]
  by_cases below : tid < driver.queues.length
  · simp [below]
  · simp [below]

/-- A negotiated depth for which there is memory is that of a 16-bit ring. -/
theorem negotiated_narrow {cap ioQueueDepth : Nat}
    (short : (negotiatedDepth cap ioQueueDepth % 2 ^ 32).toNat < 2 ^ 31) :
    (negotiatedDepth cap ioQueueDepth % 2 ^ 32).toNat ≤ 2 ^ 16 ∧
      (0 < (negotiatedDepth cap ioQueueDepth % 2 ^ 32).toNat ↔ toInt ioQueueDepth ≠ 0) := by
  unfold negotiatedDepth toInt at *
  split at short
  · rename_i signed
    rw [if_pos signed]
    omega
  · rename_i signed
    rw [if_neg signed]
    omega

/-- A ring in memory has few entries. -/
theorem Ready.short {layout : Layout} (orderly : Orderly layout driver) {index : Nat}
    {nvmeq : NVMeQueue} (ready : Ready layout driver.blocks index nvmeq) : nvmeq.depth < 2 ^ 31 := by
  obtain ⟨len, live, fits⟩ := ready.cq
  have bounded := orderly.bounded live
  have addressable := layout.region.addressable
  simp only [Extent.stop] at bounded
  simp only [cqeSize] at fits
  omega

/-- A queue of the negotiated depth that the device agreed to is live in an orderly driver, unless it
has no entries. -/
theorem live_of_agreed {layout : Layout} (orderly : Orderly layout driver) {tid : Nat} {ring : Ring}
    (found : driver.standing.rings[tid]? = some ring) (allocated : tid < driver.queueCount)
    (initialised : tid ∈ driver.initialised) {cap ioQueueDepth : Nat}
    (depth : ring.depth = (negotiatedDepth cap ioQueueDepth % 2 ^ 32).toNat) (numbered : tid < 2 ^ 16)
    (cq : Agreed driver.answered (createCqCommand tid ring))
    (sq : Agreed driver.answered (createSqCommand tid ring)) :
    driver.Live tid ↔ toInt ioQueueDepth ≠ 0 := by
  simp only [standing, List.getElem?_map, Option.map_eq_some_iff] at found
  obtain ⟨nvmeq, found, rfl⟩ := found
  have ready := orderly.ready (orderly.count ▸ allocated) found
  have short := Ready.short orderly ready
  have same : nvmeq.depth = (negotiatedDepth cap ioQueueDepth % 2 ^ 32).toNat := depth
  obtain ⟨narrow, nonzero⟩ := negotiated_narrow (same ▸ short)
  rw [← same] at narrow nonzero
  rw [← nonzero]
  constructor
  · rintro ⟨other, held, usable⟩
    obtain rfl := Option.some.inj (found.symm.trans held)
    exact usable.positive
  intro positive
  exact ⟨nvmeq, found, {
    positive := positive
    sq := ready.sq
    cq := ready.cq
    qDb := by rw [ready.qDb, orderly.stride]
    initialised := initialised
    cqTold := told_of_agreed cq rfl rfl rfl rfl positive narrow numbered
    sqTold := told_of_agreed sq rfl rfl rfl rfl positive narrow numbered }⟩

/-- A device that grants two queues and refuses the second completion queue. -/
def refusing : Script :=
  ⟨[], true, 3, [0, 1], [⟨0, 0⟩, ⟨0, 0x10001⟩, ⟨0, 0⟩, ⟨0, 0⟩, ⟨1, 0⟩]⟩

end NVMeDriver

end McmqHost
