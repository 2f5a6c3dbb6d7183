import McmqHost.Base.Bytes
import McmqHost.Base.Ring
import McmqHost.MemorySpace.Mapping

/-!
# Queue pairs

An `NVMeQueue` names the rings in device memory, the driver's positions in them and the
doorbells that announce those positions. The functions below are the queue operations of
`nvme_driver.cpp`; they touch one queue, the memory space and the link's register writes.
-/

namespace McmqHost

/-- `NVME_REG_DBS`. -/
def nvmeRegDbs : Nat := 0x1000

/-- `NVME_ADM_SQES` and `NVME_NVM_IOSQES`, the logarithm of the size of a command. -/
def nvmeSqes : Nat := 6

/-- `sizeof(NVMeCompletion)`. -/
def cqeSize : Nat := 16

/-- `NVMeDriver::NVMeQueue`. -/
structure NVMeQueue where
  /-- Submission queue memory. -/
  sqDmaAddr : Nat
  /-- Completion queue memory. -/
  cqDmaAddr : Nat
  /-- Shadow doorbell of the submission queue, or zero. -/
  dbbufSqDb : Nat
  /-- Shadow doorbell of the completion queue, or zero. -/
  dbbufCqDb : Nat
  /-- Entries of each ring. -/
  depth : Nat
  /-- Logarithm of the size of a command. -/
  sqeShift : Nat
  /-- Queue number. -/
  qid : Nat
  /-- Slot of the next command. -/
  sqTail : Nat
  /-- Tail that was announced last. -/
  lastSqTail : Nat
  /-- Slot of the next completion. -/
  cqHead : Nat
  /-- Phase bit of the next completion. -/
  cqPhase : Nat
  /-- Doorbell register. -/
  qDb : Nat
deriving DecidableEq, Repr

/-- `std::make_unique<NVMeQueue>()`. -/
def NVMeQueue.blank : NVMeQueue := ⟨0, 0, 0, 0, 0, 0, 0, 0, 0, 0, 0, 0⟩

/-- The fields that `allocate_queue` sets. -/
def NVMeQueue.place (nvmeq : NVMeQueue) (qid depth dbStride sq cq : Nat) : NVMeQueue :=
  { nvmeq with
    sqeShift := nvmeSqes
    depth := depth
    sqDmaAddr := sq
    cqDmaAddr := cq
    qid := u16 qid
    qDb := u32 (nvmeRegDbs + qid * 8 * dbStride)
    cqPhase := 1
    cqHead := 0 }

/-- The fields that `init_queue` sets. -/
def NVMeQueue.restart (nvmeq : NVMeQueue) (qid dbStride dbbufDbs : Nat) : NVMeQueue :=
  { nvmeq with
    sqTail := 0
    lastSqTail := 0
    cqHead := 0
    qDb := u32 (nvmeRegDbs + qid * 8 * dbStride)
    cqPhase := 1
    dbbufSqDb := if dbbufDbs ≠ 0 ∧ qid ≠ 0 then u32 (dbbufDbs + qid * 8 * dbStride)
      else nvmeq.dbbufSqDb
    dbbufCqDb := if dbbufDbs ≠ 0 ∧ qid ≠ 0 then u32 (dbbufDbs + qid * 8 * dbStride + 4 * dbStride)
      else nvmeq.dbbufCqDb }

/-- `NVMeQueue::update_cq_head`. -/
def NVMeQueue.updateCqHead (nvmeq : NVMeQueue) : NVMeQueue :=
  if u16 (nvmeq.cqHead + 1) = nvmeq.depth then
    { nvmeq with cqHead := 0, cqPhase := nvmeq.cqPhase ^^^ 1 }
  else { nvmeq with cqHead := u16 (nvmeq.cqHead + 1) }

/-- The tail after one more command, as both `submit_sq_command` and `write_sq_doorbell` compute
it. -/
def NVMeQueue.nextTail (nvmeq : NVMeQueue) : Nat :=
  if u16 (nvmeq.sqTail + 1) = nvmeq.depth then 0 else u16 (nvmeq.sqTail + 1)

/-- The conversion of an `unsigned int` to `int`. -/
def toInt (value : Nat) : Int := if value < 2 ^ 31 then value else value - 2 ^ 32

/-- The `queue_depth` that `NVMeDriver::reset` computes from the capability register. -/
def negotiatedDepth (ctrlCap ioQueueDepth : Nat) : Int :=
  min ((ctrlCap % 2 ^ 16 + 1 : Nat) : Int) (toInt ioQueueDepth)

/-- A queue with the memory space and the link that its operations use. -/
structure QueuePort where
  /-- The memory space. -/
  space : MemorySpace
  /-- The queue. -/
  nvmeq : NVMeQueue
  /-- Register writes on the link, in order. -/
  writes : List (Nat × Nat)

namespace QueuePort

/-- `NVMeDriver::allocate_queue`. -/
def allocateQueue (port : QueuePort) (qid depth dbStride : Nat) : Except Fault QueuePort := do
  let (sq, withSq) ← port.space.allocatePages (u32 (depth <<< nvmeSqes))
  let (cq, withCq) ← withSq.allocatePages (depth * cqeSize)
  pure { port with space := withCq, nvmeq := port.nvmeq.place qid depth dbStride sq cq }

/-- `NVMeDriver::init_queue`. -/
def initQueue (port : QueuePort) (qid dbStride dbbufDbs : Nat) : Except Fault QueuePort := do
  let space ← port.space.memset port.nvmeq.cqDmaAddr 0 (port.nvmeq.depth * cqeSize)
  pure { port with space := space, nvmeq := port.nvmeq.restart qid dbStride dbbufDbs }

/-- Announce a ring position through the shadow doorbell, when there is one, or the register. -/
def announce (port : QueuePort) (shadow register value : Nat) : Except Fault QueuePort :=
  if shadow ≠ 0 then do
    let space ← port.space.write shadow (leBytes 4 value)
    pure { port with space := space }
  else pure { port with writes := port.writes ++ [(register, value)] }

/-- `NVMeDriver::write_sq_doorbell`. -/
def writeSqDoorbell (port : QueuePort) (writeSq : Bool) : Except Fault QueuePort :=
  if !writeSq && port.nvmeq.nextTail != port.nvmeq.lastSqTail then pure port
  else do
    let rung ← port.announce port.nvmeq.dbbufSqDb port.nvmeq.qDb port.nvmeq.sqTail
    pure { rung with nvmeq := { rung.nvmeq with lastSqTail := rung.nvmeq.sqTail } }

/-- `NVMeDriver::ring_cq_doorbell`. -/
def ringCqDoorbell (port : QueuePort) (dbStride : Nat) : Except Fault QueuePort :=
  port.announce port.nvmeq.dbbufCqDb (u32 (port.nvmeq.qDb + 4 * dbStride)) port.nvmeq.cqHead

/-- `NVMeDriver::submit_sq_command`. -/
def submitSqCommand (port : QueuePort) (cmd : List UInt8) (writeSq : Bool) :
    Except Fault QueuePort := do
  let space ← port.space.write
    (u32 (port.nvmeq.sqDmaAddr + port.nvmeq.sqTail <<< port.nvmeq.sqeShift)) cmd
  let moved : QueuePort :=
    { port with space := space, nvmeq := { port.nvmeq with sqTail := port.nvmeq.nextTail } }
  moved.writeSqDoorbell writeSq

/-- `NVMeDriver::cqe_pending`. -/
def cqePending (port : QueuePort) : Except Fault Bool := do
  if port.nvmeq.cqHead < port.nvmeq.depth then
    let status ← port.space.read
      (u32 (port.nvmeq.cqDmaAddr + (port.nvmeq.cqHead * cqeSize + 14))) 2
    pure (leValue status % 2 = port.nvmeq.cqPhase)
  else throw .assertion

/-- The entry that `NVMeDriver::handle_cqe` reads. -/
def readCqe (port : QueuePort) (idx : Nat) : Except Fault (List UInt8) :=
  if idx < port.nvmeq.depth then port.space.read (u32 (port.nvmeq.cqDmaAddr + idx * cqeSize)) cqeSize
  else throw .assertion

variable {port after : QueuePort}

/-- Announcing a position changes at most the contents of memory. -/
theorem frame_announce {shadow register value : Nat}
    (ok : port.announce shadow register value = .ok after) : after.space.SameFrame port.space := by
  unfold announce at ok
  split at ok
  · obtain ⟨space, wrote, ok⟩ := bind_ok.mp ok
    obtain rfl := Except.ok.inj ok
    exact MemorySpace.frame_write wrote
  · obtain rfl := Except.ok.inj ok
    exact .refl _

theorem frame_writeSqDoorbell {writeSq : Bool} (ok : port.writeSqDoorbell writeSq = .ok after) :
    after.space.SameFrame port.space := by
  unfold writeSqDoorbell at ok
  split at ok
  · obtain rfl := Except.ok.inj ok
    exact .refl _
  · obtain ⟨rung, announced, ok⟩ := bind_ok.mp ok
    obtain rfl := Except.ok.inj ok
    have kept := frame_announce announced
    exact kept

/-- Submitting a command changes at most the contents of memory. -/
theorem frame_submitSqCommand {cmd : List UInt8} {writeSq : Bool}
    (ok : port.submitSqCommand cmd writeSq = .ok after) : after.space.SameFrame port.space := by
  obtain ⟨space, wrote, ok⟩ := bind_ok.mp ok
  exact (frame_writeSqDoorbell ok).trans (MemorySpace.frame_write wrote)

/-- Announcing a position leaves the queue as it was; without a shadow doorbell it is a register
write. -/
theorem announce_ok {shadow register value : Nat}
    (ok : port.announce shadow register value = .ok after) :
    after.nvmeq = port.nvmeq ∧ (shadow = 0 → after.writes = port.writes ++ [(register, value)]) := by
  unfold announce at ok
  split at ok
  · rename_i shadowed
    obtain ⟨space, -, ok⟩ := bind_ok.mp ok
    obtain rfl := Except.ok.inj ok
    exact ⟨rfl, fun none => absurd none shadowed⟩
  · obtain rfl := Except.ok.inj ok
    exact ⟨rfl, fun _ => rfl⟩

/-- With a shadow doorbell the position is in its word, and no register is written. -/
theorem announce_shadow {shadow register value doorbell : Nat} (present : shadow ≠ 0)
    (mapped : port.space.translate shadow 4 = .ok doorbell)
    (ok : port.announce shadow register value = .ok after) :
    after.writes = port.writes ∧ after.space.peek doorbell 4 = leBytes 4 value := by
  have length : (leBytes 4 value).length = 4 := length_leBytes 4 value
  rw [announce, if_pos present] at ok
  obtain ⟨space, wrote, ok⟩ := bind_ok.mp ok
  cases ok
  rw [← length] at mapped
  have word := MemorySpace.peek_written mapped wrote
  rw [length] at word
  exact ⟨rfl, word⟩

/-- What `submit_sq_command` does to the queue and the doorbell register when it announces. -/
theorem submitSqCommand_ok {cmd : List UInt8} (ok : port.submitSqCommand cmd true = .ok after) :
    after.nvmeq = { port.nvmeq with
      sqTail := port.nvmeq.nextTail, lastSqTail := port.nvmeq.nextTail } ∧
    (port.nvmeq.dbbufSqDb = 0 →
      after.writes = port.writes ++ [(port.nvmeq.qDb, port.nvmeq.nextTail)]) := by
  obtain ⟨space, wrote, ok⟩ := bind_ok.mp ok
  obtain ⟨rung, announced, ok⟩ := bind_ok.mp ok
  obtain ⟨same, written⟩ := announce_ok announced
  obtain rfl := Except.ok.inj ok
  rw [same]
  exact ⟨rfl, written⟩

/-- A command whose slot is mapped is written and announced. -/
theorem submitSqCommand_returns {cmd : List UInt8} {offset : Nat}
    (registers : port.nvmeq.dbbufSqDb = 0)
    (mapped : port.space.translate
      (u32 (port.nvmeq.sqDmaAddr + port.nvmeq.sqTail <<< port.nvmeq.sqeShift)) cmd.length =
        .ok offset) : ∃ after, port.submitSqCommand cmd true = .ok after := by
  obtain ⟨space, wrote⟩ := (MemorySpace.accesses_of_translate mapped).2.1 cmd rfl
  rw [submitSqCommand, wrote]
  simp [writeSqDoorbell, announce, registers, bind, Except.bind, pure, Except.pure]

end QueuePort

namespace NVMeQueue

/-- The tail after the command that a count numbers is the slot of the next count. -/
theorem nextTail_eq {nvmeq : NVMeQueue} {use : Nat} (positive : 0 < nvmeq.depth)
    (narrow : nvmeq.depth ≤ 2 ^ 16) (tail : nvmeq.sqTail = use % nvmeq.depth) :
    nvmeq.nextTail = (use + 1) % nvmeq.depth := by
  have below := Nat.mod_lt use positive
  rw [← Ring.next_slot positive, ← tail]
  unfold nextTail Ring.next u16
  split <;> split <;> omega

variable {nvmeq : NVMeQueue}

/-- Below the last slot the head moves to the next one. -/
theorem updateCqHead_inside (inside : nvmeq.cqHead + 1 < nvmeq.depth)
    (narrow : nvmeq.depth ≤ 2 ^ 16) :
    nvmeq.updateCqHead = { nvmeq with cqHead := nvmeq.cqHead + 1 } := by
  have next : u16 (nvmeq.cqHead + 1) = nvmeq.cqHead + 1 := Nat.mod_eq_of_lt (by omega)
  rw [updateCqHead, next, if_neg (Nat.ne_of_lt inside)]

/-- At the last slot the head wraps and the phase is inverted. -/
theorem updateCqHead_wrap (last : nvmeq.cqHead + 1 = nvmeq.depth) (narrow : nvmeq.depth < 2 ^ 16) :
    nvmeq.updateCqHead = { nvmeq with cqHead := 0, cqPhase := nvmeq.cqPhase ^^^ 1 } := by
  have next : u16 (nvmeq.cqHead + 1) = nvmeq.cqHead + 1 := Nat.mod_eq_of_lt (by omega)
  rw [updateCqHead, next, if_pos last]

/-- In a queue of 65536 entries the head wraps by itself and the phase stays. -/
theorem updateCqHead_wide (wide : nvmeq.depth = 2 ^ 16) :
    nvmeq.updateCqHead = { nvmeq with cqHead := (nvmeq.cqHead + 1) % nvmeq.depth } := by
  have below : u16 (nvmeq.cqHead + 1) < 2 ^ 16 := Nat.mod_lt _ (by decide)
  rw [updateCqHead, if_neg (by omega), wide]
  rfl

/-- Moving the head leaves the ring where it is. -/
theorem updateCqHead_frame (nvmeq : NVMeQueue) :
    nvmeq.updateCqHead.depth = nvmeq.depth ∧ nvmeq.updateCqHead.cqDmaAddr = nvmeq.cqDmaAddr ∧
      nvmeq.updateCqHead.dbbufCqDb = nvmeq.dbbufCqDb := by
  unfold updateCqHead
  split <;> exact ⟨rfl, rfl, rfl⟩

/-- The head stays in range. -/
theorem updateCqHead_lt (inside : nvmeq.cqHead < nvmeq.depth) (narrow : nvmeq.depth ≤ 2 ^ 16) :
    nvmeq.updateCqHead.cqHead < nvmeq.depth := by
  unfold updateCqHead u16
  split
  · exact Nat.zero_lt_of_lt inside
  · simp only
    omega

/-- After some entries that end below the last slot. -/
theorem updateCqHead_climb {count : Nat} (within : nvmeq.cqHead + count < nvmeq.depth)
    (narrow : nvmeq.depth ≤ 2 ^ 16) :
    updateCqHead^[count] nvmeq = { nvmeq with cqHead := nvmeq.cqHead + count } := by
  induction count with
  | zero => rfl
  | succ count ih =>
    rw [Function.iterate_succ_apply', ih (by omega)]
    exact updateCqHead_inside (by simp only; omega) narrow

/-- After some entries of which one was in the last slot. -/
theorem updateCqHead_lap {count : Nat} (inside : nvmeq.cqHead < nvmeq.depth)
    (beyond : nvmeq.depth ≤ nvmeq.cqHead + count)
    (within : nvmeq.cqHead + count < nvmeq.depth + nvmeq.depth) (narrow : nvmeq.depth < 2 ^ 16) :
    updateCqHead^[count] nvmeq = { nvmeq with
      cqHead := nvmeq.cqHead + count - nvmeq.depth, cqPhase := nvmeq.cqPhase ^^^ 1 } := by
  -- up to the last slot, past it, and on from the first
  have parts : count = (nvmeq.cqHead + count - nvmeq.depth) +
      (1 + (nvmeq.depth - 1 - nvmeq.cqHead)) := by omega
  have last : nvmeq.cqHead + (nvmeq.depth - 1 - nvmeq.cqHead) + 1 = nvmeq.depth := by omega
  have climbed : updateCqHead^[nvmeq.depth - 1 - nvmeq.cqHead] nvmeq =
      { nvmeq with cqHead := nvmeq.cqHead + (nvmeq.depth - 1 - nvmeq.cqHead) } :=
    updateCqHead_climb (by omega) (by omega)
  have wrapped : updateCqHead^[1 + (nvmeq.depth - 1 - nvmeq.cqHead)] nvmeq =
      { nvmeq with cqHead := 0, cqPhase := nvmeq.cqPhase ^^^ 1 } := by
    rw [Function.iterate_add_apply, climbed]
    exact updateCqHead_wrap last narrow
  conv_lhs => rw [parts]
  rw [Function.iterate_add_apply, wrapped, updateCqHead_climb (by simp only; omega)
    (by simp only; omega)]
  simp only [Nat.zero_add]

/-- In a queue of 65536 entries the phase never changes. -/
theorem updateCqHead_round {count : Nat} (wide : nvmeq.depth = 2 ^ 16)
    (inside : nvmeq.cqHead < nvmeq.depth) :
    updateCqHead^[count] nvmeq =
      { nvmeq with cqHead := (nvmeq.cqHead + count) % nvmeq.depth } := by
  induction count with
  | zero => rw [Nat.add_zero, Nat.mod_eq_of_lt inside, Function.iterate_zero_apply]
  | succ count ih =>
    have wideThen : ({ nvmeq with cqHead := (nvmeq.cqHead + count) % nvmeq.depth } :
      NVMeQueue).depth = 2 ^ 16 := wide
    rw [Function.iterate_succ_apply', ih, updateCqHead_wide wideThen, Nat.mod_add_mod]
    rfl

/-- Moving the head on and on leaves the ring where it is. -/
theorem iterate_frame (nvmeq : NVMeQueue) (count : Nat) :
    (updateCqHead^[count] nvmeq).depth = nvmeq.depth ∧
      (updateCqHead^[count] nvmeq).dbbufCqDb = nvmeq.dbbufCqDb := by
  induction count with
  | zero => exact ⟨rfl, rfl⟩
  | succ count ih =>
    rw [Function.iterate_succ_apply']
    obtain ⟨depth, -, shadow⟩ := (updateCqHead^[count] nvmeq).updateCqHead_frame
    exact ⟨depth.trans ih.1, shadow.trans ih.2⟩

end NVMeQueue

end McmqHost
