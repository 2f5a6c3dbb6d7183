import McmqHost.Driver.Completion
import McmqHost.Driver.ListPages

/-!
# The completion loop over any memory

Whatever the completion queue holds, each turn of `nvme_irq` either stops at its slot or moves to
the next one, and the phase bit that it waits for is inverted when the head wraps: so it stops
within one lap. A queue of 65536 entries is the exception, since the 16-bit head of
`update_cq_head` wraps to zero before it can equal the depth, and the phase stays. The commands that
complete give their list pages back, so the loop also needs room for these in the hole table.
-/

namespace McmqHost

open Extents HoleTable

/-- The fields of an entry. -/
def Cqe.ofBytes (entry : List UInt8) : Cqe where
  commandId := leValue ((entry.drop 12).take 2)
  status := leValue ((entry.drop 14).take 2)
  result := leValue (entry.take 8)

namespace NVMeDriver

/-- A queue with the memory space and the link of the driver. -/
def port (driver : NVMeDriver) (nvmeq : NVMeQueue) : QueuePort :=
  ⟨driver.space, nvmeq, driver.writes⟩

/-- `NVMeDriver::cqe_pending`. -/
def cqePending (index : Nat) : Drive Bool := do
  let nvmeq ← queue index
  call fun driver => do
    let pending ← (driver.port nvmeq).cqePending
    pure (pending, driver)

/-- `NVMeDriver::handle_cqe` of the entry in a slot. -/
def handleSlot (index idx : Nat) : Drive Unit := do
  let nvmeq ← queue index
  let entry ← call fun driver => do
    let entry ← (driver.port nvmeq).readCqe idx
    pure (entry, driver)
  handleCqe (Cqe.ofBytes entry)

/-- The loop of `NVMeDriver::nvme_irq`, which counts entries in `found`; the second argument bounds
its turns. -/
def irqLoop (index : Nat) : Nat → Nat → Drive Nat
  | 0, _ => Effect.fail .waits
  | fuel + 1, found => do
    let pending ← cqePending index
    if pending then do
      let nvmeq ← queue index
      handleSlot index nvmeq.cqHead
      updateQueue index NVMeQueue.updateCqHead
      irqLoop index fuel (found + 1)
    else pure found

/-- `NVMeDriver::nvme_irq`, which returns `found` here. -/
def irq (index fuel : Nat) : Drive Nat := do
  let found ← irqLoop index fuel 0
  if found = 0 then pure found
  else do
    ringCqDoorbell index
    pure found

end NVMeDriver

namespace QueuePort.Mapped

variable {port : QueuePort} {ring : Nat}

/-- `cqe_pending` compares the phase bit in the slot at the head. -/
theorem cqePending (mapped : port.Mapped ring) (inside : port.nvmeq.cqHead < port.nvmeq.depth) :
    port.cqePending = .ok (decide (phaseBit (port.space.peek
      (ring + port.nvmeq.cqHead * cqeSize) cqeSize) = port.nvmeq.cqPhase)) := by
  have there := mapped.slots _ inside 14 2 (by decide) (by decide)
  rw [QueuePort.cqePending, if_pos inside, MemorySpace.read_eq there, phaseBit,
    MemorySpace.drop_peek]
  rfl

/-- `handle_cqe` reads the slot that it is given. -/
theorem readCqe (mapped : port.Mapped ring) {idx : Nat} (inside : idx < port.nvmeq.depth) :
    port.readCqe idx = .ok (port.space.peek (ring + idx * cqeSize) cqeSize) := by
  rw [QueuePort.readCqe, if_pos inside, MemorySpace.read_eq (mapped.slot inside)]

end QueuePort.Mapped

/-- The bytes of a slot. -/
def slotBytes (space : MemorySpace) (ring slot : Nat) : List UInt8 :=
  space.peek (ring + slot * cqeSize) cqeSize

/-- A slot holds an entry of the phase. -/
def Pending (space : MemorySpace) (ring slot phase : Nat) : Prop :=
  phaseBit (slotBytes space ring slot) = phase

instance (space : MemorySpace) (ring slot phase : Nat) : Decidable (Pending space ring slot phase) :=
  inferInstanceAs (Decidable (_ = _))

/-- The phase bit of a slot that has the phase is not the inverted one. -/
theorem not_pending_inverted {space : MemorySpace} {ring slot phase : Nat} (bit : phase < 2)
    (pending : Pending space ring slot phase) : ¬Pending space ring slot (phase ^^^ 1) := by
  intro both
  have same := pending.symm.trans both
  obtain rfl | rfl : phase = 0 ∨ phase = 1 := by omega
  · exact absurd same (by decide)
  · exact absurd same (by decide)

/-- The entries that are pending from the head on, one slot after the other; the third argument bounds
their number. -/
def lap (space : MemorySpace) (ring : Nat) : Nat → NVMeQueue → List Cqe
  | 0, _ => []
  | count + 1, nvmeq =>
    if Pending space ring nvmeq.cqHead nvmeq.cqPhase then
      Cqe.ofBytes (slotBytes space ring nvmeq.cqHead) :: lap space ring count nvmeq.updateCqHead
    else []

section Lap

open NVMeQueue (updateCqHead)

variable {space : MemorySpace} {ring : Nat}

/-- The slots of a lap's entries are pending. -/
theorem pending_lap {count : Nat} {nvmeq : NVMeQueue} {step : Nat}
    (below : step < (lap space ring count nvmeq).length) :
    Pending space ring (updateCqHead^[step] nvmeq).cqHead (updateCqHead^[step] nvmeq).cqPhase := by
  induction count generalizing nvmeq step with
  | zero => exact absurd below (Nat.not_lt_zero _)
  | succ count ih =>
    rw [lap] at below
    split at below
    · rename_i here
      cases step with
      | zero => exact here
      | succ step =>
        rw [List.length_cons] at below
        show Pending space ring (updateCqHead^[step] nvmeq.updateCqHead).cqHead
          (updateCqHead^[step] nvmeq.updateCqHead).cqPhase
        exact ih (Nat.lt_of_succ_lt_succ below)
    · exact absurd below (Nat.not_lt_zero _)

/-- A lap that is shorter than its bound stops at a slot that is not pending. -/
theorem stop_lap {count : Nat} {nvmeq : NVMeQueue}
    (short : (lap space ring count nvmeq).length < count) :
    ¬Pending space ring (updateCqHead^[(lap space ring count nvmeq).length] nvmeq).cqHead
      (updateCqHead^[(lap space ring count nvmeq).length] nvmeq).cqPhase := by
  induction count generalizing nvmeq with
  | zero => exact absurd short (Nat.not_lt_zero _)
  | succ count ih =>
    by_cases here : Pending space ring nvmeq.cqHead nvmeq.cqPhase
    · rw [lap, if_pos here] at short ⊢
      exact ih (Nat.lt_of_succ_lt_succ short)
    · rw [lap, if_neg here]
      exact here

theorem length_lap_le (count : Nat) (nvmeq : NVMeQueue) :
    (lap space ring count nvmeq).length ≤ count := by
  induction count generalizing nvmeq with
  | zero => exact Nat.le_refl 0
  | succ count ih =>
    rw [lap]
    split
    · exact Nat.succ_le_succ (ih _)
    · exact Nat.zero_le _

/-- A lap does not look at the hole table. -/
theorem lap_table (table other : HoleTable) {map : Nat → UInt8} {mapSize iovaBase ring count : Nat}
    {nvmeq : NVMeQueue} : lap ⟨table, map, mapSize, iovaBase⟩ ring count nvmeq =
      lap ⟨other, map, mapSize, iovaBase⟩ ring count nvmeq := by
  induction count generalizing nvmeq with
  | zero => rfl
  | succ count ih =>
    rw [lap, lap, ih]
    rfl

/-- A bound that a lap does not reach does not matter. -/
theorem lap_take {count : Nat} {nvmeq : NVMeQueue} :
    lap space ring (lap space ring count nvmeq).length nvmeq = lap space ring count nvmeq := by
  induction count generalizing nvmeq with
  | zero => rfl
  | succ count ih =>
    by_cases here : Pending space ring nvmeq.cqHead nvmeq.cqPhase
    · rw [lap, if_pos here, List.length_cons, lap, if_pos here, ih]
    · rw [lap, if_neg here, List.length_nil, lap]

end Lap

namespace NVMeDriver

open NVMeQueue (updateCqHead)

/-- The loop on completion memory that does not change: of the memory space only the hole table may
be another one, and the link is as it was. -/
structure Scans (start : NVMeDriver) (ring index : Nat) (nvmeq : NVMeQueue) (driver : NVMeDriver) :
    Prop where
  /-- The memory is that of the start. -/
  memory : ∃ table, driver.space = { start.space with table := table }
  /-- So is the link. -/
  script : driver.script = start.script
  /-- The queue. -/
  found : driver.queues[index]? = some nvmeq
  /-- Its ring is mapped. -/
  mapped : (driver.port nvmeq).Mapped ring
  /-- The head is in range. -/
  head : nvmeq.cqHead < nvmeq.depth
  /-- The head has 16 bits. -/
  narrow : nvmeq.depth ≤ 2 ^ 16

namespace Scans

variable {start driver last : NVMeDriver} {ring index : Nat} {nvmeq : NVMeQueue}

/-- Slots are those of the start. -/
theorem slotBytes_eq (scans : Scans start ring index nvmeq driver) (slot : Nat) :
    slotBytes driver.space ring slot = slotBytes start.space ring slot := by
  obtain ⟨table, same⟩ := scans.memory
  rw [same]
  rfl

/-- `cqe_pending` looks at the slot at the head. -/
theorem cqePending_run (scans : Scans start ring index nvmeq driver) :
    (cqePending index).run driver =
      (.ok (decide (Pending start.space ring nvmeq.cqHead nvmeq.cqPhase)), driver) := by
  have there := scans.mapped.cqePending scans.head
  have same : decide (phaseBit (slotBytes driver.space ring nvmeq.cqHead) = nvmeq.cqPhase) =
      decide (Pending start.space ring nvmeq.cqHead nvmeq.cqPhase) := by
    rw [decide_eq_decide, scans.slotBytes_eq]
    exact Iff.rfl
  refine Effect.bind_ok.mpr ⟨nvmeq, driver, queue_ok.mpr ⟨scans.found, rfl⟩, ?_⟩
  refine call_ok.mpr (McmqHost.bind_ok.mpr ⟨_, there, ?_⟩)
  exact congrArg (fun pending => Except.ok (pending, driver)) same

/-- `handle_cqe` handles the entry at the head. -/
theorem handleSlot_run (scans : Scans start ring index nvmeq driver) :
    (handleSlot index nvmeq.cqHead).run driver =
      (handleCqe (Cqe.ofBytes (slotBytes start.space ring nvmeq.cqHead))).run driver := by
  have there := scans.mapped.readCqe scans.head
  have read : (call fun driver : NVMeDriver => do
      let entry ← (driver.port nvmeq).readCqe nvmeq.cqHead
      pure (entry, driver)).run driver =
        (.ok (slotBytes start.space ring nvmeq.cqHead), driver) := by
    refine call_ok.mpr (McmqHost.bind_ok.mpr ⟨_, there, ?_⟩)
    rw [← scans.slotBytes_eq]
    rfl
  have looked : (queue index).run driver = (.ok nvmeq, driver) := queue_ok.mpr ⟨scans.found, rfl⟩
  rw [handleSlot, Effect.bind_run, looked]
  simp only
  rw [Effect.bind_run, read]

/-- After an entry the loop goes on at the next slot. -/
theorem next (scans : Scans start ring index nvmeq driver) {cqe : Cqe} {after : NVMeDriver}
    (handled : (handleCqe cqe).run driver = (.ok (), after)) :
    Scans start ring index nvmeq.updateCqHead
      { after with queues := after.queues.modify index updateCqHead } := by
  obtain ⟨depth, ringAddr, shadow⟩ := nvmeq.updateCqHead_frame
  obtain ⟨table, same⟩ := scans.memory
  obtain ⟨left, blocks, commands, rfl⟩ := handleCqe_frees handled
  constructor
  · exact ⟨left, by rw [same]⟩
  · exact scans.script
  · show (driver.queues.modify index updateCqHead)[index]? = _
    rw [List.getElem?_modify_eq, scans.found]
    rfl
  · exact scans.mapped.frame (fun _ _ => rfl) ringAddr depth shadow
  · rw [depth]
    exact NVMeQueue.updateCqHead_lt scans.head scans.narrow
  · rw [depth]
    exact scans.narrow

/-- The loop leaves at a slot that is not pending. -/
theorem irqLoop_stop (scans : Scans start ring index nvmeq driver)
    (stop : ¬Pending start.space ring nvmeq.cqHead nvmeq.cqPhase) (fuel found : Nat) :
    (irqLoop index (fuel + 1) found).run driver = (.ok found, driver) := by
  rw [irqLoop, Effect.bind_run, scans.cqePending_run, decide_eq_false stop]
  rfl

/-- At a pending slot it handles the entry and goes on. -/
theorem irqLoop_pending (scans : Scans start ring index nvmeq driver)
    (pending : Pending start.space ring nvmeq.cqHead nvmeq.cqPhase) (fuel found : Nat) :
    (irqLoop index (fuel + 1) found).run driver =
      (do
        handleCqe (Cqe.ofBytes (slotBytes start.space ring nvmeq.cqHead))
        updateQueue index updateCqHead
        irqLoop index fuel (found + 1)).run driver := by
  have looked : (queue index).run driver = (.ok nvmeq, driver) := queue_ok.mpr ⟨scans.found, rfl⟩
  rw [irqLoop, Effect.bind_run, scans.cqePending_run, decide_eq_true pending]
  simp only [↓reduceIte]
  rw [Effect.bind_run, looked]
  simp only
  rw [Effect.bind_run, scans.handleSlot_run, Effect.bind_run]

/-- So does the handling of the completions in a row. -/
theorem handleCqes_cons (scans : Scans start ring index nvmeq driver) (cqe : Cqe) (rest : List Cqe) :
    (handleCqes index (cqe :: rest)).run driver =
      (do
        handleCqe cqe
        updateQueue index updateCqHead
        handleCqes index rest).run driver := by
  rw [handleCqes, Effect.bind_run, assertHead_run scans.found scans.head]

/-- **The loop** that returned has handled the pending entries up to a slot that is not pending. -/
theorem irqLoop_ok (scans : Scans start ring index nvmeq driver) {fuel found total : Nat}
    (ran : (irqLoop index fuel found).run driver = (.ok total, last)) :
    ∃ count, total = found + count ∧ (lap start.space ring count nvmeq).length = count ∧
      ¬Pending start.space ring (updateCqHead^[count] nvmeq).cqHead
        (updateCqHead^[count] nvmeq).cqPhase ∧
      (handleCqes index (lap start.space ring count nvmeq)).run driver = (.ok (), last) ∧
      Scans start ring index (updateCqHead^[count] nvmeq) last := by
  induction fuel generalizing driver nvmeq found with
  | zero => cases ran
  | succ fuel ih =>
    by_cases pending : Pending start.space ring nvmeq.cqHead nvmeq.cqPhase
    · rw [scans.irqLoop_pending pending] at ran
      obtain ⟨_, after, handled, ran⟩ := Effect.bind_ok.mp ran
      obtain ⟨_, moved, same, ran⟩ := Effect.bind_ok.mp ran
      cases same
      obtain ⟨count, sum, length, stop, all, reached⟩ := ih (scans.next handled) ran
      refine ⟨count + 1, by omega, ?_, stop, ?_, reached⟩
      · rw [lap, if_pos pending, List.length_cons, length]
      · rw [lap, if_pos pending, scans.handleCqes_cons]
        exact Effect.bind_ok.mpr ⟨(), after, handled, Effect.bind_ok.mpr ⟨(), _, rfl, all⟩⟩
    · rw [scans.irqLoop_stop pending] at ran
      cases ran
      exact ⟨0, rfl, rfl, pending, assertHead_run scans.found scans.head, scans⟩

/-- And it returns once it has. -/
theorem irqLoop_returns (scans : Scans start ring index nvmeq driver) {found count : Nat}
    (length : (lap start.space ring count nvmeq).length = count)
    (stop : ¬Pending start.space ring (updateCqHead^[count] nvmeq).cqHead
      (updateCqHead^[count] nvmeq).cqPhase)
    (all : (handleCqes index (lap start.space ring count nvmeq)).run driver = (.ok (), last)) :
    (irqLoop index (count + 1) found).run driver = (.ok (found + count), last) := by
  induction count generalizing driver nvmeq found with
  | zero =>
    rw [lap, handleCqes, assertHead_run scans.found scans.head] at all
    cases all
    exact scans.irqLoop_stop stop 0 found
  | succ count ih =>
    by_cases pending : Pending start.space ring nvmeq.cqHead nvmeq.cqPhase
    · rw [lap, if_pos pending, List.length_cons] at length
      rw [lap, if_pos pending, scans.handleCqes_cons] at all
      obtain ⟨_, after, handled, all⟩ := Effect.bind_ok.mp all
      obtain ⟨_, moved, same, all⟩ := Effect.bind_ok.mp all
      cases same
      have total : found + (count + 1) = found + 1 + count := by omega
      rw [scans.irqLoop_pending pending, total]
      refine Effect.bind_ok.mpr ⟨(), after, handled, Effect.bind_ok.mpr ⟨(), _, rfl, ?_⟩⟩
      exact ih (scans.next handled) (Nat.succ.inj length) stop all
    · rw [lap, if_neg pending] at length
      cases length

/-- `ring_cq_doorbell` announces the head of the queue. -/
theorem ringCqDoorbell_run (scans : Scans start ring index nvmeq driver) :
    (ringCqDoorbell index).run driver =
      (ringDoorbell nvmeq.dbbufCqDb (u32 (nvmeq.qDb + 4 * driver.dbStride)) nvmeq.cqHead).run
        driver := by
  have looked : (queue index).run driver = (.ok nvmeq, driver) := queue_ok.mpr ⟨scans.found, rfl⟩
  rw [ringCqDoorbell, Effect.bind_run, looked]
  rfl

/-- Without a shadow doorbell the link has taken the message; the queues are as they were. -/
theorem ringCqDoorbell_ok (scans : Scans start ring index nvmeq driver)
    (ran : (ringCqDoorbell index).run driver = (.ok (), last)) : last.queues = driver.queues ∧
      (nvmeq.dbbufCqDb = 0 → start.script.sends.headD true = true) := by
  rw [scans.ringCqDoorbell_run, ringDoorbell] at ran
  by_cases shadow : nvmeq.dbbufCqDb = 0
  · rw [if_neg (not_not_intro shadow), writeRegister] at ran
    obtain ⟨_, middle, sent, wrote⟩ := Effect.bind_ok.mp ran
    obtain ⟨takes, rfl⟩ := sendMessage_ok.mp sent
    cases wrote
    exact ⟨rfl, fun _ => scans.script ▸ takes⟩
  · rw [if_pos shadow] at ran
    obtain ⟨space, -, rfl⟩ := write_ok.mp ran
    exact ⟨rfl, fun absent => absurd absent shadow⟩

/-- With a shadow doorbell, or a link that takes the message, it returns. -/
theorem ringCqDoorbell_returns (scans : Scans start ring index nvmeq driver)
    (takes : nvmeq.dbbufCqDb = 0 → start.script.sends.headD true = true) :
    ∃ last, (ringCqDoorbell index).run driver = (.ok (), last) := by
  rw [scans.ringCqDoorbell_run, ringDoorbell]
  by_cases shadow : nvmeq.dbbufCqDb = 0
  · rw [if_neg (not_not_intro shadow), writeRegister]
    rw [← scans.script] at takes
    have sent := sendMessage_ok.mpr ⟨takes shadow, rfl⟩
    exact ⟨_, Effect.bind_ok.mpr ⟨(), _, sent, rfl⟩⟩
  · rw [if_pos shadow]
    obtain ⟨doorbell, there, -⟩ := scans.mapped.shadow shadow
    obtain ⟨space, wrote⟩ := (MemorySpace.accesses_of_translate there).2.1
      (leBytes 4 nvmeq.cqHead) (length_leBytes 4 _)
    exact ⟨_, write_ok.mpr ⟨space, wrote, rfl⟩⟩

end Scans

/-- `nvme_irq` returns after at most as many entries as the queue has slots, with the head in range
and the phase inverted exactly when the head moved past the last slot. -/
def Settles (index : Nat) (nvmeq : NVMeQueue) (driver : NVMeDriver) : Prop :=
  ∃ fuel found last after, (irq index fuel).run driver = (.ok found, last) ∧
    last.queues[index]? = some after ∧ found ≤ nvmeq.depth ∧ after.cqHead < nvmeq.depth ∧
    after.cqPhase = if nvmeq.cqHead + found < nvmeq.depth then nvmeq.cqPhase
      else nvmeq.cqPhase ^^^ 1

/-- The slots from the head to the last one do not all hold pending entries, or the queue has fewer
than 65536 slots. -/
def Stops (space : MemorySpace) (ring : Nat) (nvmeq : NVMeQueue) : Prop :=
  nvmeq.depth ≤ 65535 ∨ ∃ slot, nvmeq.cqHead ≤ slot ∧ slot < nvmeq.depth ∧
    ¬Pending space ring slot nvmeq.cqPhase

/-- A queue that stops has a slot within a lap where the loop leaves, with the head and the phase that
belong there. -/
theorem Stops.leaves {space : MemorySpace} {ring : Nat} {nvmeq : NVMeQueue}
    (stops : Stops space ring nvmeq) (narrow : nvmeq.depth ≤ 65536)
    (head : nvmeq.cqHead < nvmeq.depth) (bit : nvmeq.cqPhase < 2) {count : Nat}
    (counts : (lap space ring nvmeq.depth nvmeq).length = count) :
    ¬Pending space ring (updateCqHead^[count] nvmeq).cqHead (updateCqHead^[count] nvmeq).cqPhase ∧
      (updateCqHead^[count] nvmeq).cqHead < nvmeq.depth ∧
      (updateCqHead^[count] nvmeq).cqPhase =
        if nvmeq.cqHead + count < nvmeq.depth then nvmeq.cqPhase else nvmeq.cqPhase ^^^ 1 := by
  have most : count ≤ nvmeq.depth := counts ▸ length_lap_le nvmeq.depth nvmeq
  have pending : ∀ step < count, Pending space ring (updateCqHead^[step] nvmeq).cqHead
      (updateCqHead^[step] nvmeq).cqPhase := fun step below => pending_lap (counts ▸ below)
  have short : count < nvmeq.depth → ¬Pending space ring (updateCqHead^[count] nvmeq).cqHead
      (updateCqHead^[count] nvmeq).cqPhase := fun below => counts ▸ stop_lap (counts ▸ below)
  by_cases before : nvmeq.cqHead + count < nvmeq.depth
  · -- the loop leaves in the lap in which it began
    have stop := short (by omega)
    rw [NVMeQueue.updateCqHead_climb before narrow] at stop ⊢
    rw [if_pos before]
    exact ⟨stop, before, rfl⟩
  · -- every slot to the end of the lap is pending, so the head wraps with the phase
    have small : nvmeq.depth < 2 ^ 16 := by
      by_contra wide
      obtain low | ⟨slot, above, below, stop⟩ := stops
      · omega
      · have there := pending (slot - nvmeq.cqHead) (by omega)
        have place : nvmeq.cqHead + (slot - nvmeq.cqHead) = slot := by omega
        rw [NVMeQueue.updateCqHead_climb (place.trans_lt below) narrow] at there
        exact stop (place ▸ there)
    have wrapped : updateCqHead^[count] nvmeq = { nvmeq with
        cqHead := nvmeq.cqHead + count - nvmeq.depth, cqPhase := nvmeq.cqPhase ^^^ 1 } :=
      NVMeQueue.updateCqHead_lap head (by omega) (by omega) small
    rw [if_neg before]
    refine ⟨?_, ?_, ?_⟩
    · obtain fewer | all := Nat.lt_or_eq_of_le most
      · exact short fewer
      · rw [wrapped, all]
        have first : Pending space ring nvmeq.cqHead nvmeq.cqPhase := pending 0 (by omega)
        show ¬Pending space ring (nvmeq.cqHead + nvmeq.depth - nvmeq.depth) (nvmeq.cqPhase ^^^ 1)
        rw [Nat.add_sub_cancel]
        exact not_pending_inverted bit first
    · rw [wrapped]
      show nvmeq.cqHead + count - nvmeq.depth < nvmeq.depth
      omega
    · rw [wrapped]

/-- In a queue that does not stop, no slot where the loop may leave is before the end of the lap, and
behind it the phase is still the same. -/
theorem stops_of_leaves {space : MemorySpace} {ring : Nat} {nvmeq : NVMeQueue}
    (narrow : nvmeq.depth ≤ 65536) (head : nvmeq.cqHead < nvmeq.depth) (bit : nvmeq.cqPhase < 2)
    {count : Nat}
    (stop : ¬Pending space ring (updateCqHead^[count] nvmeq).cqHead
      (updateCqHead^[count] nvmeq).cqPhase)
    (phase : (updateCqHead^[count] nvmeq).cqPhase =
      if nvmeq.cqHead + count < nvmeq.depth then nvmeq.cqPhase else nvmeq.cqPhase ^^^ 1) :
    Stops space ring nvmeq := by
  by_cases small : nvmeq.depth ≤ 65535
  · exact Or.inl small
  · right
    have wide : nvmeq.depth = 2 ^ 16 := by omega
    rw [NVMeQueue.updateCqHead_round wide head] at stop phase
    by_cases before : nvmeq.cqHead + count < nvmeq.depth
    · rw [Nat.mod_eq_of_lt before] at stop
      exact ⟨nvmeq.cqHead + count, Nat.le_add_right _ _, before, stop⟩
    · rw [if_neg before] at phase
      have phase : nvmeq.cqPhase = nvmeq.cqPhase ^^^ 1 := phase
      obtain none | one : nvmeq.cqPhase = 0 ∨ nvmeq.cqPhase = 1 := by omega
      · rw [none] at phase
        exact absurd phase (by decide)
      · rw [one] at phase
        exact absurd phase (by decide)

/-- The loop leaves behind the pending entries of a lap, and nowhere else. -/
theorem count_unique {space : MemorySpace} {ring : Nat} {nvmeq : NVMeQueue} {count other : Nat}
    (length : (lap space ring count nvmeq).length = count)
    (stop : ¬Pending space ring (updateCqHead^[count] nvmeq).cqHead
      (updateCqHead^[count] nvmeq).cqPhase)
    (among : (lap space ring other nvmeq).length = other)
    (leaves : ¬Pending space ring (updateCqHead^[other] nvmeq).cqHead
      (updateCqHead^[other] nvmeq).cqPhase) : count = other := by
  obtain less | same | more := Nat.lt_trichotomy count other
  · exact absurd (pending_lap (among.symm ▸ less)) stop
  · exact same
  · exact absurd (pending_lap (length.symm ▸ more)) leaves

section Settles

variable {driver : NVMeDriver} {index ring low high : Nat} {nvmeq : NVMeQueue}

/-- A queue that settles stops, and its pending entries are handled and announced. -/
theorem Settles.needs (scans : Scans driver ring index nvmeq driver) (phase : nvmeq.cqPhase < 2)
    (settles : Settles index nvmeq driver) : Stops driver.space ring nvmeq ∧
      (∃ left, (handleCqes index (lap driver.space ring nvmeq.depth nvmeq)).run driver =
        (.ok (), left)) ∧
      (Pending driver.space ring nvmeq.cqHead nvmeq.cqPhase → nvmeq.dbbufCqDb = 0 →
        driver.script.sends.headD true = true) := by
  obtain ⟨fuel, total, last, after, ran, moved, few, inside, flips⟩ := settles
  obtain ⟨counted, left, looped, rest⟩ := Effect.bind_ok.mp ran
  obtain ⟨count, sum, length, stop, all, reached⟩ := scans.irqLoop_ok looped
  have ends : total = count ∧ last.queues = left.queues ∧ (0 < count → nvmeq.dbbufCqDb = 0 →
      driver.script.sends.headD true = true) := by
    by_cases none : counted = 0
    · rw [if_pos none] at rest
      cases rest
      exact ⟨by omega, rfl, fun some => by omega⟩
    · rw [if_neg none] at rest
      obtain ⟨_, rung, announced, same⟩ := Effect.bind_ok.mp rest
      cases same
      obtain ⟨queues, takes⟩ := reached.ringCqDoorbell_ok announced
      rw [(NVMeQueue.iterate_frame nvmeq count).2] at takes
      exact ⟨by omega, queues, fun _ => takes⟩
  obtain ⟨rfl, queues, takes⟩ := ends
  rw [queues, reached.found] at moved
  obtain rfl := Option.some.inj moved
  have stops := stops_of_leaves scans.narrow scans.head phase stop flips
  obtain ⟨leaves, -, -⟩ := stops.leaves scans.narrow scans.head phase rfl
  have whole := count_unique length stop (congrArg List.length lap_take) leaves
  refine ⟨stops, ⟨left, ?_⟩, ?_⟩
  · rw [← lap_take, ← whole]
    exact all
  · intro pending
    apply takes
    by_contra none
    obtain rfl := Nat.eq_zero_of_not_pos none
    exact stop pending

/-- And the other way around. -/
theorem settles_of (scans : Scans driver ring index nvmeq driver) (phase : nvmeq.cqPhase < 2)
    (stops : Stops driver.space ring nvmeq) {left : NVMeDriver}
    (all : (handleCqes index (lap driver.space ring nvmeq.depth nvmeq)).run driver = (.ok (), left))
    (takes : Pending driver.space ring nvmeq.cqHead nvmeq.cqPhase → nvmeq.dbbufCqDb = 0 →
      driver.script.sends.headD true = true) : Settles index nvmeq driver := by
  obtain ⟨leaves, inside, flips⟩ := stops.leaves scans.narrow scans.head phase rfl
  have few : (lap driver.space ring nvmeq.depth nvmeq).length ≤ nvmeq.depth :=
    length_lap_le nvmeq.depth nvmeq
  have length : (lap driver.space ring (lap driver.space ring nvmeq.depth nvmeq).length
      nvmeq).length = (lap driver.space ring nvmeq.depth nvmeq).length :=
    congrArg List.length lap_take
  rw [← lap_take] at all
  generalize (lap driver.space ring nvmeq.depth nvmeq).length = count at *
  have looped : (irqLoop index (count + 1) 0).run driver = (.ok (0 + count), left) :=
    scans.irqLoop_returns length leaves all
  rw [Nat.zero_add] at looped
  obtain ⟨other, sum, -, -, -, reached⟩ := scans.irqLoop_ok looped
  obtain rfl : count = other := by omega
  by_cases none : count = 0
  · refine ⟨count + 1, count, left, _, Effect.bind_ok.mpr ⟨count, left, looped, ?_⟩, reached.found,
      few, inside, flips⟩
    rw [if_pos none]
    rfl
  · have some : 0 < (lap driver.space ring count nvmeq).length := by omega
    have first := pending_lap some
    obtain ⟨last, announced⟩ := reached.ringCqDoorbell_returns (by
      rw [(NVMeQueue.iterate_frame nvmeq count).2]
      exact takes first)
    obtain ⟨queues, -⟩ := reached.ringCqDoorbell_ok announced
    refine ⟨count + 1, count, last, _, Effect.bind_ok.mpr ⟨count, left, looped, ?_⟩,
      queues ▸ reached.found, few, inside, flips⟩
    rw [if_neg none]
    exact Effect.bind_ok.mpr ⟨(), last, announced, rfl⟩

end Settles

/-- **The completion loop** settles, whatever its memory holds, exactly when the queue has fewer than
65536 entries or some slot from the head to the last one is not pending, there is room for the list
pages of the commands that complete, and the link takes the new head when it is written to the
register. -/
theorem settles_iff {driver : NVMeDriver} {index ring low high : Nat} {nvmeq : NVMeQueue}
    (region : Region low high) (sheeted : Sheeted low high driver)
    (found : driver.queues[index]? = some nvmeq) (mapped : (driver.port nvmeq).Mapped ring)
    (depth : nvmeq.depth ≤ 65536) (head : nvmeq.cqHead < nvmeq.depth) (phase : nvmeq.cqPhase < 2) :
    Settles index nvmeq driver ↔
      (nvmeq.depth ≤ 65535 ∨ ∃ slot, nvmeq.cqHead ≤ slot ∧ slot < nvmeq.depth ∧
        ¬Pending driver.space ring slot nvmeq.cqPhase) ∧
      Room driver.space.table.freeBytes
        (driver.commands.leaving (lap driver.space ring nvmeq.depth nvmeq)) ∧
      (Pending driver.space ring nvmeq.cqHead nvmeq.cqPhase → nvmeq.dbbufCqDb = 0 →
        driver.script.sends.headD true = true) := by
  have scans : Scans driver ring index nvmeq driver :=
    ⟨⟨_, rfl⟩, rfl, found, mapped, head, depth⟩
  rw [← handleCqes_ok_iff region sheeted found head depth]
  constructor
  · exact fun settles => settles.needs scans phase
  · rintro ⟨stops, ⟨left, all⟩, takes⟩
    exact settles_of scans phase stops all takes

/-- A driver with a queue whose completion ring lies at 0x100000 in a mapping of the whole address
space. -/
def sample (table : HoleTable) (map : Nat → UInt8) (commands : CommandTable) (nvmeq : NVMeQueue) :
    NVMeDriver :=
  { blank 1 nvmeq.depth ⟨table, map, 2 ^ 32, 0⟩ 0 0 ⟨[], true, 0, [], []⟩ with
    queues := [nvmeq]
    commands := commands }

/-- The queue with its head at a slot. -/
def sampleQueue (depth cqHead : Nat) : NVMeQueue :=
  { NVMeQueue.blank.place 1 depth 1 0x200000 0x100000 with cqHead := cqHead }

/-- The ring of such a queue is mapped. -/
theorem mapped_sample (table : HoleTable) (map : Nat → UInt8) (commands : CommandTable)
    {depth : Nat} (cqHead : Nat) (narrow : depth ≤ 65536) :
    ((sample table map commands (sampleQueue depth cqHead)).port
      (sampleQueue depth cqHead)).Mapped 0x100000 := by
  constructor
  · intro slot inside first count within nonempty
    have below : slot < depth := inside
    simp only [cqeSize] at within ⊢
    have address : u32 (0x100000 + (slot * 16 + first)) = 0x100000 + slot * 16 + first := by
      rw [← Nat.add_assoc]
      exact u32_of_lt (by omega)
    show MemorySpace.translate ⟨table, map, 2 ^ 32, 0⟩
      (u32 (0x100000 + (slot * 16 + first))) count = _
    rw [address]
    exact MemorySpace.translate_zero rfl (le_refl _) (by simp only; omega) nonempty
  · exact fun shadowed => absurd rfl shadowed

/-- Four slots: command 7 completes in slot 2, an unknown command 9 in slot 3, and command 7 again in
slot 0, behind the wrap; slot 1 has the phase of the lap before. -/
def fourSlotBytes (address : Nat) : UInt8 :=
  ([(0x10000C, 7), (0x10001E, 1), (0x10002C, 7), (0x10002E, 1), (0x10003C, 9),
    (0x10003E, 1)].lookup address).getD 0

/-- Command 7 has a callback and a list page. -/
def oneCommand : CommandTable :=
  ⟨10, fun id => if id = 7 then some ⟨0, 7, 0, 0, false, some 0, [0x3000]⟩ else none⟩

/-- Its list page is its own. -/
theorem sheeted_oneCommand {table : HoleTable} (served : Serves 0x1000 0x8000 table usedBytes)
    (map : Nat → UInt8) (nvmeq : NVMeQueue) :
    Sheeted 0x1000 (0x1000 + 0x8000) (sample table map oneCommand nvmeq) := by
  have entry : ∀ id cmd, oneCommand.commandMap id = some cmd → id = 7 ∧ cmd.prpLists = [0x3000] := by
    intro id cmd found
    by_cases here : id = 7
    · rw [oneCommand] at found
      simp only [here, ↓reduceIte] at found
      obtain rfl := Option.some.inj found
      exact ⟨here, rfl⟩
    · rw [oneCommand] at found
      simp only [here, ↓reduceIte] at found
      cases found
  obtain ⟨extents, sound⟩ := served.sound ⟨by decide, by decide⟩
  constructor
  · refine ⟨extents, sound.mono ?_⟩
    rintro byte ⟨id, cmd, found, inside⟩
    rw [(entry id cmd found).2, List.map_singleton, cover_cons, cover_nil, Set.union_empty] at inside
    refine ⟨Or.inr inside, fun page => ?_⟩
    exact absurd (Nat.lt_of_lt_of_le page.2 inside.1) (Nat.lt_irrefl byte)
  · intro id cmd found
    rw [(entry id cmd found).2]
    exact List.pairwise_singleton _ _
  · intro id other cmd another found known different
    exact absurd ((entry id cmd found).1.trans (entry other another known).1.symm) different

/-- With the head at slot 2 of four the loop handles three entries: the wrap inverts the phase, and
the list page of command 7 is given back once. -/
theorem settles_four : ∃ table, Serves 0x1000 0x8000 table usedBytes ∧
    lap (sample table fourSlotBytes oneCommand (sampleQueue 4 2)).space 0x100000 4
      (sampleQueue 4 2) = [⟨7, 1, 0⟩, ⟨9, 1, 0⟩, ⟨7, 0, 0⟩] ∧
    oneCommand.leaving [⟨7, 1, 0⟩, ⟨9, 1, 0⟩, ⟨7, 0, 0⟩] = [0x3000] ∧
    Settles 0 (sampleQueue 4 2) (sample table fourSlotBytes oneCommand (sampleQueue 4 2)) := by
  obtain ⟨table, served, -, spare, -⟩ := serves_fourCalls
  have entries : lap (sample table fourSlotBytes oneCommand (sampleQueue 4 2)).space 0x100000 4
      (sampleQueue 4 2) = [⟨7, 1, 0⟩, ⟨9, 1, 0⟩, ⟨7, 0, 0⟩] := by
    refine (lap_table table HoleTable.init).trans ?_
    decide +kernel
  have pages : oneCommand.leaving [⟨7, 1, 0⟩, ⟨9, 1, 0⟩, ⟨7, 0, 0⟩] = [0x3000] := by decide
  obtain ⟨extents, sound⟩ := served.sound ⟨by decide, by decide⟩
  refine ⟨table, served, entries, pages, ?_⟩
  refine (settles_iff ⟨by decide, by decide⟩ (sheeted_oneCommand served _ _) rfl
    (mapped_sample _ _ _ _ (by decide)) (by decide) (by decide) (by decide)).mpr
    ⟨Or.inl (by decide), ?_, fun _ _ => rfl⟩
  have depth : (sampleQueue 4 2).depth = 4 := rfl
  rw [depth, entries]
  show Room table.freeBytes (oneCommand.leaving _)
  rw [pages, freeBytes_eq sound.holds]
  exact ⟨sound.coalesced.ncard_starts.trans_lt (sound.holds.room.mp spare), trivial⟩

/-- A queue of 65536 entries in which every entry has the phase that the driver waits for does not
settle. -/
theorem full_lap_endless : (sampleQueue 65536 0).depth = 65536 ∧
    ¬Settles 0 (sampleQueue 65536 0) (sample HoleTable.init
      (fun index => if index % 16 = 14 then 1 else 0) ⟨0, fun _ => none⟩ (sampleQueue 65536 0)) := by
  refine ⟨rfl, fun settles => ?_⟩
  have scans : Scans (sample HoleTable.init (fun index => if index % 16 = 14 then 1 else 0)
      ⟨0, fun _ => none⟩ (sampleQueue 65536 0)) 0x100000 0 (sampleQueue 65536 0) _ :=
    ⟨⟨_, rfl⟩, rfl, rfl, mapped_sample _ _ _ _ (le_refl _), by decide, by decide⟩
  obtain ⟨small | ⟨slot, -, -, stop⟩, -⟩ := settles.needs scans (by decide)
  · exact absurd small (by decide)
  · apply stop
    have first : (0x100000 + slot * cqeSize + 14 + 0) % 16 = 14 := by
      simp only [cqeSize]
      omega
    have second : (0x100000 + slot * cqeSize + 14 + 1) % 16 ≠ 14 := by
      simp only [cqeSize]
      omega
    rw [Pending, phaseBit, slotBytes, MemorySpace.drop_peek]
    show leValue [if (0x100000 + slot * cqeSize + 14 + 0) % 16 = 14 then 1 else 0,
      if (0x100000 + slot * cqeSize + 14 + 1) % 16 = 14 then 1 else 0] % 2 = 1
    rw [if_pos first, if_neg second]
    rfl

end NVMeDriver

end McmqHost
