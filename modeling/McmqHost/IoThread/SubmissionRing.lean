import McmqHost.Base.Ring
import McmqHost.Driver.Io
import McmqHost.IoThread.Scheduler
import McmqHost.MemorySpace.Paging

/-!
# The submission ring over a whole flow

The ring has no check of its own: what keeps a flow from overrunning it is the number of
requests that the flow keeps outstanding. That number is `average_enqueued_requests`, for
the thread's own limit is the configured depth of the queue, not the depth negotiated with
the device.
-/

namespace McmqHost

open Relation

/-- The depth that `setup_io_queues` passes to `allocate_queue`. -/
def ringDepth (ctrlCap ioQueueDepth : Nat) : Nat :=
  (negotiatedDepth ctrlCap ioQueueDepth % 2 ^ 32).toNat

/-- The negotiated depth of a queue whose configured depth is an `int`. -/
theorem ringDepth_eq {ctrlCap ioQueueDepth : Nat} (fits : ioQueueDepth < 2 ^ 31) :
    ringDepth ctrlCap ioQueueDepth = min (ctrlCap % 2 ^ 16 + 1) ioQueueDepth := by
  unfold ringDepth negotiatedDepth toInt
  rw [if_pos fits]
  omega

/-- The queues that `setup_io_queues` leaves: allocated with the negotiated depth and, after other
queues were set up, initialised. -/
inductive IoQueue (ctrlCap ioQueueDepth : Nat) : QueuePort → Prop
  | mk {port allocated created after : QueuePort} {qid dbStride dbbufDbs : Nat} :
    port.nvmeq = .blank →
    port.allocateQueue qid (ringDepth ctrlCap ioQueueDepth) dbStride = .ok allocated →
    created.nvmeq = allocated.nvmeq → created.initQueue qid dbStride dbbufDbs = .ok after →
    IoQueue ctrlCap ioQueueDepth after

/-- A fresh queue has the negotiated depth and stands at its first slot. -/
theorem IoQueue.fresh {ctrlCap ioQueueDepth : Nat} {port : QueuePort}
    (queue : IoQueue ctrlCap ioQueueDepth port) :
    port.nvmeq.depth = ringDepth ctrlCap ioQueueDepth ∧ port.nvmeq.sqTail = 0 ∧
      port.nvmeq.lastSqTail = 0 := by
  obtain ⟨-, allocate, same, init⟩ := queue
  obtain ⟨⟨sq, withSq⟩, -, allocate⟩ := bind_ok.mp allocate
  obtain ⟨⟨cq, withCq⟩, -, allocate⟩ := bind_ok.mp allocate
  cases allocate
  obtain ⟨space, -, init⟩ := bind_ok.mp init
  cases init
  simp [same, NVMeQueue.restart, NVMeQueue.place]

namespace Flow

/-- The ring and the flow agree on what is outstanding, and no submission overran. -/
structure Ringed (depth average : Nat) (flow : Flow Driver) : Prop where
  /-- Each submission beyond the first ones follows a processed request. -/
  outstanding : flow.submitted.length + flow.burst ≤ flow.processed.length + average
  /-- The ring has the negotiated depth. -/
  size : flow.thread.world.port.nvmeq.depth = depth
  /-- Commands written are fetched or not. -/
  written : flow.thread.world.fetched + flow.thread.world.unfetched.length =
    flow.thread.dispatched.length
  /-- The tail counts the commands written. -/
  tail : flow.thread.world.port.nvmeq.sqTail = flow.thread.dispatched.length % depth
  /-- The head counts the commands fetched. -/
  head : flow.thread.world.sqHead = flow.thread.world.fetched % depth
  /-- The doorbell holds the tail. -/
  doorbell : flow.thread.world.tailDoorbell = flow.thread.world.port.nvmeq.sqTail
  /-- Unfetched commands stand in the slots between head and tail. -/
  slots : flow.thread.world.unfetched =
    Ring.window depth flow.thread.world.fetched flow.thread.world.unfetched.length
  /-- The device completes only what it fetched. -/
  completions : flow.notified.length = flow.thread.world.completed ∧
    flow.thread.world.completed ≤ flow.thread.world.fetched
  /-- One slot is always empty. -/
  spare : flow.thread.world.unfetched.length < depth
  /-- No submission overran. -/
  clean : flow.thread.world.overrun = false

namespace Ringed

variable {depth average queueDepth : Nat} {before after : Flow Driver}

/-- The thread passes a request on only while fewer than the average are unfetched. -/
theorem pass (ringed : Ringed depth average before) (counted : Counted queueDepth before)
    (fewer : average < depth) (narrow : depth ≤ 2 ^ 16) {req : IORequest} {rest : List IORequest}
    {world : Driver} (queue : before.thread.waitingRequests = req :: rest)
    (took : Driver.backend.rwAsync before.thread.world req = .ok world) :
    Ringed depth average (before.pass req rest world) := by
  obtain ⟨doWrite, took⟩ := Driver.rwAsync_ok took
  obtain ⟨prps, port, -, submitted, rfl⟩ := Driver.submitRwCommand_ok took
  obtain ⟨moved, wrote⟩ := QueuePort.submitSqCommand_ok submitted
  have queued := congrArg List.length counted.queued
  have delivered := congrArg List.length counted.delivered
  simp only [List.length_map, List.length_append, queue, List.length_cons] at queued delivered
  have outstanding := ringed.outstanding
  have written := ringed.written
  have completions := ringed.completions
  have room : before.thread.world.unfetched.length + 1 < depth := by omega
  have next : before.thread.world.port.nvmeq.nextTail =
      (before.thread.dispatched.length + 1) % depth := by
    have size := ringed.size
    rw [← size]
    exact NVMeQueue.nextTail_eq (by omega) (by omega) (size ▸ ringed.tail)
  simp only at moved wrote
  have vacant : before.thread.world.port.nvmeq.sqTail ∉ before.thread.world.unfetched := by
    rw [ringed.tail, ← written, ringed.slots, Ring.length_window]
    exact Ring.notMem_window (by omega)
  have apart : before.thread.world.port.nvmeq.nextTail ≠ before.thread.world.sqHead := by
    rw [next, ringed.head, ← written, Nat.add_assoc]
    exact Ring.ends_ne (by omega) room
  exact {
    outstanding := outstanding
    size := by simp [Flow.pass, IOThread.dispatch, Driver.record, moved, ringed.size]
    written := by
      simp only [Flow.pass, IOThread.dispatch, IOThread.setWaiting, Driver.record,
        List.length_append, List.length_singleton]
      omega
    tail := by
      simp [Flow.pass, IOThread.dispatch, IOThread.setWaiting, Driver.record, moved, next]
    head := ringed.head
    doorbell := by
      simp only [Flow.pass, IOThread.dispatch, Driver.record, Driver.tailDoorbell, moved]
      split
      · rename_i register
        simp [wrote register]
      · rfl
    slots := by
      have slots := ringed.slots
      simp only [Flow.pass, IOThread.dispatch, IOThread.setWaiting, Driver.record,
        List.length_append, List.length_singleton, Ring.window_succ, ringed.tail, ← written]
      rw [← slots]
    completions := completions
    spare := by
      simp only [Flow.pass, IOThread.dispatch, IOThread.setWaiting, Driver.record,
        List.length_append, List.length_singleton]
      exact room
    clean := by
      simp [Flow.pass, IOThread.dispatch, IOThread.setWaiting, Driver.record, moved, ringed.clean,
        vacant, apart] }

/-- The device fetches from the head of the window. -/
theorem fetch (ringed : Ringed depth average before) {world : Driver}
    (fetched : before.thread.world.fetch = some world) :
    Ringed depth average { before with thread := before.thread.setWorld world } := by
  unfold Driver.fetch at fetched
  split at fetched
  · contradiction
  · rename_i pending
    obtain rfl := Option.some.inj fetched
    have written := ringed.written
    have completions := ringed.completions
    have spare := ringed.spare
    obtain ⟨count, some⟩ : ∃ count, before.thread.world.unfetched.length = count + 1 := by
      apply Nat.exists_eq_succ_of_ne_zero
      intro none
      rw [none, Nat.add_zero] at written
      apply pending
      rw [ringed.doorbell, ringed.tail, ringed.head, written]
    have slots := ringed.slots
    rw [some, Ring.window_cons, ← ringed.head] at slots
    have left : before.thread.world.unfetched.erase before.thread.world.sqHead =
        Ring.window depth (before.thread.world.fetched + 1) count := by
      rw [slots, List.erase_cons_head]
    exact { ringed with
      written := by
        simp only [IOThread.setWorld, left, Ring.length_window]
        omega
      head := by
        simp only [IOThread.setWorld, ringed.size, ringed.head, Nat.mod_add_mod]
      slots := by simp only [IOThread.setWorld, left, Ring.length_window]
      completions := by
        simp only [IOThread.setWorld]
        omega
      spare := by
        simp only [IOThread.setWorld, left, Ring.length_window]
        omega }

/-- Every move keeps the ring in step, when fewer than its depth are outstanding on average. -/
theorem moves (ringed : Ringed depth average before) (counted : Counted queueDepth before)
    (fewer : average < depth) (narrow : depth ≤ 2 ^ 16)
    (move : Moves Driver.backend before after) : Ringed depth average after := by
  cases move with
  | @arrive access buf world allowed gave =>
    obtain ⟨⟨address, space⟩, -, same⟩ := bind_ok.mp gave
    cases same
    exact { ringed with
      outstanding := by
        have outstanding := ringed.outstanding
        simp only [Flow.arrive, List.length_append, List.length_singleton]
        omega }
  | pass queue _ took => exact ringed.pass counted fewer narrow queue took
  | @finish req rest world batch freed =>
    obtain ⟨table, -, same⟩ := bind_ok.mp freed
    cases same
    exact { ringed with
      outstanding := by
        have outstanding := ringed.outstanding
        simp only [Flow.finish, List.length_append, List.length_singleton]
        omega }
  | waive allowed =>
    exact { ringed with
      outstanding := by
        have outstanding := ringed.outstanding
        simp only [Flow.waive]
        omega }
  | @notify index req world held done =>
    change Driver.complete before.thread.world req = some world at done
    unfold Driver.complete at done
    split at done
    · rename_i fewer
      obtain rfl := Option.some.inj done
      exact { ringed with
        completions := by
          have completions := ringed.completions
          simp only [Flow.callBack, IOThread.notifyRequestCompletion, List.length_append,
            List.length_singleton]
          omega }
    · contradiction
  | take _ => exact { ringed with }
  | @evolve event world moved =>
    cases event with
    | fetch => exact ringed.fetch moved
    | release index =>
      change Driver.release before.thread.world index = some world at moved
      unfold Driver.release at moved
      split at moved
      · contradiction
      · split at moved
        · split at moved
          · contradiction
          · obtain rfl := Option.some.inj moved
            exact { ringed with }
        · contradiction

/-- A flow on a fresh queue starts in step. -/
theorem create {port : QueuePort} {commandIdCounter requestCount average : Nat}
    (positive : 0 < depth) (size : port.nvmeq.depth = depth) (tail : port.nvmeq.sqTail = 0)
    (announced : port.nvmeq.lastSqTail = 0) : Ringed depth average
      (create (Driver.create port commandIdCounter) queueDepth requestCount average) where
  outstanding := by simp [Flow.create]
  size := size
  written := rfl
  tail := by simp [Flow.create, IOThread.create, Driver.create, tail]
  head := by simp [Flow.create, IOThread.create, Driver.create]
  doorbell := by
    simp [Flow.create, IOThread.create, Driver.create, Driver.tailDoorbell, tail, announced]
  slots := rfl
  completions := ⟨rfl, le_refl _⟩
  spare := positive
  clean := rfl

end Ringed

/-! ## A burst that fills the ring -/

/-- A request of one page. -/
def pageAccess : Access := ⟨true, 1, 0, 0x1000⟩

/-- The request of one page that comes at an index of a burst, whose buffers lie in a row. -/
def pageRequest (origin index : Nat) : IORequest := ⟨pageAccess, index, origin + index * 0x1000⟩

/-- A flow that has submitted `count` requests of one page without a completion, with memory from
`origin` on for as many as the ring is deep. -/
structure Primed (depth ioQueueDepth average origin count : Nat) (flow : Flow Driver) : Prop where
  /-- No batch is being processed. -/
  idle : flow.reqs = []
  /-- The limit does not change. -/
  limit : flow.thread.queueDepth = ioQueueDepth
  /-- Every request is in flight. -/
  inflight : flow.thread.inflightRequests = count
  /-- Every request was counted. -/
  counted : flow.thread.allocated = count ∧ flow.thread.nrSubmittedRequests = count
  /-- The driver holds them. -/
  issued : flow.thread.issued = (List.range count).map (pageRequest origin)
  /-- None waits, and none is completed. -/
  quiet : flow.thread.waitingRequests = [] ∧ flow.thread.completedRequests = []
  /-- The other requests of the burst are left. -/
  burst : count + flow.burst = average
  /-- The ring has the negotiated depth. -/
  size : flow.thread.world.port.nvmeq.depth = depth
  /-- The doorbell is a register. -/
  registers : flow.thread.world.port.nvmeq.dbbufSqDb = 0
  /-- The tail counts the requests. -/
  tail : flow.thread.world.port.nvmeq.sqTail = count % depth
  /-- It was announced. -/
  doorbell : flow.thread.world.tailDoorbell = count % depth
  /-- The device has fetched none. -/
  head : flow.thread.world.sqHead = 0 ∧ flow.thread.world.fetched = 0 ∧
    flow.thread.world.completed = 0
  /-- The ring begins in the second page. -/
  ring : flow.thread.world.port.nvmeq.sqDmaAddr = 0x1000 ∧
    flow.thread.world.port.nvmeq.sqeShift = nvmeSqes
  /-- The whole address space is mapped. -/
  mapping : flow.thread.world.port.space.iovaBase = 0 ∧
    flow.thread.world.port.space.mapSize = 2 ^ 32
  /-- The buffers begin at a page, and there is memory for as many as the ring is deep. -/
  room : 0 < origin ∧ origin % 0x1000 = 0 ∧ origin + depth * 0x1000 < 2 ^ 32
  /-- One hole lies behind them. -/
  memory : flow.thread.world.port.space.table.Holds
    [⟨origin + count * 0x1000, 2 ^ 32 - (origin + count * 0x1000)⟩]

/-- A page-aligned request of one page needs no list page. -/
theorem describe_page {space : MemorySpace} {req : IORequest} (page : req.size = 0x1000)
    (boundary : req.buf % 0x1000 = 0) : Driver.describe space req = .ok ⟨space, req.buf, 0, []⟩ := by
  have offset : req.buf % ctrlPageSize = 0 := boundary
  rw [Driver.describe, if_pos (by omega), Prps.setupBuffer, offset, page]
  rfl

/-- The commands have the size of a slot. -/
theorem length_bytes (cmd : RwCommand) : cmd.bytes.length = 64 := by
  simp [RwCommand.bytes, leBytes]

/-- Every slot of the ring in the second page is mapped. -/
theorem slot_mapped {space : MemorySpace} {slot : Nat} (mapping : space.iovaBase = 0 ∧
    space.mapSize = 2 ^ 32) (inside : slot < 2 ^ 16) :
    ∃ offset, space.translate (u32 (0x1000 + slot <<< nvmeSqes)) 64 = .ok offset := by
  have shift : slot <<< nvmeSqes = slot * 64 := by simp [Nat.shiftLeft_eq, nvmeSqes]
  have address : u32 (0x1000 + slot * 64) = 0x1000 + slot * 64 := u32_of_lt (by omega)
  have offset : u32 (0x1000 + slot * 64 + 2 ^ 32 - 0) = 0x1000 + slot * 64 := by
    unfold u32
    omega
  have last : u64 (0x1000 + slot * 64 + 64) = 0x1000 + slot * 64 + 64 := u64_of_lt (by omega)
  refine ⟨0x1000 + slot * 64, ?_⟩
  rw [shift, address, MemorySpace.translate, mapping.1, mapping.2]
  simp only [offset, last]
  rw [if_pos (by omega)]
  rfl

/-- One more submission of the burst returns; the one that fills the ring overruns it. -/
theorem Primed.submit {depth ioQueueDepth average origin count : Nat} {flow : Flow Driver}
    (primed : Primed depth ioQueueDepth average origin count flow) (room : count < depth)
    (more : count < average) (within : depth ≤ ioQueueDepth) (narrow : depth ≤ 2 ^ 16) :
    ∃ after, (machine Driver.backend).step flow (.submit pageAccess) = some after ∧
      Primed depth ioQueueDepth average origin (count + 1) after ∧
      after.thread.requestCount = flow.thread.requestCount ∧
      after.submitted = flow.submitted ++ [pageAccess] ∧
      (count + 1 = depth → after.thread.world.overrun = true) := by
  obtain ⟨positive, boundary, enough⟩ := primed.room
  obtain ⟨base, start⟩ : ∃ base, base = origin + count * 0x1000 := ⟨_, rfl⟩
  have holds := primed.memory
  rw [← start] at holds
  have whole : HoleTable.roundupPage 0x1000 = 1 * 0x1000 := by
    rw [HoleTable.roundupPage_whole (by omega), Nat.one_mul]
  obtain ⟨table, ran, left⟩ := MemorySpace.allocatePages_single holds (le_refl _) (by omega)
    (by omega) whole (by rw [Nat.one_mul]; omega)
  rw [Nat.one_mul] at left
  let world : Driver := { flow.thread.world with
    port := { flow.thread.world.port with space := { flow.thread.world.port.space with table := table } } }
  have allocated : Driver.backend.allocatePages flow.thread.world 0x1000 = .ok (base, world) := by
    simp only [Driver.backend, ran]
    rfl
  let req : IORequest := ⟨pageAccess, flow.thread.allocated, base⟩
  have described : Driver.describe world.port.space req = .ok ⟨world.port.space, base, 0, []⟩ :=
    describe_page rfl (show base % 0x1000 = 0 by omega)
  have tailBelow : world.port.nvmeq.sqTail < 2 ^ 16 := by
    have below := Nat.mod_lt count (Nat.zero_lt_of_lt room)
    have tail : world.port.nvmeq.sqTail = count % depth := primed.tail
    omega
  obtain ⟨offset, mapped⟩ := slot_mapped (show world.port.space.iovaBase = 0 ∧
    world.port.space.mapSize = 2 ^ 32 from primed.mapping) tailBelow
  let cmd := Driver.rwCommand true req world.commandIdCounter ⟨world.port.space, base, 0, []⟩
  have slot : world.port.space.translate (u32 (world.port.nvmeq.sqDmaAddr +
      world.port.nvmeq.sqTail <<< world.port.nvmeq.sqeShift)) cmd.bytes.length = .ok offset := by
    have ring : world.port.nvmeq.sqDmaAddr = 0x1000 ∧ world.port.nvmeq.sqeShift = nvmeSqes :=
      primed.ring
    rw [ring.1, ring.2, length_bytes]
    exact mapped
  have registers : world.port.nvmeq.dbbufSqDb = 0 := primed.registers
  obtain ⟨port, submitted⟩ := QueuePort.submitSqCommand_returns registers slot
  obtain ⟨moved, wrote⟩ := QueuePort.submitSqCommand_ok submitted
  have next : world.port.nvmeq.nextTail = (count + 1) % depth := by
    have size : world.port.nvmeq.depth = depth := primed.size
    rw [← size]
    exact NVMeQueue.nextTail_eq (by omega) (by omega) (size ▸ primed.tail)
  have frame := QueuePort.frame_submitSqCommand submitted
  have took : Driver.backend.rwAsync world req =
      .ok (world.record port req ⟨world.port.space, base, 0, []⟩) := by
    change Driver.submitRwCommand true world req = _
    exact bind_ok.mpr ⟨_, described, bind_ok.mpr ⟨port, submitted, rfl⟩⟩
  have goes : ¬ (flow.thread.register world).inflightRequests ≥
      (flow.thread.register world).queueDepth := by
    have inflight : (flow.thread.register world).inflightRequests = count := primed.inflight
    have limit : (flow.thread.register world).queueDepth = ioQueueDepth := primed.limit
    omega
  have ran : flow.thread.submitIoRequest Driver.backend pageAccess =
      .ok ((flow.thread.register world).dispatch req
        (world.record port req ⟨world.port.space, base, 0, []⟩)) := by
    rw [IOThread.submitIoRequest]
    refine bind_ok.mpr ⟨(base, world), allocated, ?_⟩
    simp only [if_neg goes]
    exact IOThread.submitToDevice_ok.mpr ⟨_, took, rfl⟩
  have burst := primed.burst
  obtain ⟨numbered, counted⟩ := primed.counted
  have allowed : flow.reqs = [] ∧ 0 < flow.burst := ⟨primed.idle, by omega⟩
  refine ⟨{ flow with
    thread := (flow.thread.register world).dispatch req
      (world.record port req ⟨world.port.space, base, 0, []⟩)
    burst := flow.burst - 1
    submitted := flow.submitted ++ [pageAccess] }, ?_, ?_, rfl, rfl, ?_⟩
  · simp only [machine, Flow.step, if_pos allowed, ran]
  · have inflight : flow.thread.inflightRequests = count := primed.inflight
    exact {
      idle := primed.idle
      limit := primed.limit
      inflight := by
        simp only [IOThread.dispatch, IOThread.register, inflight]
        exact u32_of_lt (by omega)
      counted := by
        simp only [IOThread.dispatch, IOThread.register, numbered, counted, true_and]
        exact u64_of_lt (by omega)
      issued := by
        simp only [IOThread.dispatch, IOThread.register, primed.issued, List.range_succ,
          List.map_append, List.map_singleton, req, numbered, start, pageRequest]
      quiet := primed.quiet
      burst := by
        simp only
        omega
      size := by simp [IOThread.dispatch, Driver.record, moved, world, primed.size]
      registers := by simp [IOThread.dispatch, Driver.record, moved, world, primed.registers]
      tail := by simp [IOThread.dispatch, Driver.record, moved, next]
      doorbell := by
        simp only [IOThread.dispatch, Driver.record, Driver.tailDoorbell, moved]
        rw [if_pos registers]
        simp [wrote registers, next]
      head := primed.head
      ring := by simp [IOThread.dispatch, Driver.record, moved, world, primed.ring]
      mapping := by
        simp only [IOThread.dispatch, Driver.record, frame.iovaBase, frame.mapSize]
        exact primed.mapping
      room := primed.room
      memory := by
        have behind : origin + (count + 1) * 0x1000 = base + 0x1000 := by omega
        simp only [IOThread.dispatch, Driver.record, frame.table, behind]
        exact left }
  · intro full
    rw [full, Nat.mod_self] at next
    have head : flow.thread.world.sqHead = 0 := primed.head.1
    simp [IOThread.dispatch, Driver.record, moved, next, world, head]

/-- A whole burst overruns the ring when it is as long as the ring. -/
theorem Primed.overruns {depth ioQueueDepth average origin count left : Nat} {start flow : Flow Driver}
    (primed : Primed depth ioQueueDepth average origin count flow)
    (whole : count + (left + 1) = depth) (enough : depth ≤ average)
    (within : depth ≤ ioQueueDepth) (narrow : depth ≤ 2 ^ 16)
    (reached : (machine Driver.backend).Reaches start flow) :
    ∃ after, (machine Driver.backend).Reaches start after ∧ after.thread.world.overrun = true := by
  induction left generalizing flow count with
  | zero =>
    obtain ⟨after, stepped, -, -, -, overran⟩ :=
      primed.submit (by omega) (by omega) within narrow
    exact ⟨after, reached.step stepped, overran whole⟩
  | succ left ih =>
    obtain ⟨after, stepped, next, -⟩ := primed.submit (by omega) (by omega) within narrow
    exact ih next (by omega) (reached.step stepped)

/-- A queue whose rings come from one hole takes them from its base. -/
theorem allocateQueue_single {port : QueuePort} {depth : Nat} (qid dbStride : Nat)
    (holds : port.space.table.Holds [⟨0x1000, 2 ^ 32 - 0x1000⟩]) (narrow : depth ≤ 2 ^ 16) :
    ∃ table cq base, port.allocateQueue qid depth dbStride = .ok { port with
        space := { port.space with table := table }
        nvmeq := port.nvmeq.place qid depth dbStride 0x1000 cq } ∧
      cq + depth * cqeSize ≤ base ∧ base ≤ 2 ^ 24 ∧ base % 0x1000 = 0 ∧
      table.Holds [⟨base, 2 ^ 32 - base⟩] := by
  have sqBytes : u32 (depth <<< nvmeSqes) = depth * 64 := by
    rw [Nat.shiftLeft_eq]
    exact u32_of_lt (by simp only [nvmeSqes]; omega)
  have sqShort : depth * 64 + 0x1000 ≤ 2 ^ 64 := by omega
  have cqShort : depth * cqeSize + 0x1000 ≤ 2 ^ 64 := by simp only [cqeSize]; omega
  obtain ⟨sqPages, sqRounded, -, sqBelow⟩ := HoleTable.roundupPage_spec sqShort
  obtain ⟨cqPages, cqRounded, cqAtLeast, cqBelow⟩ := HoleTable.roundupPage_spec cqShort
  simp only [cqeSize] at cqBelow
  obtain ⟨withSq, gaveSq, holds⟩ := MemorySpace.allocatePages_single holds (le_refl _) (by decide)
    (by decide) sqRounded (by omega)
  have behind : (⟨withSq, port.space.map, port.space.mapSize, port.space.iovaBase⟩ :
      MemorySpace).table.Holds
      [⟨0x1000 + sqPages * 0x1000, 2 ^ 32 - (0x1000 + sqPages * 0x1000)⟩] := holds
  obtain ⟨withCq, gaveCq, holds⟩ := MemorySpace.allocatePages_single behind (le_refl _) (by omega)
    (by omega) cqRounded (by omega)
  refine ⟨withCq, 0x1000 + sqPages * 0x1000, _, ?_, by omega, by omega, by omega, holds⟩
  rw [QueuePort.allocateQueue, sqBytes]
  exact bind_ok.mpr ⟨_, gaveSq, bind_ok.mpr ⟨_, gaveCq, rfl⟩⟩

/-- A shared file of 4 GiB. -/
def wholeFile : Backing := .shared (fun _ => 0) (2 ^ 32)

/-- In a shared file of 4 GiB the first queue begins in the second page and leaves memory for a page
for each of its slots. -/
theorem primed_create {ctrlCap ioQueueDepth : Nat} (positive : 0 < ioQueueDepth)
    (fits : ioQueueDepth < 2 ^ 31) : ∃ space allocated port origin,
      wholeFile.construct = .ok space ∧
      QueuePort.allocateQueue ⟨space, .blank, []⟩ 1 (ringDepth ctrlCap ioQueueDepth) 4 =
        .ok allocated ∧ allocated.initQueue 1 4 0 = .ok port ∧
      ∀ commandIdCounter requestCount average,
        Primed (ringDepth ctrlCap ioQueueDepth) ioQueueDepth average origin 0
          (create (Driver.create port commandIdCounter) ioQueueDepth requestCount average) := by
  have negotiated : ringDepth ctrlCap ioQueueDepth = min (ctrlCap % 2 ^ 16 + 1) ioQueueDepth :=
    ringDepth_eq fits
  have narrow : ringDepth ctrlCap ioQueueDepth ≤ 2 ^ 16 := by omega
  have region : HoleTable.Region 0x1000 (0x1000 + (2 ^ 32 - 0x1000)) := ⟨by decide, by decide⟩
  obtain ⟨first, freed, sound⟩ := HoleTable.Sound.start_ok region (by decide)
  have built : wholeFile.construct = .ok ⟨first, fun _ => 0, 2 ^ 32, 0⟩ := by
    have length : u64 (2 ^ 32 + 2 ^ 64 - 0x1000) = 2 ^ 32 - 0x1000 := by decide
    rw [wholeFile, Backing.construct, MemorySpace.shared, length, freed]
    rfl
  let port : QueuePort := ⟨⟨first, fun _ => 0, 2 ^ 32, 0⟩, .blank, []⟩
  have single : port.space.table.Holds [⟨0x1000, 2 ^ 32 - 0x1000⟩] := sound.holds
  obtain ⟨table, cq, base, ran, above, below, boundary, holds⟩ :=
    allocateQueue_single 1 4 single narrow
  let space : MemorySpace := ⟨table, fun _ => 0, 2 ^ 32, 0⟩
  simp only [cqeSize] at above
  have ends : cq + ringDepth ctrlCap ioQueueDepth * cqeSize ≤ space.iovaBase + space.mapSize := by
    simp only [cqeSize, space]
    omega
  obtain ⟨-, -, mapped⟩ : space.Maps ⟨cq, ringDepth ctrlCap ioQueueDepth * cqeSize⟩ :=
    MemorySpace.maps_of_bounds (Nat.zero_le _) ends (by simp [space])
  obtain ⟨-, -, clears⟩ := mapped cq (ringDepth ctrlCap ioQueueDepth * cqeSize) (le_refl _)
    (by simp only [cqeSize]; omega) (le_refl _)
  obtain ⟨cleared, wrote⟩ := clears 0
  have frame := MemorySpace.frame_write wrote
  let nvmeq := NVMeQueue.blank.place 1 (ringDepth ctrlCap ioQueueDepth) 4 0x1000 cq
  have init : QueuePort.initQueue ⟨space, nvmeq, []⟩ 1 4 0 =
      .ok ⟨cleared, nvmeq.restart 1 4 0, []⟩ := bind_ok.mpr ⟨cleared, wrote, rfl⟩
  refine ⟨_, _, _, base, built, ran, init, ?_⟩
  intro commandIdCounter requestCount average
  exact {
    idle := rfl
    limit := rfl
    inflight := rfl
    counted := ⟨rfl, rfl⟩
    issued := rfl
    quiet := ⟨rfl, rfl⟩
    burst := Nat.zero_add _
    size := rfl
    registers := rfl
    tail := (Nat.zero_mod _).symm
    doorbell := (Nat.zero_mod _).symm
    head := ⟨rfl, rfl, rfl⟩
    ring := ⟨rfl, rfl⟩
    mapping := ⟨frame.iovaBase, frame.mapSize⟩
    room := ⟨by omega, boundary, by omega⟩
    memory := by
      simp only [create, IOThread.create, Driver.create, frame.table, Nat.zero_mul, Nat.add_zero]
      exact holds }

/-- No entry of the submission queue is overwritten before the device has fetched it, and at most
one less than the ring's entries are unfetched, whatever the thread, the driver and the device do. -/
def NeverOverruns (ctrlCap ioQueueDepth requestCount average : Nat) : Prop :=
  ∀ port commandIdCounter flow, IoQueue ctrlCap ioQueueDepth port →
    (machine Driver.backend).Reaches
      (create (Driver.create port commandIdCounter) ioQueueDepth requestCount average) flow →
    flow.thread.world.overrun = false ∧
      flow.thread.world.unfetched.length + 1 ≤ ringDepth ctrlCap ioQueueDepth

section

variable {ctrlCap ioQueueDepth requestCount average : Nat}

/-- A ring longer than the average number of outstanding requests is never overrun. -/
theorem ring_suffices (fits : ioQueueDepth < 2 ^ 31) (fewer : average < ringDepth ctrlCap ioQueueDepth) :
    NeverOverruns ctrlCap ioQueueDepth requestCount average := by
  intro port commandIdCounter flow queue reached
  obtain ⟨size, tail, announced⟩ := queue.fresh
  have negotiated : ringDepth ctrlCap ioQueueDepth = min (ctrlCap % 2 ^ 16 + 1) ioQueueDepth :=
    ringDepth_eq fits
  have narrow : ringDepth ctrlCap ioQueueDepth ≤ 2 ^ 16 := by omega
  have limit : ioQueueDepth < 2 ^ 32 := by omega
  have preserved : ∀ before after : Flow Driver,
      Counted ioQueueDepth before ∧ Ringed (ringDepth ctrlCap ioQueueDepth) average before →
      Moves Driver.backend before after →
      Counted ioQueueDepth after ∧ Ringed (ringDepth ctrlCap ioQueueDepth) average after :=
    fun before after both move =>
      ⟨Counted.moves limit both.1 move, both.2.moves both.1 fewer narrow move⟩
  have positive : 0 < ringDepth ctrlCap ioQueueDepth := by omega
  obtain ⟨⟨-, ringed⟩, -⟩ := reaches_of_moves preserved
    ⟨Counted.create _, Ringed.create positive size tail announced⟩
    (fun waits => absurd rfl waits) reached
  exact ⟨ringed.clean, ringed.spare⟩

/-- A burst as long as the ring overruns it when the device is slow enough. -/
theorem burst_overruns (two : 2 ≤ ioQueueDepth) (fits : ioQueueDepth < 2 ^ 31)
    (whole : ringDepth ctrlCap ioQueueDepth ≤ average) :
    ¬ NeverOverruns ctrlCap ioQueueDepth requestCount average := by
  intro safe
  have negotiated : ringDepth ctrlCap ioQueueDepth = min (ctrlCap % 2 ^ 16 + 1) ioQueueDepth :=
    ringDepth_eq fits
  obtain ⟨space, allocated, port, origin, -, allocate, init, start⟩ := primed_create (by omega) fits
  have queue : IoQueue ctrlCap ioQueueDepth port := .mk rfl allocate rfl init
  have primed := start 0 requestCount average
  have length : 0 + (ringDepth ctrlCap ioQueueDepth - 1 + 1) = ringDepth ctrlCap ioQueueDepth := by
    omega
  obtain ⟨after, reached, overran⟩ := primed.overruns length whole (by omega) (by omega)
    (Machine.Reaches.refl _ _)
  have clean := (safe port 0 after queue reached).1
  rw [overran] at clean
  contradiction

/-- **The submission ring** is never overrun exactly when a flow keeps fewer requests outstanding
than the ring that `reset` configures has entries. -/
theorem neverOverruns_iff (two : 2 ≤ ioQueueDepth) (fits : ioQueueDepth < 2 ^ 31) :
    NeverOverruns ctrlCap ioQueueDepth requestCount average ↔
      average < min (ctrlCap % 2 ^ 16 + 1) ioQueueDepth := by
  rw [← ringDepth_eq fits]
  constructor
  · intro safe
    by_contra whole
    exact burst_overruns two fits (Nat.le_of_not_lt whole) safe
  · exact ring_suffices fits

/-- Sixteen outstanding requests never overrun a ring of 64 entries. -/
theorem neverOverruns_sixteen : 2 ≤ 1024 ∧ NeverOverruns 63 1024 1000 16 :=
  ⟨by decide, (neverOverruns_iff (by decide) (by decide)).mpr (by decide)⟩

/-- With 1024 entries configured, 64 requests overrun a ring that the device limits to 64 entries. -/
theorem overruns_limited : 2 ≤ 1024 ∧ ¬ NeverOverruns 63 1024 1000 64 :=
  ⟨by decide, burst_overruns (by decide) (by decide) (by decide)⟩

end

end Flow

end McmqHost
