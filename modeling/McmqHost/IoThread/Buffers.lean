import McmqHost.Driver.Io
import McmqHost.IoThread.Scheduler
import McmqHost.MemorySpace.Stock

/-!
# Buffers over a whole flow

A request's buffer is rounded up to whole pages when it is allocated, and given back with
the size of the request. The bytes between the two are lost, request by request; nothing
else is. So free memory returns to what it was at the start exactly when every request is a
whole number of pages.
-/

namespace McmqHost

open Extents HoleTable Relation

/-- The buffer of a request. -/
def IORequest.buffer (req : IORequest) : Extent := ⟨req.buf, req.size⟩

/-- A request whose size can be rounded to pages. -/
abbrev Access.Sized (access : Access) : Prop := Rounds access.size

namespace Driver

/-- The hole table behind the driver. -/
def table (driver : Driver) : HoleTable := driver.port.space.table

/-- The list pages that commands keep. -/
def listPages (driver : Driver) : List Address := driver.commands.flatMap (·.prpLists)

variable {driver after : Driver}

theorem allocatePages_ok {len : Nat} {buf : Address}
    (ok : backend.allocatePages driver len = .ok (buf, after)) :
    driver.table.allocatePages len = .ok (buf, after.table) ∧ after.listPages = driver.listPages := by
  obtain ⟨⟨address, space⟩, gave, ok⟩ := bind_ok.mp ok
  cases ok
  exact ⟨MemorySpace.table_allocatePages gave, rfl⟩

theorem free_ok {len : Nat} {addr : Address} (ok : backend.free driver addr len = .ok after) :
    driver.table.free addr len = .ok after.table ∧ after.listPages = driver.listPages := by
  obtain ⟨table, freed, ok⟩ := bind_ok.mp ok
  cases ok
  exact ⟨freed, rfl⟩

/-- A command takes list pages one after another, and keeps them. -/
theorem rwAsync_pages {req : IORequest} (P : HoleTable → List Address → Prop)
    (grow : ∀ table prpLists address next, P table prpLists →
      table.allocatePages ctrlPageSize = .ok (address, next) → P next (prpLists ++ [address]))
    (start : P driver.table []) (ok : backend.rwAsync driver req = .ok after) :
    ∃ prpLists, P after.table prpLists ∧ after.listPages = driver.listPages ++ prpLists := by
  obtain ⟨doWrite, ok⟩ := rwAsync_ok ok
  obtain ⟨prps, port, described, submitted, rfl⟩ := submitRwCommand_ok ok
  have same : port.space.table = prps.space.table  :=
    (QueuePort.frame_submitSqCommand submitted).table
  refine ⟨prps.prpLists, ?_, by simp [listPages, record]⟩
  change P port.space.table prps.prpLists
  rw [same]
  unfold describe at described
  split at described
  · exact Prps.setupBuffer_rule grow start described
  · obtain rfl := Except.ok.inj described
    exact start

theorem complete_ok {req : IORequest} (ok : backend.complete driver req = some after) :
    after.table = driver.table ∧ after.listPages = driver.listPages := by
  change driver.complete req = some after at ok
  unfold complete at ok
  split at ok
  · obtain rfl := Option.some.inj ok
    refine ⟨rfl, ?_⟩
    simp only [listPages, List.flatMap_map]
    congr 1
    funext command
    split <;> rfl
  · contradiction

/-- The device fetches, or a command gives its list pages back. -/
theorem evolve_ok {event : DriverEvent} (ok : backend.evolve driver event = some after) :
    (after.table = driver.table ∧ after.listPages = driver.listPages) ∨
      ∃ front prpLists back, driver.listPages = front ++ (prpLists ++ back) ∧
        after.listPages = front ++ back ∧
        Prps.freePrpLists driver.table prpLists = .ok after.table := by
  cases event with
  | fetch =>
    change driver.fetch = some after at ok
    unfold fetch at ok
    split at ok
    · contradiction
    · obtain rfl := Option.some.inj ok
      exact Or.inl ⟨rfl, rfl⟩
  | release index =>
    change driver.release index = some after at ok
    unfold release at ok
    split at ok
    · contradiction
    · rename_i command held
      split at ok
      · split at ok
        · contradiction
        · rename_i table freed
          obtain rfl := Option.some.inj ok
          obtain ⟨inside, found⟩ := List.getElem?_eq_some_iff.mp held
          have split := List.take_append_drop index driver.commands
          rw [List.drop_eq_getElem_cons inside, found] at split
          refine Or.inr ⟨(driver.commands.take index).flatMap (·.prpLists), command.prpLists,
            (driver.commands.drop (index + 1)).flatMap (·.prpLists), ?_, ?_, freed⟩
          · have pages := congrArg (List.flatMap (·.prpLists)) split
            rw [List.flatMap_append, List.flatMap_cons] at pages
            exact pages.symm
          · simp [listPages, List.eraseIdx_eq_take_drop_succ]
      · contradiction

end Driver

namespace Flow

/-- Requests that hold their buffer: waiting, issued, completed or in the batch. -/
def holders (flow : Flow Driver) : List IORequest :=
  flow.thread.waitingRequests ++ flow.thread.issued ++ flow.thread.completedRequests ++ flow.reqs

/-- Bytes of processed requests that were not given back. -/
def lost (flow : Flow Driver) : Set Nat := cover (flow.processed.map fun req => bufferSlack req.buffer)

/-- Memory throughout a flow whose requests have sizes that can be rounded. -/
def Buffered (low high : Nat) (pool : Set Nat) (flow : Flow Driver) : Prop :=
  (∀ access ∈ flow.submitted, access.Sized) →
    Stocked low high pool flow.thread.world.table (flow.holders.map (·.buffer))
      flow.thread.world.listPages flow.lost

variable {low high : Nat} {pool : Set Nat} {before after : Flow Driver}

/-- Every move keeps memory accounted for. -/
theorem Buffered.moves (region : Region low high) (buffered : Buffered low high pool before)
    (move : Moves Driver.backend before after) : Buffered low high pool after := by
  cases move with
  | @arrive access buf world _ gave =>
    intro sized
    have earlier : ∀ access ∈ before.submitted, access.Sized :=
      fun other listed => sized other (List.mem_append_left _ listed)
    have latest : access.Sized := sized access (List.mem_append_right _ List.mem_cons_self)
    obtain ⟨gave, pages⟩ := Driver.allocatePages_ok gave
    have next := (buffered earlier).take region latest gave
    have holders : (⟨access, before.thread.allocated, buf⟩ :: before.holders).Perm
        (before.arrive access buf world).holders := by
      simp only [Flow.holders, Flow.arrive, IOThread.setWaiting, IOThread.register,
        List.append_assoc, List.singleton_append]
      exact List.perm_middle.symm
    change Stocked low high pool world.table _ world.listPages before.lost
    rw [pages]
    exact next.perm (holders.map IORequest.buffer) (.refl _)
  | @pass req rest world queue _ took =>
    intro sized
    have stocked := buffered sized
    obtain ⟨prpLists, next, pages⟩ := Driver.rwAsync_pages
      (fun table prpLists => Stocked low high pool table (before.holders.map (·.buffer))
        (before.thread.world.listPages ++ prpLists) before.lost)
      (fun table prpLists address next stocked gave => by
        rw [← List.append_assoc]
        exact (stocked.takePage region gave).perm (.refl _) (List.perm_append_singleton _ _).symm)
      (by rwa [List.append_nil]) took
    have holders : before.holders.Perm (before.pass req rest world).holders := by
      have moved : (req :: (rest ++ before.thread.issued ++ (before.thread.completedRequests ++
          before.reqs))).Perm (rest ++ before.thread.issued ++ req ::
            (before.thread.completedRequests ++ before.reqs)) := List.perm_middle.symm
      simpa [Flow.holders, Flow.pass, IOThread.dispatch, IOThread.setWaiting, queue] using moved
    change Stocked low high pool world.table _ world.listPages before.lost
    rw [pages]
    exact next.perm (holders.map (·.buffer)) (.refl _)
  | @finish req rest world batch freed =>
    intro sized
    have stocked := buffered sized
    obtain ⟨freed, pages⟩ := Driver.free_ok freed
    have holders : before.holders.Perm (req :: (before.finish req rest world).holders) := by
      simp only [Flow.holders, Flow.finish, IOThread.settle, batch]
      exact List.perm_middle
    have ordered : Stocked low high pool before.thread.world.table
        (req.buffer :: (before.finish req rest world).holders.map (·.buffer))
        before.thread.world.listPages before.lost :=
      stocked.perm (holders.map (·.buffer)) (.refl _)
    have next := ordered.giveBack region freed
    change Stocked low high pool world.table _ world.listPages
      (cover ((before.processed ++ [req]).map fun req => bufferSlack req.buffer))
    rw [pages, List.map_append, cover_append]
    simpa [Flow.lost] using next
  | waive _ => exact buffered
  | @notify index req world held done =>
    intro sized
    have stocked := buffered sized
    obtain ⟨same, pages⟩ := Driver.complete_ok done
    have holders : before.holders.Perm (before.callBack index req world).holders := by
      obtain ⟨inside, found⟩ := List.getElem?_eq_some_iff.mp held
      have issued := List.getElem_cons_eraseIdx_perm inside
      rw [found] at issued
      have moved : (req :: (before.thread.issued.eraseIdx index ++
          before.thread.completedRequests)).Perm (before.thread.issued.eraseIdx index ++
            before.thread.completedRequests ++ [req]) := (List.perm_append_singleton _ _).symm
      have queues := ((issued.symm.append_right before.thread.completedRequests).trans moved)
      have whole := (queues.append_left before.thread.waitingRequests).append_right before.reqs
      simpa [Flow.holders, Flow.callBack, IOThread.notifyRequestCompletion] using whole
    change Stocked low high pool world.table _ world.listPages before.lost
    rw [same, pages]
    exact stocked.perm (holders.map (·.buffer)) (.refl _)
  | take empty =>
    intro sized
    have holders : before.holders.Perm before.take.holders := by
      simp [Flow.holders, Flow.take, IOThread.takeCompleted, empty]
    exact (buffered sized).perm (holders.map (·.buffer)) (.refl _)
  | @evolve event world moved =>
    intro sized
    have stocked := buffered sized
    obtain ⟨same, pages⟩ | ⟨front, prpLists, back, pages, left, freed⟩ := Driver.evolve_ok moved
    · change Stocked low high pool world.table (before.holders.map (·.buffer)) world.listPages
        before.lost
      rw [same, pages]
      exact stocked
    · change Stocked low high pool world.table (before.holders.map (·.buffer)) world.listPages
        before.lost
      rw [left]
      rw [pages] at stocked
      exact (stocked.perm (.refl _) (List.perm_append_comm_assoc _ _ _)).giveBackPages region freed

/-- Once every request is processed none holds its buffer. -/
theorem holders_nil {queueDepth : Nat} {flow : Flow Driver} (counted : Counted queueDepth flow)
    (served : flow.processed.length = flow.submitted.length) : flow.holders = [] := by
  have queued := congrArg List.length counted.queued
  have issued := counted.served.length_eq
  have delivered := congrArg List.length counted.delivered
  simp only [List.length_append, List.length_map] at queued issued delivered
  apply List.eq_nil_of_length_eq_zero
  simp only [holders, List.length_append]
  omega

/-- Once every request is processed, the processed requests are the submitted ones. -/
theorem processed_submitted {queueDepth : Nat} {flow : Flow Driver}
    (counted : Counted queueDepth flow)
    (served : flow.processed.length = flow.submitted.length) :
    (flow.processed.map (·.toAccess)).Perm flow.submitted := by
  have empty := holders_nil counted served
  simp only [holders, List.append_eq_nil_iff] at empty
  obtain ⟨⟨⟨waiting, issued⟩, completed⟩, batch⟩ := empty
  have dispatched := counted.served
  have delivered := counted.delivered
  rw [issued, List.nil_append, delivered, completed, batch, List.append_nil, List.append_nil]
    at dispatched
  have queued := counted.queued
  rw [waiting, List.append_nil] at queued
  rw [← queued]
  exact dispatched.symm.map _

end Flow

/-- All that was free before is free, or kept by commands as list pages. -/
def Driver.ReturnedInFull (driver : Driver) (before : HoleTable) : Prop :=
  driver.table.freeBytes ∪ cover (driver.listPages.map pageExtent) = before.freeBytes

namespace Flow

/-- What the accounts say about memory once every request is processed. -/
theorem Buffered.served {low high queueDepth : Nat} {initial : List Extent} {before : HoleTable}
    {flow : Flow Driver} (buffered : Buffered low high (cover initial) flow)
    (counted : Counted queueDepth flow) (holds : before.Holds initial)
    (coalesced : Coalesced initial) (sized : ∀ access ∈ flow.submitted, access.Sized)
    (served : flow.processed.length = flow.submitted.length) :
    (flow.thread.world.ReturnedInFull before ↔
      ∀ access ∈ flow.submitted, access.size % 0x1000 = 0) ∧
    (flow.thread.world.ReturnedInFull before → flow.thread.world.commands = [] →
      flow.thread.world.table.Holds initial) := by
  have stocked := buffered sized
  rw [holders_nil counted served] at stocked
  obtain ⟨extents, paged⟩ := stocked.paged
  rw [List.map_nil, List.map_nil, List.nil_append] at paged
  have free := freeBytes_eq paged.sound.holds
  have conserved := paged.conserved
  have lossless : flow.thread.world.ReturnedInFull before ↔ flow.lost = ∅ := by
    rw [Driver.ReturnedInFull, free, freeBytes_eq holds, ← conserved]
    constructor
    · intro same
      apply Set.eq_empty_of_forall_notMem
      intro byte gone
      refine Set.disjoint_left.mp paged.spent gone ?_
      rw [same]
      exact Or.inr gone
    · intro none
      rw [none, Set.union_empty]
  have whole : flow.lost = ∅ ↔ ∀ access ∈ flow.submitted, access.size % 0x1000 = 0 := by
    have same := processed_submitted counted served
    rw [lost, cover_eq_empty, List.forall_mem_map]
    constructor
    · intro empty access listed
      obtain ⟨req, done, rfl⟩ := List.mem_map.mp (same.mem_iff.mpr listed)
      exact (bufferSlack_empty (sized _ listed)).mp (empty req done)
    · intro whole req done
      have listed := same.mem_iff.mp (List.mem_map_of_mem done)
      exact (bufferSlack_empty (sized _ listed)).mpr (whole _ listed)
  refine ⟨lossless.trans whole, ?_⟩
  intro returned removed
  have lists : flow.thread.world.listPages = [] := by simp [Driver.listPages, removed]
  have cover : cover extents = cover initial := by
    rw [Driver.ReturnedInFull, free, freeBytes_eq holds, lists] at returned
    simpa using returned
  rw [← coalesced_unique paged.sound.coalesced coalesced cover]
  exact paged.sound.holds

/-- A flow on page-granular memory keeps it accounted for. -/
theorem buffered_of_paged {low high : Nat} {initial : List Extent} (region : Region low high)
    {port : QueuePort} (paged : Paged low high (cover initial) port.space.table initial [] ∅)
    {commandIdCounter queueDepth requestCount burst : Nat} (narrow : queueDepth < 2 ^ 32)
    {flow : Flow Driver} (reached : (machine Driver.backend).Reaches
      (create (Driver.create port commandIdCounter) queueDepth requestCount burst) flow) :
    Buffered low high (cover initial) flow ∧ Counted queueDepth flow := by
  have start : Buffered low high (cover initial)
      (create (Driver.create port commandIdCounter) queueDepth requestCount burst) := by
    intro _
    refine ⟨⟨initial, ?_⟩, ?_, ?_⟩
    · simpa [holders, lost, Driver.listPages, Driver.table, create, IOThread.create,
        Driver.create] using paged
    · simp [holders, create, IOThread.create]
    · simp [Driver.listPages, create, IOThread.create, Driver.create]
  have preserved : ∀ before after, Buffered low high (cover initial) before ∧ Counted queueDepth before →
      Moves Driver.backend before after →
      Buffered low high (cover initial) after ∧ Counted queueDepth after :=
    fun _ _ good move => ⟨good.1.moves region move, Counted.moves narrow good.2 move⟩
  exact (reaches_of_moves preserved ⟨start, Counted.create _⟩ (fun waits => absurd rfl waits) reached).1

/-- A flow on an admitted memory space keeps memory accounted for, from what was free when the
thread started. -/
theorem buffered_of_reaches {backing : Backing} (admitted : backing.Admitted) {space : MemorySpace}
    (built : backing.construct = .ok space) {calls : List MemoryCall}
    (whole : ∀ call ∈ calls, call.Pagewise) {tenancy : Tenancy}
    (history : Tenancy.machine.run ⟨space, []⟩ calls = some tenancy) {port : QueuePort}
    (memory : port.space = tenancy.space)
    {commandIdCounter queueDepth requestCount burst : Nat} (narrow : queueDepth < 2 ^ 32)
    {flow : Flow Driver} (reached : (machine Driver.backend).Reaches
      (create (Driver.create port commandIdCounter) queueDepth requestCount burst) flow) :
    ∃ low high initial, tenancy.space.table.Holds initial ∧ Coalesced initial ∧
      Buffered low high (cover initial) flow ∧ Counted queueDepth flow := by
  obtain ⟨low, high, initial, region, paged⟩ := Backing.pagewise admitted built whole history
  rw [← memory] at paged
  obtain ⟨buffered, counted⟩ := buffered_of_paged region paged narrow reached
  rw [memory] at paged
  exact ⟨low, high, initial, paged.sound.holds, paged.sound.coalesced, buffered, counted⟩

/-- **I/O buffers are returned in full** exactly when every request is a whole number of pages. In
every flow on an admitted memory space, once every submitted request is processed, the addresses
that were free before it are free again or kept by commands as list pages if and only if every size
was a multiple of the page size; when the commands are removed, too, the holes are those from
before the flow. -/
theorem returned_iff {backing : Backing} (admitted : backing.Admitted) {space : MemorySpace}
    (built : backing.construct = .ok space) {calls : List MemoryCall}
    (whole : ∀ call ∈ calls, call.Pagewise) {tenancy : Tenancy}
    (history : Tenancy.machine.run ⟨space, []⟩ calls = some tenancy) {port : QueuePort}
    (memory : port.space = tenancy.space)
    {commandIdCounter queueDepth requestCount burst : Nat} (narrow : queueDepth < 2 ^ 32)
    {flow : Flow Driver} (reached : (machine Driver.backend).Reaches
      (create (Driver.create port commandIdCounter) queueDepth requestCount burst) flow)
    (sized : ∀ access ∈ flow.submitted, access.Sized)
    (served : flow.processed.length = flow.submitted.length) :
    (flow.thread.world.ReturnedInFull tenancy.space.table ↔
      ∀ access ∈ flow.submitted, access.size % 0x1000 = 0) ∧
    ((∀ access ∈ flow.submitted, access.size % 0x1000 = 0) → flow.thread.world.commands = [] →
      ∀ holes, tenancy.space.table.Holds holes → flow.thread.world.table.Holds holes) := by
  obtain ⟨low, high, initial, holds, coalesced, buffered, counted⟩ :=
    buffered_of_reaches admitted built whole history memory narrow reached
  obtain ⟨exactly, holes⟩ := buffered.served counted holds coalesced sized served
  refine ⟨exactly, ?_⟩
  intro pages removed others same
  rw [same.unique holds]
  exact holes (exactly.mpr pages) removed

/-- A shared memory of sixteen pages. -/
def smallBacking : Backing := .shared (fun _ => 0) 0x10000

/-- A queue of two entries in its second page. -/
def smallPort (space : MemorySpace) : QueuePort :=
  ⟨space, { NVMeQueue.blank with sqDmaAddr := 0x1000, depth := 2, sqeShift := 6, qDb := 0x1008 }, []⟩

/-- One request is submitted, fetched, completed, processed and removed. -/
def oneRequest (size : Nat) : List (FlowInput DriverEvent) :=
  [.submit ⟨true, 1, 0, size⟩, .evolve .fetch, .notify 0, .wait, .process ⟨true, 1, 0, size⟩,
    .evolve (.release 0)]

/-- What happens to one request on the small queue. -/
def Served (size : Nat) (space : MemorySpace) (tenancy : Tenancy) (flow : Flow Driver) : Prop :=
  smallBacking.construct = .ok space ∧
    Tenancy.machine.run ⟨space, []⟩ [.allocatePages 0x80] = some tenancy ∧
    (machine Driver.backend).run (create (Driver.create (smallPort tenancy.space) 0) 1 1 1)
      (oneRequest size) = some flow ∧
    flow.submitted = [⟨true, 1, 0, size⟩] ∧ flow.processed.length = 1 ∧
    flow.thread.world.commands = []

/-- A request of one page leaves memory as it was. -/
theorem returned_page : ∃ space tenancy flow, Served 0x1000 space tenancy flow ∧
    flow.thread.world.ReturnedInFull tenancy.space.table := by
  have served : ∃ space tenancy flow, Served 0x1000 space tenancy flow :=
    ⟨_, _, _, rfl, rfl, rfl, rfl, rfl, rfl⟩
  obtain ⟨space, tenancy, flow, served⟩ := served
  refine ⟨space, tenancy, flow, served, ?_⟩
  obtain ⟨built, history, ran, submitted, processed, -⟩ := served
  have admitted : smallBacking.Admitted := ⟨by decide, by decide⟩
  have exactly := (returned_iff admitted built (by simp [MemoryCall.Pagewise]) history rfl
    (by decide) ⟨_, ran⟩ (by rw [submitted]; decide) (by rw [submitted, processed]; rfl)).1
  apply exactly.mpr
  rw [submitted]
  decide

/-- A request of one sector does not: seven eighths of its page are lost. -/
theorem sector_lost : ∃ space tenancy flow, Served 0x200 space tenancy flow ∧
    ¬ flow.thread.world.ReturnedInFull tenancy.space.table := by
  have served : ∃ space tenancy flow, Served 0x200 space tenancy flow :=
    ⟨_, _, _, rfl, rfl, rfl, rfl, rfl, rfl⟩
  obtain ⟨space, tenancy, flow, served⟩ := served
  refine ⟨space, tenancy, flow, served, ?_⟩
  obtain ⟨built, history, ran, submitted, processed, -⟩ := served
  have admitted : smallBacking.Admitted := ⟨by decide, by decide⟩
  obtain ⟨low, high, initial, holds, coalesced, buffered, counted⟩ :=
    buffered_of_reaches admitted built (by simp [MemoryCall.Pagewise]) history rfl (by decide)
      ⟨_, ran⟩
  have exactly := (buffered.served counted holds coalesced (by rw [submitted]; decide)
    (by rw [submitted, processed]; rfl)).1
  intro returned
  have pages := exactly.mp returned
  rw [submitted] at pages
  exact absurd pages (by decide)

end Flow

end McmqHost
