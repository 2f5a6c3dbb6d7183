import McmqHost.IoThread.Buffers
import McmqHost.MemorySpace.Capacity

/-!
# Giving memory back throughout a flow

A thread gives a buffer back for each request that it processes, and the interrupt handler gives
back the list pages of each command. In whatever order the device completes the requests, each can
be given back exactly when free memory lies in fewer ranges than the hole table has slots. This is
so when the blocks live before the flow, the requests that the thread keeps outstanding and the list
pages in use are 510 at most.
-/

namespace McmqHost

open Extents HoleTable

namespace Stocked

variable {low high : Nat} {initial buffers : List Extent} {table after : HoleTable}
  {pages prpLists : List Address} {lost : Set Nat}

/-- A buffer can be given back exactly when free memory lies in fewer ranges than there are slots. -/
theorem givesBack_iff (stocked : Stocked low high (cover initial) table buffers pages lost)
    (region : Region low high) {buffer : Extent} (used : buffer ∈ buffers) :
    (∃ after, table.free buffer.base buffer.len = .ok after) ↔
      (starts table.freeBytes).ncard < nrHoles := by
  obtain ⟨extents, paged⟩ := stocked.paged
  obtain ⟨-, rounds⟩ := stocked.aligned buffer used
  obtain ⟨count, rounded, atLeast, -⟩ := roundupPage_spec rounds.2
  have listed : bufferPages buffer ∈ buffers.map bufferPages ++ pages.map pageExtent :=
    List.mem_append_left _ (List.mem_map_of_mem used)
  have within : buffer.len ≤ (bufferPages buffer).len := by
    simp only [bufferPages, rounded]
    omega
  exact paged.gives_iff region listed rounds.1 within

/-- A list page that is given back is free from then on. -/
theorem freeBytes_page {page : Address}
    (stocked : Stocked low high (cover initial) table buffers (page :: pages) lost)
    (region : Region low high) (freed : table.free page 0x1000 = .ok after) :
    after.freeBytes = table.freeBytes ∪ (pageExtent page).bytes := by
  obtain ⟨extents, paged⟩ := stocked.paged
  have room := Sound.room_of_free (by decide) freed
  have live : Set.Ico page (page + 0x1000) ⊆
      cover (buffers.map bufferPages ++ (page :: pages).map pageExtent) := by
    intro byte inside
    exact mem_cover.mpr ⟨pageExtent page, by simp, inside⟩
  obtain ⟨next, again, sound⟩ := paged.sound.free region (by decide) live room
  obtain rfl := Except.ok.inj (freed.symm.trans again)
  rw [freeBytes_eq sound.holds, freeBytes_eq paged.sound.holds, cover_release, Set.union_comm]
  rfl

/-- The list pages of a command can be given back one after the other exactly when there is room. -/
theorem givesBackPages_iff (region : Region low high)
    (stocked : Stocked low high (cover initial) table buffers (prpLists ++ pages) lost) :
    (∃ after, Prps.freePrpLists table prpLists = .ok after) ↔ Room table.freeBytes prpLists := by
  induction prpLists generalizing table with
  | nil => exact ⟨fun _ => trivial, fun _ => ⟨table, rfl⟩⟩
  | cons page rest ih =>
    obtain ⟨extents, paged⟩ := stocked.paged
    have listed : pageExtent page ∈
        buffers.map bufferPages ++ (page :: rest ++ pages).map pageExtent := by simp
    have gives : (∃ after, table.free page 0x1000 = .ok after) ↔
        (starts table.freeBytes).ncard < nrHoles :=
      paged.gives_iff region listed (show 0 < 0x1000 by decide) (le_refl _)
    rw [Room, ← gives]
    constructor
    · rintro ⟨after, ran⟩
      obtain ⟨next, freed, more⟩ := bind_ok.mp ran
      have room := (ih (stocked.giveBackPage region freed)).mp ⟨after, more⟩
      rw [stocked.freeBytes_page region freed] at room
      exact ⟨⟨next, freed⟩, room⟩
    · rintro ⟨⟨next, freed⟩, room⟩
      rw [← stocked.freeBytes_page region freed] at room
      obtain ⟨after, more⟩ := (ih (stocked.giveBackPage region freed)).mpr room
      exact ⟨after, bind_ok.mpr ⟨next, freed, more⟩⟩

/-- A buffer can be given back when few blocks are in use. -/
theorem givesBack (stocked : Stocked low high (cover initial) table buffers pages ∅)
    (region : Region low high) (few : buffers.length + pages.length + initial.length < nrHoles)
    {buffer : Extent} (used : buffer ∈ buffers) :
    ∃ after, table.free buffer.base buffer.len = .ok after := by
  obtain ⟨extents, paged⟩ := stocked.paged
  have fewer : (buffers.map bufferPages ++ pages.map pageExtent).length + initial.length <
      nrHoles := by
    rwa [List.length_append, List.length_map, List.length_map]
  exact (stocked.givesBack_iff region used).mpr (paged.few fewer)

/-- The list pages of a command can be given back one after the other. -/
theorem givesBackPages (region : Region low high)
    (stocked : Stocked low high (cover initial) table buffers (prpLists ++ pages) ∅)
    (few : buffers.length + (prpLists ++ pages).length + initial.length < nrHoles) :
    ∃ after, Prps.freePrpLists table prpLists = .ok after := by
  induction prpLists generalizing table with
  | nil => exact ⟨table, rfl⟩
  | cons page rest ih =>
    obtain ⟨extents, paged⟩ := stocked.paged
    have listed : pageExtent page ∈
        buffers.map bufferPages ++ (page :: rest ++ pages).map pageExtent := by simp
    have fewer : (buffers.map bufferPages ++ (page :: rest ++ pages).map pageExtent).length +
        initial.length < nrHoles := by
      rwa [List.length_append, List.length_map, List.length_map]
    obtain ⟨next, freed⟩ := (paged.gives_iff region listed (show 0 < 0x1000 by decide)
      (le_refl _)).mpr (paged.few fewer)
    rw [List.cons_append, List.length_cons] at few
    obtain ⟨after, ran⟩ := ih (stocked.giveBackPage region freed) (by omega)
    exact ⟨after, bind_ok.mpr ⟨next, freed, ran⟩⟩

end Stocked

namespace Flow

/-- Each submission beyond the first ones follows a processed request. -/
def Outstanding (average : Nat) (flow : Flow Driver) : Prop :=
  flow.submitted.length + flow.burst ≤ flow.processed.length + average

variable {average queueDepth : Nat} {before after flow : Flow Driver}

/-- Every move keeps that so. -/
theorem Outstanding.moves (outstanding : Outstanding average before)
    (move : Moves Driver.backend before after) : Outstanding average after := by
  unfold Outstanding at outstanding ⊢
  cases move with
  | arrive allowed gave =>
    simp only [Flow.arrive, List.length_append, List.length_singleton]
    omega
  | pass waits below took => exact outstanding
  | finish batch freed =>
    simp only [Flow.finish, List.length_append, List.length_singleton]
    omega
  | waive allowed =>
    simp only [Flow.waive]
    omega
  | notify issued completed => exact outstanding
  | take empty => exact outstanding
  | evolve evolved => exact outstanding

/-- No more requests hold a buffer than the thread keeps outstanding. -/
theorem Counted.holders_le (counted : Counted queueDepth flow)
    (outstanding : Outstanding average flow) : flow.holders.length ≤ average := by
  have queued := congrArg List.length counted.queued
  have issued := counted.served.length_eq
  have delivered := congrArg List.length counted.delivered
  unfold Outstanding at outstanding
  simp only [List.length_append, List.length_map] at queued issued delivered
  simp only [holders, List.length_append]
  omega

/-- A processed request was submitted. -/
theorem Counted.processed_mem (counted : Counted queueDepth flow) {req : IORequest}
    (done : req ∈ flow.processed) : req.toAccess ∈ flow.submitted := by
  have notified : req ∈ flow.notified := by
    rw [counted.delivered]
    simp [done]
  have dispatched : req ∈ flow.thread.dispatched :=
    counted.served.mem_iff.mpr (List.mem_append_right _ notified)
  rw [← counted.queued]
  exact List.mem_map_of_mem (List.mem_append_left _ dispatched)

/-- Buffers of whole pages are given back in full. -/
theorem Counted.lost_eq (counted : Counted queueDepth flow)
    (whole : ∀ access ∈ flow.submitted, access.Sized ∧ access.size % 0x1000 = 0) :
    flow.lost = ∅ := by
  rw [lost, cover_eq_empty, List.forall_mem_map]
  intro req done
  obtain ⟨sized, pages⟩ := whole _ (counted.processed_mem done)
  exact (bufferSlack_empty sized).mpr pages

/-- The list pages in use are those of a command and those of the others. -/
theorem listPages_perm {driver : Driver} {index : Nat} {command : CommandPages}
    (found : driver.commands[index]? = some command) :
    driver.listPages.Perm
      (command.prpLists ++ (driver.commands.eraseIdx index).flatMap (·.prpLists)) := by
  obtain ⟨inside, rfl⟩ := List.getElem?_eq_some_iff.mp found
  rw [Driver.listPages, ← List.flatMap_cons]
  exact (List.getElem_cons_eraseIdx_perm inside).symm.flatMap_right _

/-- A called command is removed exactly when its list pages can be given back. -/
theorem release_iff {driver : Driver} {index : Nat} {command : CommandPages}
    (found : driver.commands[index]? = some command) (called : command.called = true) :
    (∃ world, driver.release index = some world) ↔
      ∃ table, Prps.freePrpLists driver.table command.prpLists = .ok table := by
  rw [Driver.release, found, Driver.table]
  simp only [called, ↓reduceIte]
  cases Prps.freePrpLists driver.port.space.table command.prpLists <;> simp

/-- The buffer of a request is given back exactly when the table takes it. -/
theorem free_iff {driver : Driver} {buf size : Nat} :
    (∃ world, Driver.backend.free driver buf size = .ok world) ↔
      ∃ table, driver.table.free buf size = .ok table := by
  constructor
  · rintro ⟨world, freed⟩
    obtain ⟨table, gone, -⟩ := bind_ok.mp freed
    exact ⟨table, gone⟩
  · rintro ⟨table, freed⟩
    exact ⟨driver.setTable table, bind_ok.mpr ⟨table, freed, rfl⟩⟩

section

variable {backing : Backing} {space : MemorySpace} {calls : List MemoryCall} {tenancy : Tenancy}
  {port : QueuePort} {commandIdCounter requestCount burst : Nat}

/-- **When giving back returns**: in every flow on an admitted memory space, the buffer of the next
completed request can be given back exactly when free memory lies in fewer than 512 ranges, and the
list pages of a command whose callback was called exactly when that is so before each of them. -/
theorem giving_back_iff (admitted : backing.Admitted) (built : backing.construct = .ok space)
    (whole : ∀ call ∈ calls, call.Pagewise)
    (history : Tenancy.machine.run ⟨space, []⟩ calls = some tenancy)
    (memory : port.space = tenancy.space) (narrow : queueDepth < 2 ^ 32)
    (reached : (machine Driver.backend).Reaches
      (create (Driver.create port commandIdCounter) queueDepth requestCount burst) flow)
    (sized : ∀ access ∈ flow.submitted, access.Sized) :
    (∀ req rest, flow.reqs = req :: rest →
      ((∃ world, Driver.backend.free flow.thread.world req.buf req.size = .ok world) ↔
        (starts flow.thread.world.table.freeBytes).ncard < nrHoles)) ∧
    ∀ index command, flow.thread.world.commands[index]? = some command → command.called = true →
      ((∃ world, flow.thread.world.release index = some world) ↔
        Room flow.thread.world.table.freeBytes command.prpLists) := by
  have region := (Backing.released_ok admitted built).1
  obtain ⟨⟨initial, paged⟩, -⟩ := (Backing.pagewise_start admitted built).run region whole history
  have fresh := paged.fresh
  rw [← memory] at fresh
  have stocked := (buffered_of_paged region fresh narrow reached).1 sized
  constructor
  · intro req rest batch
    have used : req.buffer ∈ flow.holders.map (·.buffer) := by
      apply List.mem_map_of_mem
      simp [holders, batch]
    rw [free_iff]
    exact stocked.givesBack_iff region used
  · intro index command found called
    rw [release_iff found called]
    exact (stocked.perm (.refl _) (listPages_perm found)).givesBackPages_iff region

/-- **Giving back never ends the program**: in every flow of requests for whole pages on an admitted
memory space, in which the blocks live before it, the requests kept outstanding and the list pages in
use are 510 at most, the buffer of the next completed request and the list pages of each command
whose callback was called can be given back. -/
theorem giving_back_returns (admitted : backing.Admitted) (built : backing.construct = .ok space)
    (whole : ∀ call ∈ calls, call.Pagewise)
    (history : Tenancy.machine.run ⟨space, []⟩ calls = some tenancy)
    (memory : port.space = tenancy.space) (narrow : queueDepth < 2 ^ 32)
    (reached : (machine Driver.backend).Reaches
      (create (Driver.create port commandIdCounter) queueDepth requestCount burst) flow)
    (sized : ∀ access ∈ flow.submitted, access.Sized ∧ access.size % 0x1000 = 0)
    (few : tenancy.live.length + burst + flow.thread.world.listPages.length ≤ 510) :
    (∀ req rest, flow.reqs = req :: rest →
      ∃ world, Driver.backend.free flow.thread.world req.buf req.size = .ok world) ∧
    ∀ index command, flow.thread.world.commands[index]? = some command → command.called = true →
      ∃ world, flow.thread.world.release index = some world := by
  have region := (Backing.released_ok admitted built).1
  obtain ⟨⟨initial, paged⟩, -⟩ := (Backing.pagewise_start admitted built).run region whole history
  have holes := paged.length_le
  rw [List.length_singleton] at holes
  have fresh := paged.fresh
  rw [← memory] at fresh
  obtain ⟨buffered, counted⟩ := buffered_of_paged region fresh narrow reached
  have outstanding : Outstanding burst flow := by
    have kept : ∀ before after : Flow Driver, Outstanding burst before →
        Moves Driver.backend before after → Outstanding burst after :=
      fun _ _ outstanding move => outstanding.moves move
    exact (reaches_of_moves kept (Nat.le_refl _) (fun waits => absurd rfl waits) reached).1
  have stocked := buffered fun access listed => (sized access listed).1
  rw [counted.lost_eq sized] at stocked
  have held := counted.holders_le outstanding
  have fewer : flow.thread.world.listPages.length + flow.holders.length + initial.length <
      nrHoles := by
    rw [nrHoles]
    omega
  constructor
  · intro req rest batch
    have used : req.buffer ∈ flow.holders.map (·.buffer) := by
      apply List.mem_map_of_mem
      simp [holders, batch]
    exact free_iff.mpr (stocked.givesBack region (by rw [List.length_map]; omega) used)
  · intro index command found called
    have split := listPages_perm found
    have length := split.length_eq
    exact (release_iff found called).mpr ((stocked.perm (.refl _) split).givesBackPages region
      (by rw [List.length_map]; omega))

end

/-- What happens to one request of three pages on the small queue until it is completed. -/
def Completed (space : MemorySpace) (tenancy : Tenancy) (flow : Flow Driver) : Prop :=
  smallBacking.construct = .ok space ∧
    Tenancy.machine.run ⟨space, []⟩ [.allocatePages 0x80] = some tenancy ∧
    (machine Driver.backend).run (create (Driver.create (smallPort tenancy.space) 0) 1 1 1)
      ((oneRequest 0x3000).take 4) = some flow ∧
    tenancy.live.length = 1 ∧ flow.submitted = [⟨true, 1, 0, 0x3000⟩] ∧
    flow.reqs = [⟨⟨true, 1, 0, 0x3000⟩, 0, 0x2000⟩] ∧
    flow.thread.world.commands = [⟨0, [0x5000], true⟩]

/-- Its buffer and its list page are given back, so that there was room for them. -/
theorem giving_back_iff_three : ∃ space tenancy flow, Completed space tenancy flow ∧
    (starts flow.thread.world.table.freeBytes).ncard < nrHoles ∧
    Room flow.thread.world.table.freeBytes [0x5000] := by
  have completed : ∃ space tenancy flow freed removed, Completed space tenancy flow ∧
      Driver.backend.free flow.thread.world 0x2000 0x3000 = .ok freed ∧
      flow.thread.world.release 0 = some removed :=
    ⟨_, _, _, _, _, ⟨rfl, rfl, rfl, rfl, rfl, rfl, rfl⟩, rfl, rfl⟩
  obtain ⟨space, tenancy, flow, freed, removed, completed, gave, released⟩ := completed
  refine ⟨space, tenancy, flow, completed, ?_⟩
  obtain ⟨built, history, ran, -, submitted, batch, commands⟩ := completed
  have admitted : smallBacking.Admitted := ⟨by decide, by decide⟩
  obtain ⟨buffers, pages⟩ := giving_back_iff admitted built (by simp [MemoryCall.Pagewise])
    history rfl (by decide) ⟨_, ran⟩ (by rw [submitted]; decide)
  have called : flow.thread.world.commands[0]? = some ⟨0, [0x5000], true⟩ := by rw [commands]; rfl
  exact ⟨(buffers _ _ batch).mp ⟨freed, gave⟩, (pages 0 _ called rfl).mp ⟨removed, released⟩⟩

/-- Its buffer and its list page can be given back. -/
theorem giving_back_returns_three : ∃ space tenancy flow, Completed space tenancy flow ∧
    (∃ world, Driver.backend.free flow.thread.world 0x2000 0x3000 = .ok world) ∧
    ∃ world, flow.thread.world.release 0 = some world := by
  have completed : ∃ space tenancy flow, Completed space tenancy flow :=
    ⟨_, _, _, rfl, rfl, rfl, rfl, rfl, rfl, rfl⟩
  obtain ⟨space, tenancy, flow, completed⟩ := completed
  refine ⟨space, tenancy, flow, completed, ?_⟩
  obtain ⟨built, history, ran, live, submitted, batch, commands⟩ := completed
  have admitted : smallBacking.Admitted := ⟨by decide, by decide⟩
  have few : tenancy.live.length + 1 + flow.thread.world.listPages.length ≤ 510 := by
    rw [live, Driver.listPages, commands]
    decide
  obtain ⟨buffers, pages⟩ := giving_back_returns admitted built (by simp [MemoryCall.Pagewise])
    history rfl (by decide) ⟨_, ran⟩ (by rw [submitted]; decide) few
  exact ⟨buffers _ _ batch, pages 0 _ (by rw [commands]; rfl) rfl⟩

end Flow

end McmqHost
