import McmqHost.Driver.Stores
import McmqHost.MemorySpace.Bytes

/-!
# What an operation leaves alone

The footprint of an operation says for which purposes it stores, which blocks it may give back, which
commands it may change or enter and which queues it may advance. Everything else is as before, and
with an orderly driver that is said of the bytes in memory as well.
-/

namespace McmqHost

open Extents HoleTable

/-- Where the submission side of a queue stands. -/
structure Station where
  /-- `depth`. -/
  depth : Nat
  /-- `sq_dma_addr`. -/
  sq : Nat
  /-- `sq_tail`. -/
  tail : Nat
deriving DecidableEq

/-- The station after one more command. -/
def Station.advance (station : Station) : Station :=
  { station with
    tail := if u16 (station.tail + 1) = station.depth then 0 else u16 (station.tail + 1) }

/-- The submission side of a queue. -/
def NVMeQueue.station (nvmeq : NVMeQueue) : Station := ⟨nvmeq.depth, nvmeq.sqDmaAddr, nvmeq.sqTail⟩

/-- The submission side of the queue at an index. -/
def NVMeDriver.station (driver : NVMeDriver) (index : Nat) : Option Station :=
  driver.queues[index]?.map NVMeQueue.station

/-- Which command an entry is, and whether its completion was handled. -/
def AsyncCommand.stage (cmd : AsyncCommand) : Nat × Bool := (cmd.serial, cmd.completed)

/-- The entry under an id. -/
def NVMeDriver.stage (driver : NVMeDriver) (id : Nat) : Option (Nat × Bool) :=
  (driver.commands.commandMap id).map AsyncCommand.stage

/-- What an operation may touch. -/
structure Footprint where
  /-- The purposes that it stores for. -/
  stores : Purpose → Prop
  /-- The purposes whose blocks it may give back. -/
  ends : Purpose → Prop
  /-- The commands that it may enter, finish or remove. -/
  ids : Nat → Prop
  /-- The commands that it may enter. -/
  enters : Nat → Prop
  /-- The queues that it may advance. -/
  queues : Nat → Prop

/-- One state follows another within a footprint. -/
structure Footprint.Within (foot : Footprint) (before after : NVMeDriver) : Prop where
  /-- The mapping does not move. -/
  base : after.space.iovaBase = before.space.iovaBase
  /-- It has the same size. -/
  size : after.space.mapSize = before.space.mapSize
  /-- Other queues stand where they stood. -/
  stations : ∀ index, ¬foot.queues index → after.station index = before.station index
  /-- Other commands are as they were. -/
  entries : ∀ id, ¬foot.ids id → after.stage id = before.stage id
  /-- Commands that were not entered are former ones. -/
  former : ∀ id cmd, after.commands.commandMap id = some cmd → foot.enters id ∨
    ∃ earlier, before.commands.commandMap id = some earlier ∧ earlier.serial = cmd.serial
  /-- Other blocks stay live. -/
  blocks : ∀ block ∈ before.blocks, ¬foot.ends block.purpose → block ∈ after.blocks
  /-- The stores are for the purposes and made while the other blocks were live, and bytes outside
  them stay. -/
  stored : ∃ more, after.stores = before.stores ++ more ∧
    (∀ store ∈ more, foot.stores store.purpose ∧
      ∀ block ∈ before.blocks, ¬foot.ends block.purpose → block ∈ store.live) ∧
    (before.space.Narrow → ∀ addr < 2 ^ 32,
      (∀ store ∈ more, store.extent.stop ≤ 2 ^ 32 ∧ addr ∉ store.extent.bytes) →
      after.space.byteAt addr = before.space.byteAt addr)

namespace Footprint

variable {foot : Footprint} {before after start : NVMeDriver}

/-- An operation that does not touch memory. -/
theorem Within.unstored (space : after.space = before.space) (blocks : after.blocks = before.blocks)
    (stores : after.stores = before.stores)
    (stations : ∀ index, ¬foot.queues index → after.station index = before.station index)
    (entries : ∀ id, ¬foot.ids id → after.stage id = before.stage id)
    (former : ∀ id cmd, after.commands.commandMap id = some cmd → foot.enters id ∨
      ∃ earlier, before.commands.commandMap id = some earlier ∧ earlier.serial = cmd.serial) :
    foot.Within before after where
  base := by rw [space]
  size := by rw [space]
  stations := stations
  entries := entries
  former := former
  blocks := fun block live _ => blocks ▸ live
  stored := ⟨[], by rw [stores, List.append_nil], by simp, fun _ _ _ _ => by rw [space]⟩

/-- A change of memory alone. -/
theorem Within.memory (space : MemorySpace) (blocks : List Block) (stores : List Store)
    (base : space.iovaBase = before.space.iovaBase) (size : space.mapSize = before.space.mapSize)
    (kept : ∀ block ∈ before.blocks, ¬foot.ends block.purpose → block ∈ blocks)
    (stored : ∃ more, stores = before.stores ++ more ∧
      (∀ store ∈ more, foot.stores store.purpose ∧
        ∀ block ∈ before.blocks, ¬foot.ends block.purpose → block ∈ store.live) ∧
      (before.space.Narrow → ∀ addr < 2 ^ 32,
        (∀ store ∈ more, store.extent.stop ≤ 2 ^ 32 ∧ addr ∉ store.extent.bytes) →
        space.byteAt addr = before.space.byteAt addr)) :
    foot.Within before { before with space := space, blocks := blocks, stores := stores } where
  base := base
  size := size
  stations := fun _ _ => rfl
  entries := fun _ _ => rfl
  former := fun _ cmd entry => .inr ⟨cmd, entry, rfl⟩
  blocks := kept
  stored := stored

theorem Within.refl (driver : NVMeDriver) : foot.Within driver driver :=
  .unstored rfl rfl rfl (fun _ _ => rfl) (fun _ _ => rfl) fun _ cmd entry => .inr ⟨cmd, entry, rfl⟩

theorem Within.trans {one two three : NVMeDriver} (front : foot.Within one two)
    (back : foot.Within two three) : foot.Within one three where
  base := back.base.trans front.base
  size := back.size.trans front.size
  stations := fun index other => (back.stations index other).trans (front.stations index other)
  entries := fun id other => (back.entries id other).trans (front.entries id other)
  former := by
    intro id cmd entry
    rcases back.former id cmd entry with new | ⟨middle, found, serial⟩
    · exact .inl new
    · rcases front.former id middle found with new | ⟨earlier, met, number⟩
      · exact .inl new
      · exact .inr ⟨earlier, met, number.trans serial⟩
  blocks := fun block live lasts => back.blocks block (front.blocks block live lasts) lasts
  stored := by
    obtain ⟨first, grown, listed, same⟩ := front.stored
    obtain ⟨second, grownOn, listedOn, sameOn⟩ := back.stored
    refine ⟨first ++ second, by rw [grownOn, grown, List.append_assoc], ?_, ?_⟩
    · intro store inside
      rcases List.mem_append.mp inside with early | late
      · exact listed store early
      · refine ⟨(listedOn store late).1, fun block live lasts => ?_⟩
        exact (listedOn store late).2 block (front.blocks block live lasts) lasts
    · intro narrow addr below apart
      have narrowOn : two.space.Narrow := by
        unfold MemorySpace.Narrow
        rw [front.base, front.size]
        exact narrow
      rw [sameOn narrowOn addr below fun store inside => apart store (List.mem_append_right _ inside)]
      exact same narrow addr below fun store inside => apart store (List.mem_append_left _ inside)

/-- A larger footprint. -/
theorem Within.mono {wide : Footprint} (within : foot.Within before after)
    (stores : ∀ purpose, foot.stores purpose → wide.stores purpose)
    (ends : ∀ purpose, foot.ends purpose → wide.ends purpose)
    (ids : ∀ id, foot.ids id → wide.ids id) (enters : ∀ id, foot.enters id → wide.enters id)
    (queues : ∀ index, foot.queues index → wide.queues index) : wide.Within before after where
  base := within.base
  size := within.size
  stations := fun index other => within.stations index fun moved => other (queues index moved)
  entries := fun id other => within.entries id fun changed => other (ids id changed)
  former := fun id cmd entry => (within.former id cmd entry).imp_left (enters id)
  blocks := fun block live lasts => within.blocks block live fun ended => lasts (ends _ ended)
  stored := by
    obtain ⟨more, grown, listed, same⟩ := within.stored
    refine ⟨more, grown, fun store inside => ?_, same⟩
    obtain ⟨purpose, live⟩ := listed store inside
    exact ⟨stores _ purpose, fun block there lasts => live block there fun ended => lasts (ends _ ended)⟩

/-- The mapping still ends in the address space. -/
theorem Within.narrow (within : foot.Within before after) (narrow : before.space.Narrow) :
    after.space.Narrow := by
  unfold MemorySpace.Narrow
  rw [within.base, within.size]
  exact narrow

/-- **Frame.** An orderly driver leaves the bytes of a live block alone for whose purpose it does not
store. -/
theorem Within.byteAt {layout : Layout} (within : foot.Within before after)
    (orderly : Orderly layout after) (narrow : before.space.Narrow) {block : Block}
    (live : block ∈ before.blocks) (lasts : ¬foot.ends block.purpose)
    (spared : ¬foot.stores block.purpose) {addr : Nat} (inside : addr ∈ block.extent.bytes)
    (below : addr < 2 ^ 32) : after.space.byteAt addr = before.space.byteAt addr := by
  obtain ⟨more, grown, listed, same⟩ := within.stored
  apply same narrow addr below
  intro store new
  obtain ⟨purpose, there⟩ := listed store new
  have kept := orderly.stores store (by rw [grown]; exact List.mem_append_right _ new)
  obtain ⟨home, -, use, -, ends, bounded, apart⟩ := kept
  refine ⟨ends.trans bounded, fun touched => ?_⟩
  have different : block ≠ home := by
    rintro rfl
    exact spared (use ▸ purpose)
  have other := (List.mem_erase_of_ne different).mpr (there block live lasts)
  exact Set.disjoint_left.mp (apart block other) touched inside

/-- Bytes that such a block covers stay. -/
theorem Within.bytesAt {layout : Layout} (within : foot.Within before after)
    (orderly : Orderly layout before) (orderlyAfter : Orderly layout after)
    (narrow : before.space.Narrow) {purpose : Purpose} {addr len : Nat}
    (covers : before.Covers purpose addr len) (lasts : ¬foot.ends purpose)
    (spared : ¬foot.stores purpose) :
    after.space.bytesAt addr len = before.space.bytesAt addr len := by
  obtain ⟨block, live, rfl, starts, ends⟩ := covers
  have bounded := orderly.bounded live
  apply List.map_congr_left
  intro index listed
  have below := List.mem_range.mp listed
  have inside : addr + index ∈ block.extent.bytes := ⟨by omega, by omega⟩
  exact within.byteAt orderlyAfter narrow live lasts spared inside (by omega)

/-- The memory of an allocated queue covers its slots. -/
theorem slot_live {layout : Layout} (orderly : Orderly layout before) {index : Nat}
    (below : index < layout.count) {place : Station} (found : before.station index = some place) :
    ∃ len, ⟨.submissionQueue index, ⟨place.sq, len⟩⟩ ∈ before.blocks ∧ place.depth * 64 ≤ len ∧
      place.sq + len ≤ 2 ^ 32 := by
  obtain ⟨nvmeq, held, rfl⟩ := Option.map_eq_some_iff.mp found
  obtain ⟨len, live, room⟩ := (orderly.ready below held).sq
  exact ⟨len, live, room, orderly.bounded live⟩

/-- A slot of an allocated queue keeps its command while nothing is stored for the queue. -/
theorem Within.slot {layout : Layout} (within : foot.Within before after)
    (orderly : Orderly layout before) (orderlyAfter : Orderly layout after)
    (narrow : before.space.Narrow) {index : Nat} (below : index < layout.count)
    (lasts : ¬foot.ends (.submissionQueue index)) (spared : ¬foot.stores (.submissionQueue index))
    {place : Station} (found : before.station index = some place) {slot : Nat}
    (inside : slot < place.depth) {bytes : List UInt8}
    (read : before.space.read (place.sq + slot * 64) 64 = .ok bytes) :
    after.space.read (place.sq + slot * 64) 64 = .ok bytes := by
  obtain ⟨len, live, room, bounded⟩ := slot_live orderly below found
  refine MemorySpace.read_same narrow within.base within.size (by omega) read ?_
  intro addr above ends
  have first : place.sq ≤ addr := by omega
  have last : addr < place.sq + len := by omega
  have here : addr ∈ Extent.bytes ⟨place.sq, len⟩ := ⟨first, last⟩
  exact within.byteAt orderlyAfter narrow live lasts spared here (by omega)

end Footprint

namespace NVMeDriver

open Footprint

variable {Value : Type} {foot : Footprint} {driver after start : NVMeDriver}

/-- A sequence stays within a footprint when its parts do. -/
theorem within_bind {Other : Type} {first : Drive Value} {next : Value → Drive Other}
    (front : Effect.Keeps foot.Within first) (back : ∀ value, Effect.Keeps foot.Within (next value)) :
    Effect.Keeps foot.Within (first >>= next) :=
  Effect.Keeps.bind Within.trans front back

theorem within_pure (value : Value) : Effect.Keeps foot.Within (pure value : Drive Value) :=
  Effect.Keeps.pure Within.refl value

theorem within_fail (halt : Halt) : Effect.Keeps foot.Within (Effect.fail halt : Drive Value) :=
  Effect.Keeps.fail Within.refl halt

theorem within_read (view : NVMeDriver → Value) :
    Effect.Keeps foot.Within (Effect.read view : Drive Value) :=
  Effect.Keeps.read Within.refl view

/-- What a run leaves behind is within the footprint. -/
theorem within_of {drive : Drive Value} (keeps : Effect.Keeps foot.Within drive)
    {outcome : Except Halt Value} (ran : drive.run driver = (outcome, after)) :
    foot.Within driver after := by
  have kept := keeps driver
  rwa [ran] at kept

/-! ## Memory -/

/-- The rule of a call of the memory space. -/
theorem within_call {change : NVMeDriver → Except Fault (Value × NVMeDriver)}
    (kept : ∀ driver value after, change driver = .ok (value, after) → foot.Within driver after) :
    Effect.Keeps foot.Within (call change) := by
  refine Effect.Keeps.attempt Within.refl ?_
  intro driver value after ran
  cases changed : change driver with
  | error fault =>
    rw [changed] at ran
    cases ran
  | ok result =>
    rw [changed] at ran
    cases ran
    exact kept driver value after changed

theorem within_write {purpose : Purpose} (may : foot.stores purpose) (addr : Nat)
    (bytes : List UInt8) : Effect.Keeps foot.Within (write purpose addr bytes) := by
  apply within_call
  intro driver _ after ran
  obtain ⟨space, wrote, ran⟩ := McmqHost.bind_ok.mp ran
  cases ran
  have frame := MemorySpace.frame_write wrote
  refine .memory space _ _ frame.iovaBase frame.mapSize (fun _ live _ => live)
    ⟨[⟨purpose, ⟨addr, bytes.length⟩, driver.blocks⟩], rfl, ?_, ?_⟩
  · intro store listed
    rw [List.mem_singleton.mp listed]
    exact ⟨may, fun _ live _ => live⟩
  · intro narrow other below apart
    obtain ⟨ends, outside⟩ := apart _ (List.mem_singleton_self _)
    have outside : ¬(addr ≤ other ∧ other < addr + bytes.length) := outside
    have inside : addr + bytes.length ≤ 2 ^ 32 := ends
    exact MemorySpace.write_apart narrow inside wrote below (by omega)

theorem within_allocate (purpose : Purpose) (len align : Nat) :
    Effect.Keeps foot.Within (allocate purpose len align) := by
  apply within_call
  intro driver _ after ran
  obtain ⟨⟨address, space⟩, gave, ran⟩ := McmqHost.bind_ok.mp ran
  cases ran
  obtain ⟨⟨found, table⟩, -, same⟩ := McmqHost.bind_ok.mp gave
  cases same
  exact .memory _ _ _ rfl rfl (fun _ live _ => List.mem_cons_of_mem _ live)
    ⟨[], (List.append_nil _).symm, by simp, fun _ _ _ _ => rfl⟩

theorem within_free {block : Block} (ends : foot.ends block.purpose) (len : Nat) :
    Effect.Keeps foot.Within (free block len) := by
  apply within_call
  intro driver _ after ran
  obtain ⟨space, freed, ran⟩ := McmqHost.bind_ok.mp ran
  cases ran
  obtain ⟨table, -, same⟩ := McmqHost.bind_ok.mp freed
  cases same
  refine .memory _ _ _ rfl rfl ?_ ⟨[], (List.append_nil _).symm, by simp, fun _ _ _ _ => rfl⟩
  intro other live lasts
  have different : other ≠ block := by
    rintro rfl
    exact lasts ends
  exact (List.mem_erase_of_ne different).mpr live

theorem within_readMemory (addr len : Nat) : Effect.Keeps foot.Within (readMemory addr len) := by
  apply within_call
  intro driver _ after ran
  obtain ⟨bytes, -, ran⟩ := McmqHost.bind_ok.mp ran
  cases ran
  exact .refl _

/-! ## Queues -/

theorem within_queue (index : Nat) : Effect.Keeps foot.Within (queue index) := by
  refine Effect.Keeps.attempt Within.refl ?_
  intro driver nvmeq after ran
  split at ran
  · contradiction
  · cases ran
    exact .refl _

/-- What a queue's assignment says of the queues. -/
theorem station_modify (driver : NVMeDriver) (index : Nat) (change : NVMeQueue → NVMeQueue)
    (other : Nat) :
    station { driver with queues := driver.queues.modify index change } other =
      if index = other then driver.queues[other]?.map fun nvmeq => (change nvmeq).station
      else driver.station other := by
  unfold station
  simp only [List.getElem?_modify]
  split
  · cases driver.queues[other]? <;> rfl
  · cases driver.queues[other]? <;> rfl

/-- Members of a queue are assigned. -/
theorem within_updateQueue {index : Nat} {change : NVMeQueue → NVMeQueue}
    (same : ¬foot.queues index → ∀ nvmeq, (change nvmeq).station = nvmeq.station) :
    Effect.Keeps foot.Within (updateQueue index change) := by
  refine Effect.Keeps.modify fun driver => ?_
  refine .unstored rfl rfl rfl ?_ (fun _ _ => rfl) fun _ cmd entry => .inr ⟨cmd, entry, rfl⟩
  intro other unmoved
  rw [station_modify]
  split
  · rename_i equal
    subst equal
    unfold station
    cases driver.queues[index]? with
    | none => rfl
    | some nvmeq => exact congrArg some (same unmoved nvmeq)
  · rfl

theorem within_sendMessage : Effect.Keeps foot.Within sendMessage := by
  intro driver
  unfold sendMessage Effect.run
  dsimp only
  cases driver.script.sends.headD true with
  | false =>
    exact .unstored rfl rfl rfl (fun _ _ => rfl) (fun _ _ => rfl) fun _ cmd entry => .inr ⟨cmd, entry, rfl⟩
  | true =>
    exact .unstored rfl rfl rfl (fun _ _ => rfl) (fun _ _ => rfl) fun _ cmd entry => .inr ⟨cmd, entry, rfl⟩

theorem within_ringDoorbell (doorbells : foot.stores .doorbells) (shadow register value : Nat) :
    Effect.Keeps foot.Within (ringDoorbell shadow register value) := by
  unfold ringDoorbell
  split
  · exact within_write doorbells _ _
  · refine within_bind within_sendMessage fun _ => Effect.Keeps.modify fun driver => ?_
    exact .unstored rfl rfl rfl (fun _ _ => rfl) (fun _ _ => rfl) fun _ cmd entry => .inr ⟨cmd, entry, rfl⟩

theorem within_writeSqDoorbell (doorbells : foot.stores .doorbells) (index : Nat) (writeSq : Bool) :
    Effect.Keeps foot.Within (writeSqDoorbell index writeSq) := by
  refine within_bind (within_queue index) fun nvmeq => ?_
  split
  · exact within_pure _
  · exact within_bind (within_ringDoorbell doorbells _ _ _) fun _ =>
      within_updateQueue fun _ _ => rfl

theorem within_ringCqDoorbell (doorbells : foot.stores .doorbells) (index : Nat) :
    Effect.Keeps foot.Within (ringCqDoorbell index) := by
  refine within_bind (within_queue index) fun nvmeq => ?_
  exact within_bind (within_read _) fun _ => within_ringDoorbell doorbells _ _ _

theorem within_assertHead (index : Nat) : Effect.Keeps foot.Within (assertHead index) := by
  refine within_bind (within_queue index) fun nvmeq => ?_
  split
  · exact within_pure _
  · exact within_fail _

/-! ## Commands -/

/-- A list page is added to an entry. -/
theorem within_pushPrpList (id : Nat) (page : Address) :
    Effect.Keeps foot.Within (pushPrpList id page) := by
  refine Effect.Keeps.modify fun driver => ?_
  refine .unstored rfl rfl rfl (fun _ _ => rfl) ?_ ?_
  · intro other _
    unfold stage
    simp only [Function.update_apply]
    split
    · rename_i same
      rw [same, Option.map_map]
      rfl
    · rfl
  · intro other cmd entry
    simp only [Function.update_apply] at entry
    split at entry
    · rename_i same
      obtain ⟨earlier, found, rfl⟩ := Option.map_eq_some_iff.mp entry
      exact .inr ⟨earlier, same ▸ found, rfl⟩
    · exact .inr ⟨cmd, entry, rfl⟩

theorem within_freePrpLists {serial : Nat} (ends : foot.ends (.prpList serial))
    (pages : List Address) : Effect.Keeps foot.Within (freePrpLists serial pages) := by
  induction pages with
  | nil => exact within_pure _
  | cons page rest ih => exact within_bind (within_free ends _) fun _ => ih

/-- The list pages of the commands that may be removed may be given back. -/
def Ending (foot : Footprint) (driver : NVMeDriver) : Prop :=
  ∀ id cmd, foot.ids id → driver.commands.commandMap id = some cmd → foot.ends (.prpList cmd.serial)

/-- From a first state on the driver stays within a footprint. -/
abbrev Stays (foot : Footprint) (start : NVMeDriver) (drive : Drive Value) : Prop :=
  Effect.Ensures (foot.Within start) drive (fun _ => foot.Within start) (foot.Within start)

theorem stays_within {drive : Drive Value} (keeps : Effect.Keeps foot.Within drive) :
    Stays foot start drive :=
  Effect.Keeps.ensures foot.Within Within.trans keeps start

/-- Removing a command gives back its list pages and no others. -/
theorem stays_removeAsyncCommand {id : Nat} (changes : foot.ids id) (ending : Ending foot start)
    (old : ∀ id, ¬foot.enters id) : Stays foot start (removeAsyncCommand id) := by
  refine Effect.Ensures.through (fun entry driver => foot.Within start driver ∧
    driver.commands.commandMap id = entry) (Effect.Ensures.read fun _ within => ⟨within, rfl⟩) ?_
  intro entry
  refine Effect.Ensures.through (fun _ driver => foot.Within start driver ∧
    ∀ cmd, entry = some cmd → foot.ends (.prpList cmd.serial)) (Effect.Ensures.modify ?_) ?_
  · rintro driver ⟨within, rfl⟩
    refine ⟨within.trans (.unstored rfl rfl rfl (fun _ _ => rfl) ?_ ?_), ?_⟩
    · intro other unchanged
      have different : other ≠ id := by
        rintro rfl
        exact unchanged changes
      exact congrArg (Option.map _) (Function.update_of_ne different _ _)
    · intro other cmd entry
      simp only [CommandTable.removeAsyncCommand, Function.update_apply] at entry
      split at entry
      · contradiction
      · exact .inr ⟨cmd, entry, rfl⟩
    · intro cmd entry
      rcases within.former id cmd entry with new | ⟨earlier, found, serial⟩
      · exact absurd new (old id)
      · exact serial ▸ ending id earlier changes found
  · intro _
    cases entry with
    | none => exact Effect.Ensures.pure fun _ before => before.1
    | some cmd =>
      refine Effect.Ensures.mapError ?_
      refine Effect.Ensures.given fun ends => ?_
      exact stays_within (within_freePrpLists (ends cmd rfl) _)

/-- Handling a completion changes or removes its command. -/
theorem stays_handleCqe {cqe : Cqe} (changes : foot.ids cqe.commandId) (ending : Ending foot start)
    (old : ∀ id, ¬foot.enters id) : Stays foot start (handleCqe cqe) := by
  refine Effect.Ensures.through (fun _ => foot.Within start)
    (Effect.Ensures.read fun _ within => within) fun releaseCmd => ?_
  refine Effect.Ensures.through (fun _ => foot.Within start) (Effect.Ensures.modify ?_) fun _ => ?_
  · intro driver within
    refine within.trans (.unstored rfl rfl rfl (fun _ _ => rfl) ?_ ?_)
    · intro other unchanged
      have different : other ≠ cqe.commandId := by
        rintro rfl
        exact unchanged changes
      unfold stage CommandTable.handleCqe
      split
      · rfl
      · split
        · rfl
        · exact congrArg (Option.map _) (Function.update_of_ne different _ _)
    · intro other cmd entry
      unfold CommandTable.handleCqe at entry
      split at entry
      · exact .inr ⟨cmd, entry, rfl⟩
      · rename_i earlier found
        split at entry
        · exact .inr ⟨cmd, entry, rfl⟩
        · simp only [Function.update_apply] at entry
          split at entry
          · rename_i same
            obtain rfl := Option.some.inj entry
            exact .inr ⟨earlier, same ▸ found, rfl⟩
          · exact .inr ⟨cmd, entry, rfl⟩
  · split
    · exact stays_removeAsyncCommand changes ending old
    · exact Effect.Ensures.pure fun _ within => within

/-- **An interrupt** changes or removes the commands that completed. -/
theorem stays_nvmeIrq (doorbells : foot.stores .doorbells) (ending : Ending foot start)
    (old : ∀ id, ¬foot.enters id) (index : Nat) {cqes : List Cqe}
    (changes : ∀ cqe ∈ cqes, foot.ids cqe.commandId) : Stays foot start (nvmeIrq index cqes) := by
  have handled : Stays foot start (handleCqes index cqes) := by
    induction cqes with
    | nil => exact stays_within (within_assertHead index)
    | cons cqe rest ih =>
      have here := changes cqe List.mem_cons_self
      have later := ih fun other listed => changes other (List.mem_cons_of_mem _ listed)
      refine Effect.Ensures.bind (stays_within (within_assertHead index)) fun _ => ?_
      refine Effect.Ensures.bind (stays_handleCqe here ending old) fun _ => ?_
      refine Effect.Ensures.bind (stays_within (within_updateQueue ?_)) fun _ => later
      intro _ nvmeq
      unfold NVMeQueue.updateCqHead
      split <;> rfl
  refine Effect.Ensures.bind handled fun _ => ?_
  split
  · exact stays_within (within_ringCqDoorbell doorbells index)
  · exact Effect.Ensures.pure fun _ within => within

/-- Waiting for a command ends and removes it. -/
theorem stays_wait (doorbells : foot.stores .doorbells) (ending : Ending foot start)
    (old : ∀ id, ¬foot.enters id) (index : Nat) {acmd : AsyncCommand} (changes : foot.ids acmd.id) :
    Stays foot start (wait index acmd) := by
  refine Effect.Ensures.through (fun _ => foot.Within start)
    (Effect.Ensures.attempt ?_ fun _ within => within) fun reply => ?_
  · intro driver reply after within ran
    split at ran
    · contradiction
    · cases ran
      exact within.trans (.unstored rfl rfl rfl (fun _ _ => rfl) (fun _ _ => rfl)
        fun _ cmd entry => .inr ⟨cmd, entry, rfl⟩)
  have handled : Stays foot start (nvmeIrq index [⟨acmd.id, reply.status <<< 1, reply.result⟩]) := by
    apply stays_nvmeIrq doorbells ending old
    intro cqe listed
    rw [List.mem_singleton.mp listed]
    exact changes
  refine Effect.Ensures.bind handled.mapError fun _ => ?_
  refine Effect.Ensures.through (fun _ => foot.Within start)
    (Effect.Ensures.attempt ?_ fun _ within => within) fun outcome => ?_
  · intro driver outcome after within ran
    split at ran
    · contradiction
    · cases ran
      exact within
  refine Effect.Ensures.bind (stays_removeAsyncCommand changes ending old) fun _ => ?_
  exact Effect.Ensures.pure fun _ within => within

/-! ## Submissions -/

/-- A command is entered under the next id. -/
theorem within_setup {callback : Bool} {acmd : AsyncCommand}
    (changes : foot.ids driver.commands.commandIdCounter)
    (enters : foot.enters driver.commands.commandIdCounter)
    (ran : (setupAsyncCommand callback).run driver = (.ok acmd, after)) :
    foot.Within driver after := by
  have registered := Effect.attempt_ok.mp ran
  cases registered
  refine .unstored rfl rfl rfl (fun _ _ => rfl) ?_ ?_
  · intro other unchanged
    have different : other ≠ driver.commands.commandIdCounter := by
      rintro rfl
      exact unchanged changes
    exact congrArg (Option.map _) (Function.update_of_ne different _ _)
  · intro other cmd entry
    simp only [Function.update_apply] at entry
    split at entry
    · rename_i same
      exact .inl (same ▸ enters)
    · exact .inr ⟨cmd, entry, rfl⟩

/-- The loop over the entries stores into list pages. -/
theorem within_fill {acmd : AsyncCommand} (lists : foot.stores (.prpList acmd.serial))
    (fuel prpList i buf buflen : Nat) :
    Effect.Keeps foot.Within (fill acmd fuel prpList i buf buflen) := by
  induction fuel generalizing prpList i buf buflen with
  | zero => exact within_fail _
  | succ fuel ih =>
    refine within_bind ?_ fun current => ?_
    · unfold currentList
      split
      · refine within_bind (within_allocate _ _ _) fun next => ?_
        refine within_bind (within_pushPrpList _ next) fun _ => ?_
        refine within_bind (within_readMemory _ _) fun lastEntry => ?_
        refine within_bind (within_write lists _ _) fun _ => ?_
        exact within_bind (within_write lists _ _) fun _ => within_pure _
      · exact within_pure _
    · refine within_bind (within_write lists _ _) fun _ => ?_
      split
      · exact within_pure _
      · exact ih _ _ _ _

/-- Describing a buffer stores into the list pages of its command. -/
theorem within_describe {acmd : AsyncCommand} (lists : foot.stores (.prpList acmd.serial))
    (cmd : NVMeCommand) (buf buflen : Nat) :
    Effect.Keeps foot.Within (describe acmd cmd buf buflen) := by
  unfold describe
  split
  · unfold setupBuffer
    dsimp only
    split
    · refine within_bind (within_allocate _ _ _) fun prpList => ?_
      refine within_bind (within_pushPrpList _ prpList) fun _ => ?_
      exact within_bind (within_fill lists _ _ _ _ _) fun _ => within_pure _
    · exact within_pure _
  · exact within_pure _

end NVMeDriver

end McmqHost
