import McmqHost.Driver.ReadWrite

/-!
# What a submission leaves in memory

The whole driver describes a buffer as `setup_buffer` does on a memory space alone. With one list page
the regions of the command describe the buffer exactly, and they do so for as long as that page keeps
its bytes.
-/

namespace McmqHost

open Extents HoleTable

namespace NVMeDriver

variable {driver after : NVMeDriver} {acmd : AsyncCommand}

theorem allocatePages_iff {purpose : Purpose} {len : Nat} {address : Address} :
    (allocatePages purpose len).run driver = (.ok address, after) ↔
      ∃ space, driver.space.allocatePages len = .ok (address, space) ∧
        after = driver.take space ⟨purpose, ⟨address, roundupPage len⟩⟩ := by
  unfold allocatePages allocate
  rw [call_ok, McmqHost.bind_ok]
  constructor
  · rintro ⟨⟨found, space⟩, gave, same⟩
    cases same
    exact ⟨space, gave, rfl⟩
  · rintro ⟨space, gave, rfl⟩
    exact ⟨(address, space), gave, rfl⟩

theorem readMemory_ok {addr len : Nat} {bytes : List UInt8} :
    (readMemory addr len).run driver = (.ok bytes, after) ↔
      driver.space.read addr len = .ok bytes ∧ after = driver := by
  unfold readMemory
  rw [call_ok, McmqHost.bind_ok]
  simp [pure, Except.pure, eq_comm]

/-! ## Refinement -/

/-- The head of the loop does to memory what it does on a memory space. -/
theorem currentList_refines {prpList i : Nat} {current : Address}
    (ran : (currentList acmd prpList i).run driver = (.ok current, after)) (lists : List Address) :
    ∃ more, Prps.currentList driver.space lists prpList i = .ok (current, more, after.space) := by
  unfold currentList at ran
  unfold Prps.currentList
  split at ran
  · rename_i full
    obtain ⟨page, taken, gave, ran⟩ := Effect.bind_ok.mp ran
    obtain ⟨_, pushed, listed, ran⟩ := Effect.bind_ok.mp ran
    obtain ⟨lastEntry, looked, found, ran⟩ := Effect.bind_ok.mp ran
    obtain ⟨_, moved, wrote, ran⟩ := Effect.bind_ok.mp ran
    obtain ⟨_, linked, wroteAgain, ran⟩ := Effect.bind_ok.mp ran
    obtain ⟨space, allocated, rfl⟩ := allocatePages_iff.mp gave
    cases listed
    obtain ⟨entry, rfl⟩ := readMemory_ok.mp found
    obtain ⟨first, stored, rfl⟩ := write_ok.mp wrote
    obtain ⟨second, storedAgain, rfl⟩ := write_ok.mp wroteAgain
    cases ran
    rw [if_pos full]
    refine ⟨lists ++ [current], McmqHost.bind_ok.mpr ⟨(current, space), allocated, ?_⟩⟩
    refine McmqHost.bind_ok.mpr ⟨lastEntry, entry, McmqHost.bind_ok.mpr ⟨first, stored, ?_⟩⟩
    exact McmqHost.bind_ok.mpr ⟨second, storedAgain, rfl⟩
  · rename_i room
    cases ran
    rw [if_neg room]
    exact ⟨lists, rfl⟩

/-- **The loop** does to memory what it does on a memory space. -/
theorem fill_refines {fuel prpList i buf buflen : Nat}
    (ran : (fill acmd fuel prpList i buf buflen).run driver = (.ok (), after))
    (lists : List Address) :
    ∃ more, Prps.fill fuel driver.space lists prpList i buf buflen = .ok (after.space, more) := by
  induction fuel generalizing driver prpList i buf buflen lists with
  | zero => cases ran
  | succ fuel ih =>
    rw [fill] at ran
    obtain ⟨current, chained, entered, ran⟩ := Effect.bind_ok.mp ran
    obtain ⟨_, written, wrote, ran⟩ := Effect.bind_ok.mp ran
    obtain ⟨more, head⟩ := currentList_refines entered lists
    obtain ⟨space, stored, rfl⟩ := write_ok.mp wrote
    rw [Prps.fill, head]
    split at ran
    · rename_i last
      cases ran
      refine ⟨more, McmqHost.bind_ok.mpr ⟨_, rfl, McmqHost.bind_ok.mpr ⟨space, stored, ?_⟩⟩⟩
      rw [if_pos last]
      rfl
    · rename_i longer
      obtain ⟨rest, filled⟩ := ih ran more
      refine ⟨rest, McmqHost.bind_ok.mpr ⟨_, rfl, McmqHost.bind_ok.mpr ⟨space, stored, ?_⟩⟩⟩
      rw [if_neg longer]
      exact filled

/-! ## Regions -/

/-- The second region of a command completes the description of a buffer: it is the buffer's second
page, or a list page of the command with an entry for each page of the buffer behind the first. -/
def Regions (driver : NVMeDriver) (serial buf buflen prp2 : Nat) : Prop :=
  if NeedsList buf buflen then
    listBlock serial prp2 ∈ driver.blocks ∧
      ∀ later, later * ctrlPageSize < buflen - (ctrlPageSize - buf % ctrlPageSize) →
        driver.space.read (u32 (prp2 + later * 8)) 8 =
          .ok (leBytes 8 (buf + (ctrlPageSize - buf % ctrlPageSize) + later * ctrlPageSize))
  else prp2 = if ctrlPageSize - buf % ctrlPageSize < buflen
    then buf + (ctrlPageSize - buf % ctrlPageSize) else 0

variable {buf buflen prp2 serial : Nat}

/-- What needs a list reaches beyond the second page. -/
theorem needsList_iff (fits : buf + buflen ≤ 2 ^ 32) :
    NeedsList buf buflen ↔ ctrlPageSize * 2 < buf % ctrlPageSize + buflen := by
  have below : buf % ctrlPageSize ≤ buf := Nat.mod_le _ _
  have sum : u64 (buf % ctrlPageSize + buflen) = buf % ctrlPageSize + buflen := u64_of_lt (by omega)
  rw [NeedsList, sum]

/-- Describing a buffer leaves its regions in the command and in memory. -/
theorem describe_regions {cmd described : NVMeCommand} (plain : cmd.prp2 = 0)
    (nonempty : buflen ≠ 0) (list : OneList buf buflen) (fits : buf + buflen ≤ 2 ^ 32)
    (base : driver.space.iovaBase < 2 ^ 32)
    (ran : (describe acmd cmd buf buflen).run driver = (.ok described, after)) :
    ∃ prp2, described = { cmd with prp1 := buf, prp2 := prp2 } ∧
      Regions after acmd.serial buf buflen prp2 := by
  have offset : buf % ctrlPageSize < ctrlPageSize := Nat.mod_lt _ (by decide)
  unfold describe at ran
  rw [if_pos nonempty] at ran
  unfold setupBuffer at ran
  unfold Regions
  dsimp only at ran
  split at ran
  · rename_i many
    have short := list many
    have long := (needsList_iff fits).mp many
    unfold ctrlPageSize at short long offset
    obtain ⟨page, taken, gave, ran⟩ := Effect.bind_ok.mp ran
    obtain ⟨_, pushed, listed, ran⟩ := Effect.bind_ok.mp ran
    obtain ⟨_, filled, filling, returned⟩ := Effect.bind_ok.mp ran
    obtain ⟨space, allocated, rfl⟩ := allocatePages_iff.mp gave
    cases listed
    cases returned
    have next : u32 (buf + (ctrlPageSize - buf % ctrlPageSize)) =
        buf + (ctrlPageSize - buf % ctrlPageSize) := by
      unfold ctrlPageSize
      exact u32_of_lt (by omega)
    rw [next] at filling
    refine ⟨page, rfl, ?_⟩
    rw [if_pos many]
    constructor
    · let foot : Footprint := ⟨fun purpose => purpose = .prpList acmd.serial, fun _ => False,
        fun _ => False, fun _ => False, fun _ => False⟩
      have within : foot.Within _ after := within_of (within_fill rfl _ _ _ _ _) filling
      exact within.blocks _ List.mem_cons_self id
    · obtain ⟨more, single⟩ := fill_refines filling [page]
      have mapping := MemorySpace.mapping_allocatePages allocated
      have addressable : space.iovaBase < 2 ^ 32 := by
        rw [mapping.1]
        exact base
      have some : 0 < buflen - (ctrlPageSize - buf % ctrlPageSize) := by
        unfold ctrlPageSize
        omega
      have enough : buflen - (ctrlPageSize - buf % ctrlPageSize) ≤
          (listEntries - 0) * ctrlPageSize := by
        unfold listEntries ctrlPageSize
        omega
      have ends : buf + (ctrlPageSize - buf % ctrlPageSize) +
          (buflen - (ctrlPageSize - buf % ctrlPageSize)) ≤ 2 ^ 32 := by
        unfold ctrlPageSize
        omega
      obtain ⟨-, -, entries, -⟩ := Prps.fill_single addressable some enough ends single
      simpa only [Nat.zero_add] using entries
  · rename_i few
    cases ran
    refine ⟨_, rfl, ?_⟩
    rw [if_neg few]
    unfold ctrlPageSize at offset ⊢
    split
    · exact u32_of_lt (by omega)
    · exact plain

/-- **The regions describe exactly the buffer.** -/
theorem Regions.walk (regions : Regions driver serial buf buflen prp2)
    (list : OneList buf buflen) (fits : buf + buflen ≤ 2 ^ 32)
    (base : driver.space.iovaBase ≤ 2 ^ 32) :
    ∃ pages, Prps.walk ⟨driver.space, buf, prp2, []⟩ (buflen / ctrlPageSize + 1) buflen =
      .ok (List.range' buf buflen, pages) := by
  have offset : buf % ctrlPageSize < ctrlPageSize := Nat.mod_lt _ (by decide)
  have many := needsList_iff fits
  unfold Regions at regions
  unfold Prps.walk
  dsimp only
  split at regions
  · rename_i needs
    have short : buf % 4096 + buflen ≤ 513 * 4096 := list needs
    have long := many.mp needs
    have left : 0 < buflen - (ctrlPageSize - buf % ctrlPageSize) := by omega
    have count : buflen - (ctrlPageSize - buf % ctrlPageSize) ≤
        (buflen / ctrlPageSize + 1) * ctrlPageSize := by
      unfold ctrlPageSize
      omega
    have enough : buflen - (ctrlPageSize - buf % ctrlPageSize) ≤
        (listEntries - 0) * ctrlPageSize := by
      unfold listEntries ctrlPageSize
      omega
    have ends : buf + (ctrlPageSize - buf % ctrlPageSize) +
        (buflen - (ctrlPageSize - buf % ctrlPageSize)) ≤ 2 ^ 32 := by omega
    obtain ⟨pages, walked, -⟩ := Prps.walkList_single base left count enough ends
      (by simpa only [Nat.zero_add] using regions.2)
    rw [if_neg (by omega), if_neg (by omega)]
    refine ⟨pages, McmqHost.bind_ok.mpr ⟨_, walked, ?_⟩⟩
    simp only [pure, Except.pure]
    rw [List.range'_append_1, Nat.add_sub_cancel' (by omega)]
  · rename_i needs
    have short : ¬ctrlPageSize * 2 < buf % ctrlPageSize + buflen := fun long => needs (many.mpr long)
    split
    · exact ⟨[], rfl⟩
    · rename_i more
      rw [if_pos (by omega)] at regions
      rw [if_pos (by omega), regions, List.range'_append_1, Nat.add_sub_cancel' (by omega)]
      exact ⟨[], rfl⟩

/-- The regions stay while the list page stays as it is. -/
theorem Regions.mono (regions : Regions driver serial buf buflen prp2)
    (list : OneList buf buflen) (narrow : driver.space.Narrow)
    (base : after.space.iovaBase = driver.space.iovaBase)
    (size : after.space.mapSize = driver.space.mapSize)
    (bounded : ∀ page : Nat, listBlock serial page ∈ driver.blocks → page + 0x1000 ≤ 2 ^ 32)
    (kept : ∀ page : Nat, listBlock serial page ∈ driver.blocks → listBlock serial page ∈ after.blocks)
    (same : ∀ page : Nat, listBlock serial page ∈ driver.blocks → ∀ addr, page ≤ addr →
      addr < page + 0x1000 → after.space.byteAt addr = driver.space.byteAt addr) :
    Regions after serial buf buflen prp2 := by
  unfold Regions at regions ⊢
  split at regions
  · rename_i needs
    have short := list needs
    obtain ⟨live, entries⟩ := regions
    have ends := bounded prp2 live
    rw [if_pos needs]
    refine ⟨kept prp2 live, ?_⟩
    intro later inside
    have entry := entries later inside
    unfold ctrlPageSize at short inside
    have place : u32 (prp2 + later * 8) = prp2 + later * 8 := u32_of_lt (by omega)
    rw [place] at entry ⊢
    refine MemorySpace.read_same narrow base size (by omega) entry ?_
    intro addr above below
    exact same prp2 live addr (by omega) (by omega)
  · rename_i needs
    rw [if_neg needs]
    exact regions

/-- The regions stay when the list pages of the command are neither stored to nor given back. -/
theorem Regions.within {layout : Layout} {foot : Footprint}
    (regions : Regions driver serial buf buflen prp2) (list : OneList buf buflen)
    (narrow : driver.space.Narrow) (orderly : Orderly layout driver)
    (orderlyAfter : Orderly layout after) (within : foot.Within driver after)
    (lasts : ¬foot.ends (.prpList serial)) (spared : ¬foot.stores (.prpList serial)) :
    Regions after serial buf buflen prp2 := by
  have bounded : ∀ page : Nat, listBlock serial page ∈ driver.blocks → page + 0x1000 ≤ 2 ^ 32 :=
    fun page live => orderly.bounded live
  refine regions.mono list narrow within.base within.size bounded
    (fun page live => within.blocks _ live lasts) ?_
  intro page live addr above below
  have ends := bounded page live
  exact within.byteAt orderlyAfter narrow live lasts spared ⟨above, below⟩ (by omega)

/-! ## Submissions -/

/-- What the submission of a command touches. -/
def submission (index : Nat) (acmd : AsyncCommand) : Footprint where
  stores purpose := purpose = .doorbells ∨ purpose = .submissionQueue index ∨
    purpose = .prpList acmd.serial
  ends _ := False
  ids id := id = acmd.id
  enters id := id = acmd.id
  queues other := other = index

/-- What registering and describing a command touches. -/
def preparation (acmd : AsyncCommand) : Footprint where
  stores purpose := purpose = .prpList acmd.serial
  ends _ := False
  ids id := id = acmd.id
  enters id := id = acmd.id
  queues _ := False

/-- What announcing a command touches. -/
def announcement (index : Nat) : Footprint where
  stores purpose := purpose = .doorbells ∨ purpose = .submissionQueue index
  ends _ := False
  ids _ := False
  enters _ := False
  queues other := other = index

theorem within_submitSqCommand (index : Nat) (cmd : NVMeCommand) (writeSq : Bool) :
    Effect.Keeps (announcement index).Within (submitSqCommand index cmd writeSq) := by
  refine within_bind (within_queue index) fun nvmeq => ?_
  refine within_bind (within_write (Or.inr rfl) _ _) fun _ => ?_
  refine within_bind (Effect.Keeps.modify fun driver => ?_) fun _ => ?_
  · exact .unstored rfl rfl rfl (fun _ _ => rfl) (fun _ _ => rfl) fun _ cmd entry => .inr ⟨cmd, entry, rfl⟩
  · refine within_bind (within_updateQueue fun other => absurd rfl other) fun _ => ?_
    exact within_writeSqDoorbell (Or.inl rfl) index writeSq

/-- A command that was put on a ring is in the slot of the tail, and the other slots are as they
were. -/
theorem submitSqCommand_ok {layout : Layout} {index : Nat} {cmd : NVMeCommand}
    (orderly : Orderly layout driver) (narrow : driver.space.Narrow) (below : index < layout.count)
    (positive : 0 < layout.depth index) (fits : layout.SqFits index)
    (ran : (submitSqCommand index cmd true).run driver = (.ok (), after)) :
    ∃ place : Station, driver.station index = some place ∧ place.tail < place.depth ∧
      after.station index = some place.advance ∧
      after.space.read (place.sq + place.tail * 64) 64 = .ok cmd.bytes ∧
      ∀ slot bytes, slot < place.depth → slot ≠ place.tail →
        driver.space.read (place.sq + slot * 64) 64 = .ok bytes →
        after.space.read (place.sq + slot * 64) 64 = .ok bytes := by
  have orderlyAfter := (maintains_submitSqCommand below positive fits cmd true).returned orderly ran
  obtain ⟨nvmeq, same, looked, writing⟩ := Effect.bind_ok.mp ran
  obtain ⟨_, written, wrote, noting⟩ := Effect.bind_ok.mp writing
  obtain ⟨_, noted, note, moving⟩ := Effect.bind_ok.mp noting
  obtain ⟨_, moved, move, ringing⟩ := Effect.bind_ok.mp moving
  obtain ⟨found, here⟩ := queue_ok.mp looked
  obtain rfl := here.symm
  obtain ⟨space, stored, rfl⟩ := write_ok.mp wrote
  cases note
  cases move
  have ready := orderly.ready below found
  obtain ⟨len, live, room⟩ := ready.sq
  have tail := ready.tail (ready.depth ▸ positive)
  have bounded := orderly.bounded live
  simp only [Extent.stop] at bounded
  have offset : nvmeq.sqTail <<< nvmeq.sqeShift = nvmeq.sqTail * 64 := by
    rw [ready.shift, Nat.shiftLeft_eq]
    rfl
  have address : u32 (nvmeq.sqDmaAddr + nvmeq.sqTail * 64) = nvmeq.sqDmaAddr + nvmeq.sqTail * 64 :=
    u32_of_lt (by omega)
  rw [offset, address] at stored
  have frame := MemorySpace.frame_write stored
  have length := length_commandBytes cmd
  let rings : Footprint := ⟨fun purpose => purpose = .doorbells, fun _ => False, fun _ => False,
    fun _ => False, fun _ => False⟩
  have rung : rings.Within _ after := within_of (within_writeSqDoorbell rfl index true) ringing
  have narrowOn : space.Narrow := by
    unfold MemorySpace.Narrow
    rw [frame.iovaBase, frame.mapSize]
    exact narrow
  -- the doorbell leaves the queue's memory alone
  have kept : ∀ addr, nvmeq.sqDmaAddr ≤ addr → addr < nvmeq.sqDmaAddr + len →
      after.space.byteAt addr = space.byteAt addr := by
    intro addr above inside
    exact rung.byteAt orderlyAfter narrowOn live id (by simp [rings]) ⟨above, inside⟩ (by omega)
  refine ⟨nvmeq.station, by rw [station, found]; rfl, tail, ?_, ?_, ?_⟩
  · rw [rung.stations index id, station_modify, if_pos rfl]
    change (driver.queues[index]?).map _ = _
    rw [found]
    rfl
  · have read := MemorySpace.read_written stored
    rw [length] at read
    show after.space.read (nvmeq.sqDmaAddr + nvmeq.sqTail * 64) 64 = _
    refine MemorySpace.read_same narrowOn rung.base rung.size (by omega) read ?_
    intro addr above inside
    exact kept addr (by omega) (by omega)
  · intro slot bytes inside other before
    change slot < nvmeq.depth at inside
    change slot ≠ nvmeq.sqTail at other
    have apart : slot * 64 + 64 ≤ nvmeq.sqTail * 64 ∨ nvmeq.sqTail * 64 + 64 ≤ slot * 64 := by omega
    have ends : nvmeq.sqDmaAddr + slot * 64 + 64 ≤ 2 ^ 32 := by omega
    refine MemorySpace.read_same narrow (rung.base.trans frame.iovaBase)
      (rung.size.trans frame.mapSize) ends before ?_
    intro addr above ends
    change nvmeq.sqDmaAddr + slot * 64 ≤ addr at above
    change addr < nvmeq.sqDmaAddr + slot * 64 + 64 at ends
    rw [kept addr (by omega) (by omega)]
    exact MemorySpace.write_apart narrow (by omega) stored (by omega) (by omega)

/-- What a submission that returned leaves behind. -/
structure Queued (layout : Layout) (driver after : NVMeDriver) (index : Nat) (acmd : AsyncCommand)
    (cmd : NVMeCommand) (buf buflen : Nat) (place : Station) (prp2 : Nat) : Prop where
  /-- The driver is in order. -/
  orderly : Orderly layout after
  /-- The submission touched nothing else. -/
  within : (submission index acmd).Within driver after
  /-- Where the queue stood. -/
  found : driver.station index = some place
  /-- Its tail was on the ring. -/
  tail : place.tail < place.depth
  /-- The queue advanced. -/
  station : after.station index = some place.advance
  /-- The command has the next id. -/
  id : acmd.id = driver.commands.commandIdCounter
  /-- It is in the table. -/
  stage : after.stage acmd.id = some (acmd.serial, false)
  /-- Its regions describe the buffer. -/
  regions : Regions after acmd.serial buf buflen prp2
  /-- It is in the slot of the tail. -/
  command : after.space.read (place.sq + place.tail * 64) 64 =
    .ok (NVMeCommand.bytes { cmd with commandId := acmd.id, prp1 := buf, prp2 := prp2 })
  /-- The other slots are as they were. -/
  others : ∀ slot bytes, slot < place.depth → slot ≠ place.tail →
    driver.space.read (place.sq + slot * 64) 64 = .ok bytes →
    after.space.read (place.sq + slot * 64) 64 = .ok bytes

/-- **A submission** that returned. -/
theorem submitAsyncCommand_ok {layout : Layout} {index : Nat} {cmd : NVMeCommand} {callback : Bool}
    (orderly : Orderly layout driver) (narrow : driver.space.Narrow) (below : index < layout.count)
    (positive : 0 < layout.depth index) (doorbell : layout.SqFits index) (plain : cmd.prp2 = 0)
    (nonempty : buflen ≠ 0) (list : OneList buf buflen) (fits : buf + buflen ≤ 2 ^ 32)
    (ran : (submitAsyncCommand index cmd buf buflen callback).run driver = (.ok acmd, after)) :
    ∃ place prp2, Queued layout driver after index acmd cmd buf buflen place prp2 := by
  obtain ⟨entered, registered, setup, describing⟩ := Effect.bind_ok.mp ran
  obtain ⟨described, prepared, describe, submitting⟩ := Effect.bind_ok.mp describing
  obtain ⟨_, submitted, submit, returned⟩ := Effect.bind_ok.mp submitting
  cases returned
  have orderlyRegistered := (ensures_setupAsyncCommand callback).returned orderly setup
  have orderlyPrepared := (ensures_describe acmd _ list).returned orderlyRegistered describe
  have orderlyAfter :=
    (maintains_submitSqCommand below positive doorbell described true).returned orderlyPrepared submit
  have number : acmd.id = driver.commands.commandIdCounter := by
    have known := Effect.attempt_ok.mp setup
    cases known
    rfl
  have entry : registered.stage acmd.id = some (acmd.serial, false) := by
    have known := Effect.attempt_ok.mp setup
    cases known
    simp only [NVMeDriver.stage, Function.update_self, Option.map_some]
    rfl
  -- describing leaves the entry's stage as it is
  let lists : Footprint := { preparation acmd with ids := fun _ => False, enters := fun _ => False }
  have first : (preparation acmd).Within driver registered :=
    within_setup number.symm number.symm setup
  have second : lists.Within registered prepared := within_of (within_describe rfl _ buf buflen) describe
  have third : (announcement index).Within prepared after :=
    within_of (within_submitSqCommand index described true) submit
  have front : (preparation acmd).Within driver prepared :=
    first.trans (second.mono (fun _ => id) (fun _ => id) (fun _ => False.elim) (fun _ => False.elim)
      fun _ => id)
  have narrowPrepared := front.narrow narrow
  have plainOn : NVMeCommand.prp2 { cmd with commandId := acmd.id } = 0 := plain
  obtain ⟨prp2, rfl, regions⟩ :=
    describe_regions plainOn nonempty list fits (first.narrow narrow).1 describe
  obtain ⟨place, found, tail, station, command, others⟩ :=
    submitSqCommand_ok orderlyPrepared narrowPrepared below positive doorbell submit
  have before : driver.station index = some place := by
    rw [← front.stations index id, found]
  have frontWide : (submission index acmd).Within driver prepared :=
    front.mono (fun _ stored => Or.inr (Or.inr stored)) (fun _ => id) (fun _ => id) (fun _ => id)
      fun _ => False.elim
  have backWide : (submission index acmd).Within prepared after := by
    refine third.mono ?_ (fun _ => id) (fun _ => False.elim) (fun _ => False.elim) fun _ => id
    rintro purpose (doorbells | queue)
    · exact Or.inl doorbells
    · exact Or.inr (Or.inl queue)
  have whole : (submission index acmd).Within driver after := frontWide.trans backWide
  have stage : after.stage acmd.id = some (acmd.serial, false) := by
    rw [third.entries _ id, second.entries _ id, entry]
  have kept : Regions after acmd.serial buf buflen prp2 := by
    refine regions.within list narrowPrepared orderlyPrepared orderlyAfter third id ?_
    rintro (doorbells | queue)
    · cases doorbells
    · cases queue
  refine ⟨place, prp2, orderlyAfter, whole, before, tail, station, number, stage, kept, command, ?_⟩
  intro slot bytes inside other read
  refine others slot bytes inside other ?_
  exact front.slot orderly orderlyPrepared narrow below id (fun same => by cases same) before inside read

end NVMeDriver

end McmqHost
