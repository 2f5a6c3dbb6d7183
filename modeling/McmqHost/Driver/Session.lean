import McmqHost.Driver.Device

/-!
# Synchronous calls on a device with a block store

A thread fills its buffers and makes synchronous calls, each of which the device serves before it
completes. A call of `read` does what a store should do. A call of `write` asks for a read as well:
it overwrites the buffer instead of the blocks, and its completion tells nothing.
-/

namespace McmqHost

open Storage

/-- Arguments of `NVMeDriver::read`, or of `NVMeDriver::write`. -/
structure Call where
  /-- Write rather than read. -/
  doWrite : Bool
  /-- Namespace. -/
  nsid : Nat
  /-- First byte. -/
  pos : Int
  /-- The buffer. -/
  buf : Nat
  /-- Number of bytes. -/
  size : Nat
deriving DecidableEq, Repr

namespace Call

/-- Whole blocks at a block boundary, up to 2 MiB, and a page-aligned range of a live buffer. -/
def Allowed (call : Call) (driver : NVMeDriver) : Prop :=
  call.nsid < 2 ^ 32 ∧ 0 ≤ call.pos ∧ call.pos < 2 ^ 63 ∧ call.pos % 4096 = 0 ∧
    4096 ≤ call.size ∧ call.size ≤ 2 ^ 21 ∧ call.size % 4096 = 0 ∧ call.buf % 4096 = 0 ∧
    driver.Covers .buffer call.buf call.size

instance (driver : NVMeDriver) (purpose : Purpose) (addr len : Nat) :
    Decidable (driver.Covers purpose addr len) :=
  inferInstanceAs (Decidable (∃ block ∈ driver.blocks, _))

instance (call : Call) (driver : NVMeDriver) : Decidable (call.Allowed driver) :=
  inferInstanceAs (Decidable (_ ∧ _))

/-- The submission of the synchronous call. -/
def submit (index : Nat) (call : Call) : Drive AsyncCommand :=
  if call.doWrite then NVMeDriver.submitWrite index call.nsid call.pos call.buf call.size
  else NVMeDriver.submitRead index call.nsid call.pos call.buf call.size

/-- The synchronous call with these arguments. -/
def sync (index : Nat) (call : Call) : Drive Unit :=
  if call.doWrite then NVMeDriver.writeSync index call.nsid call.pos call.buf call.size
  else NVMeDriver.readSync index call.nsid call.pos call.buf call.size

/-- The asynchronous call with the same arguments. -/
def submitAsync (index : Nat) (call : Call) : Drive Unit :=
  if call.doWrite then NVMeDriver.writeAsync index call.nsid call.pos call.buf call.size
  else NVMeDriver.readAsync index call.nsid call.pos call.buf call.size

/-- The bytes are a command for the call, with some id and, if the buffer needs one, some list
page. -/
def Asks (call : Call) (bytes : List UInt8) : Prop :=
  ∃ id prp2, bytes = NVMeCommand.bytes
      { NVMeDriver.rwCommand call.doWrite call.nsid call.pos call.size with
        commandId := id, prp1 := call.buf, prp2 := prp2 } ∧
    (¬NVMeDriver.NeedsList call.buf call.size →
      prp2 = if ctrlPageSize - call.buf % ctrlPageSize < call.size
        then call.buf + (ctrlPageSize - call.buf % ctrlPageSize) else 0)

/-- A synchronous call waits for the command that it submits. -/
theorem sync_eq (index : Nat) (call : Call) :
    call.sync index = call.submit index >>= fun cmd => NVMeDriver.finishSync index cmd := by
  unfold sync submit
  split
  · rfl
  · rfl

end Call

/-- A call that returned. -/
structure Entry where
  /-- The call. -/
  call : Call
  /-- The driver before it. -/
  before : NVMeDriver
  /-- The command that the device fetched. -/
  fetched : List UInt8
  /-- What the buffer held when a write was called, or when a read returned. -/
  data : List UInt8

/-- What the caller asked of the store, and what it got. -/
def Entry.use (entry : Entry) : Use (Nat × Nat) UInt8 :=
  ⟨entry.call.doWrite, span entry.call.nsid entry.call.pos.toNat entry.data⟩

/-- A driver, a device and the calls so far. -/
structure Session where
  /-- The driver. -/
  driver : NVMeDriver
  /-- The device. -/
  device : Device
  /-- The calls that returned, in order. -/
  entries : List Entry

/-- What a thread does. -/
inductive SessionEvent
  /-- It stores bytes in a buffer. -/
  | fill (addr : Nat) (bytes : List UInt8)
  /-- It makes a synchronous call. -/
  | call (call : Call)

/-- The call that an event makes, if it makes one. -/
def SessionEvent.calls : SessionEvent → List Call
  | .fill .. => []
  | .call made => [made]

namespace Session

/-- The outcome of an operation that returned. -/
def returned {Value : Type} (outcome : Except Halt Value × NVMeDriver) : Option (Value × NVMeDriver) :=
  outcome.1.toOption.map fun value => (value, outcome.2)

/-- The data of a call. -/
def dataOf (call : Call) (before after : NVMeDriver) : List UInt8 :=
  (if call.doWrite then before else after).space.bytesAt call.buf call.size

/-- A call is submitted, served and completed. -/
def perform (index : Nat) (session : Session) (call : Call) : Option Session := do
  let (cmd, posted) ← returned ((call.submit index).run session.driver)
  let (fetched, device, space) ← (session.device.serve posted.space).toOption
  let (_, last) ← returned ((NVMeDriver.finishSync index cmd).run { posted with space := space })
  pure ⟨last, device, session.entries ++
    [⟨call, session.driver, fetched, dataOf call session.driver last⟩]⟩

/-- One event; a call that fails ends the run. -/
def step (index : Nat) (session : Session) : SessionEvent → Option Session
  | .fill addr bytes =>
    if session.driver.Covers .buffer addr bytes.length then
      (returned ((NVMeDriver.write .buffer addr bytes).run session.driver)).map fun result =>
        { session with driver := result.2 }
    else none
  | .call call => if call.Allowed session.driver then session.perform index call else none

/-- The session of a thread with the queue at an index. -/
def machine (index : Nat) : Machine Session SessionEvent where
  step := Session.step index

variable {Value : Type} {before after : NVMeDriver}

theorem returned_some {outcome : Except Halt Value × NVMeDriver} {value : Value} :
    returned outcome = some (value, after) ↔ outcome = (.ok value, after) := by
  obtain ⟨result, left⟩ := outcome
  cases result <;> simp [returned, Except.toOption]

end Session

namespace NVMeDriver

open Footprint

/-- What waiting for a command touches. -/
def completion : Footprint where
  stores purpose := purpose = .doorbells
  ends purpose := ∃ serial, purpose = .prpList serial
  ids _ := True
  enters _ := False
  queues _ := False

/-- The end of a synchronous call touches no more than that. -/
theorem within_finishSync {index : Nat} {cmd : AsyncCommand} {driver after : NVMeDriver}
    (ran : (finishSync index cmd).run driver = (.ok (), after)) : completion.Within driver after := by
  obtain ⟨reply, last, waited, checked⟩ := Effect.bind_ok.mp ran
  have same : after = last := by
    split at checked
    · exact (congrArg Prod.snd checked).symm
    · exact absurd (congrArg Prod.fst checked) (by simp [Effect.fail, Effect.run])
  have ending : Ending completion driver := fun _ cmd _ _ => ⟨cmd.serial, rfl⟩
  have stays : Stays completion driver (wait index cmd) :=
    stays_wait rfl ending (fun _ => id) index trivial
  rw [same]
  exact stays.returned (.refl driver) waited

/-- It leaves the driver in order. -/
theorem orderly_finishSync {layout : Layout} {index : Nat} {cmd : AsyncCommand}
    {driver after : NVMeDriver} (orderly : Orderly layout driver) (fits : layout.CqFits index)
    (ran : (finishSync index cmd).run driver = (.ok (), after)) : Orderly layout after := by
  obtain ⟨reply, last, waited, checked⟩ := Effect.bind_ok.mp ran
  have same : after = last := by
    split at checked
    · exact (congrArg Prod.snd checked).symm
    · exact absurd (congrArg Prod.fst checked) (by simp [Effect.fail, Effect.run])
  rw [same]
  exact (maintains_wait fits cmd).returned orderly waited

end NVMeDriver

namespace Call

variable {layout : Layout} {index : Nat} {call : Call} {driver after : NVMeDriver}

/-- The buffer of an allowed call ends in the address space, and one list page describes it. -/
theorem Allowed.bounds (allowed : call.Allowed driver) (orderly : Orderly layout driver) :
    call.buf + call.size ≤ 2 ^ 32 ∧ NVMeDriver.OneList call.buf call.size := by
  obtain ⟨-, -, -, -, -, atMost, -, boundary, block, live, -, -, ends⟩ := allowed
  have bounded := orderly.bounded live
  constructor
  · exact ends.trans bounded
  · intro _
    show call.buf % 4096 + call.size ≤ 513 * 4096
    omega

/-- A submission for an allowed call puts a command on the ring. -/
theorem Allowed.queued (allowed : call.Allowed driver) (orderly : Orderly layout driver)
    (narrow : driver.space.Narrow) (below : index < layout.count)
    (positive : 0 < layout.depth index) (doorbell : layout.SqFits index) {doWrite callback : Bool}
    {acmd : AsyncCommand}
    (ran : (NVMeDriver.submitRwCommand index doWrite call.nsid call.pos call.buf call.size
      callback).run driver = (.ok acmd, after)) :
    ∃ place prp2, NVMeDriver.Queued layout driver after index acmd
      (NVMeDriver.rwCommand doWrite call.nsid call.pos call.size) call.buf call.size place prp2 := by
  obtain ⟨ends, list⟩ := allowed.bounds orderly
  obtain ⟨-, -, -, -, atLeast, -⟩ := allowed
  have nonempty : call.size ≠ 0 := by omega
  exact NVMeDriver.submitAsyncCommand_ok orderly narrow below positive doorbell rfl nonempty list
    ends ran

/-- The command on the ring asks for the direction of its submission. -/
theorem asks_queued {doWrite : Bool} {acmd : AsyncCommand} {place : Station} {prp2 : Nat}
    (queued : NVMeDriver.Queued layout driver after index acmd
      (NVMeDriver.rwCommand doWrite call.nsid call.pos call.size) call.buf call.size place prp2) :
    Asks { call with doWrite := doWrite } (NVMeCommand.bytes
      { NVMeDriver.rwCommand doWrite call.nsid call.pos call.size with
        commandId := acmd.id, prp1 := call.buf, prp2 := prp2 }) := by
  refine ⟨acmd.id, prp2, rfl, fun few => ?_⟩
  have regions := queued.regions
  unfold NVMeDriver.Regions at regions
  rwa [if_neg few] at regions

/-- **The asynchronous call** puts a command for the call on the ring. -/
theorem asks_async (orderly : Orderly layout driver) (narrow : driver.space.Narrow)
    (below : index < layout.count) (positive : 0 < layout.depth index)
    (doorbell : layout.SqFits index) (allowed : call.Allowed driver) {place : Station}
    (found : driver.station index = some place)
    (ran : (call.submitAsync index).run driver = (.ok (), after)) :
    ∃ bytes, after.space.read (place.sq + place.tail * 64) 64 = .ok bytes ∧ call.Asks bytes := by
  have submitted : ∃ acmd, (NVMeDriver.submitRwCommand index call.doWrite call.nsid call.pos
      call.buf call.size true).run driver = (.ok acmd, after) := by
    unfold submitAsync at ran
    split at ran
    case isTrue writes =>
      obtain ⟨acmd, last, entered, returned⟩ := Effect.bind_ok.mp ran
      cases returned
      exact ⟨acmd, writes ▸ entered⟩
    case isFalse reads =>
      obtain ⟨acmd, last, entered, returned⟩ := Effect.bind_ok.mp ran
      cases returned
      exact ⟨acmd, Bool.eq_false_of_not_eq_true reads ▸ entered⟩
  obtain ⟨acmd, entered⟩ := submitted
  obtain ⟨other, prp2, queued⟩ := allowed.queued orderly narrow below positive doorbell entered
  obtain rfl := Option.some.inj (found.symm.trans queued.found)
  exact ⟨_, queued.command, asks_queued queued⟩

/-- Either synchronous call submits a read. -/
theorem submit_reads : call.submit index =
    NVMeDriver.submitRwCommand index false call.nsid call.pos call.buf call.size false := by
  unfold submit
  split <;> rfl

/-- A command has the opcode of the direction that it asks for. -/
theorem Asks.opcode {bytes : List UInt8} (asks : call.Asks bytes) :
    opcodeOf bytes = rwOpcode call.doWrite := by
  obtain ⟨id, prp2, command, -⟩ := asks
  rw [command, NVMeDriver.rwCommand_bytes]
  exact RwCommand.opcodeOf_bytes (show rwOpcode call.doWrite < 256 by cases call.doWrite <;> decide)

/-- A command that asks for a read does not ask for a write. -/
theorem not_asks_write {bytes : List UInt8} (reads : Asks { call with doWrite := false } bytes) :
    ¬Asks { call with doWrite := true } bytes := by
  intro writes
  have two : opcodeOf bytes = rwOpcode false := reads.opcode
  have one : opcodeOf bytes = rwOpcode true := writes.opcode
  exact absurd (one.symm.trans two) (by decide)

end Call

namespace NVMeDriver

variable {layout : Layout} {driver posted : NVMeDriver} {index prp2 : Nat} {call : Call}
  {acmd : AsyncCommand} {place : Station} {device : Device}

/-- The second region is an address. -/
theorem Regions.second_lt {serial buf buflen : Nat} (regions : Regions driver serial buf buflen prp2)
    (orderly : Orderly layout driver) (ends : buf + buflen ≤ 2 ^ 32) : prp2 < 2 ^ 64 := by
  unfold Regions at regions
  split at regions
  · have bounded := orderly.bounded regions.1
    change prp2 + 0x1000 ≤ 2 ^ 32 at bounded
    omega
  · split at regions <;> omega

/-- **The device serves a read** that was put on its ring. -/
theorem Queued.serve (queued : Queued layout driver posted index acmd
      (rwCommand false call.nsid call.pos call.size) call.buf call.size place prp2)
    (orderly : Orderly layout driver) (narrow : posted.space.Narrow)
    (allowed : call.Allowed driver) (stands : device.station = place) :
    device.serve posted.space = .ok
      (NVMeCommand.bytes { rwCommand false call.nsid call.pos call.size with
        commandId := acmd.id, prp1 := call.buf, prp2 := prp2 }, device.advance,
        posted.space.deposit (List.range' call.buf call.size)
          (Storage.take device.disk call.nsid call.pos.toNat call.size)) := by
  obtain ⟨ends, list⟩ := allowed.bounds orderly
  obtain ⟨nsid, positive, fits, boundary, atLeast, atMost, whole, -⟩ := allowed
  obtain ⟨pages, walked⟩ := queued.regions.walk list ends (Nat.le_of_lt narrow.1)
  have fetched := queued.command
  rw [← stands] at fetched
  have first : call.buf < 2 ^ 64 := by omega
  have second := queued.regions.second_lt queued.orderly ends
  exact Device.serve_read positive fits boundary atLeast atMost whole nsid first second rfl fetched
    walked

end NVMeDriver

/-- A call that the device served as a read. -/
structure Entry.Served (layout : Layout) (disk : Disk) (entry : Entry) : Prop where
  /-- The driver was in order before it. -/
  orderly : Orderly layout entry.before
  /-- Its memory was in the address space. -/
  narrow : entry.before.space.Narrow
  /-- The call was allowed. -/
  allowed : entry.call.Allowed entry.before
  /-- The device fetched a command for a read. -/
  reads : Call.Asks { entry.call with doWrite := false } entry.fetched
  /-- A read returned what the device keeps. -/
  data : entry.call.doWrite = false →
    entry.data = take disk entry.call.nsid entry.call.pos.toNat entry.call.size

namespace Session

/-- The device stands where the driver puts its next command, and it keeps what it kept at first. -/
structure Sound (layout : Layout) (index : Nat) (disk : Disk) (session : Session) : Prop where
  /-- The driver is in order. -/
  orderly : Orderly layout session.driver
  /-- Its memory is in the address space. -/
  narrow : session.driver.space.Narrow
  /-- The device stands at the tail. -/
  station : session.driver.station index = some session.device.station
  /-- The device keeps what it kept at first. -/
  kept : session.device.disk = disk
  /-- Every call was served as a read. -/
  served : ∀ entry ∈ session.entries, entry.Served layout disk

variable {layout : Layout} {index : Nat} {disk : Disk} {session after : Session}

open NVMeDriver

/-- What filling a buffer touches. -/
def filling : Footprint where
  stores purpose := purpose = .buffer
  ends _ := False
  ids _ := False
  enters _ := False
  queues _ := False

/-- **Filling a buffer** keeps a session sound. -/
theorem Sound.fill (sound : session.Sound layout index disk) {addr : Nat} {bytes : List UInt8}
    (covers : session.driver.Covers .buffer addr bytes.length) {last : NVMeDriver}
    (wrote : (write .buffer addr bytes).run session.driver = (.ok (), last)) :
    Sound layout index disk { session with driver := last } := by
  have within : filling.Within session.driver last := within_of (within_write rfl addr bytes) wrote
  exact { sound with
    orderly := ensures_write.returned ⟨sound.orderly, covers⟩ wrote
    narrow := within.narrow sound.narrow
    station := (within.stations index id).trans sound.station }

/-- What a read returned once its command was served and completed. -/
theorem data_finished {call : Call} {posted last : NVMeDriver} {values : List UInt8} {cmd : AsyncCommand}
    (orderly : Orderly layout posted) (narrow : posted.space.Narrow)
    (covers : posted.Covers .buffer call.buf call.size) (length : values.length = call.size)
    (cqFits : layout.CqFits index)
    (finished : (finishSync index cmd).run { posted with
      space := posted.space.deposit (List.range' call.buf call.size) values } = (.ok (), last)) :
    Orderly layout last ∧ last.space.Narrow ∧ last.station index = posted.station index ∧
      last.space.bytesAt call.buf call.size = values := by
  have frame : (posted.space.deposit (List.range' call.buf call.size) values).SameFrame posted.space :=
    MemorySpace.frame_deposit
  have served := orderly.framed frame
  have narrowServed : (posted.space.deposit (List.range' call.buf call.size) values).Narrow := by
    unfold MemorySpace.Narrow
    rw [frame.iovaBase, frame.mapSize]
    exact narrow
  have within := within_finishSync finished
  have orderlyLast := orderly_finishSync served cqFits finished
  refine ⟨orderlyLast, within.narrow narrowServed, within.stations index id, ?_⟩
  have lasts : ¬completion.ends .buffer := by
    rintro ⟨serial, same⟩
    cases same
  have spared : ¬completion.stores .buffer := by
    intro same
    cases same
  have ends : call.buf + values.length ≤ 2 ^ 32 := by
    obtain ⟨block, live, -, -, inside⟩ := covers
    exact length ▸ inside.trans (orderly.bounded live)
  rw [within.bytesAt served orderlyLast narrowServed covers lasts spared]
  show MemorySpace.bytesAt (posted.space.deposit _ values) _ _ = values
  rw [← length]
  exact MemorySpace.bytesAt_deposit narrow.1 ends

/-- **A call** keeps a session sound. -/
theorem Sound.perform (sound : session.Sound layout index disk) (below : index < layout.count)
    (positive : 0 < layout.depth index) (sqFits : layout.SqFits index)
    (cqFits : layout.CqFits index) {call : Call} (allowed : call.Allowed session.driver)
    (performed : session.perform index call = some after) :
    after.Sound layout index disk ∧ ∃ entry, after.entries = session.entries ++ [entry] ∧
      entry.call = call := by
  obtain ⟨⟨cmd, posted⟩, submitted, performed⟩ := Option.bind_eq_some_iff.mp performed
  obtain ⟨⟨fetched, device, space⟩, serves, performed⟩ := Option.bind_eq_some_iff.mp performed
  obtain ⟨⟨_, last⟩, finished, ended⟩ := Option.bind_eq_some_iff.mp performed
  obtain rfl := Option.some.inj ended
  rw [returned_some, Call.submit_reads] at submitted
  rw [returned_some] at finished
  obtain ⟨place, prp2, queued⟩ :=
    allowed.queued sound.orderly sound.narrow below positive sqFits submitted
  have narrow := queued.within.narrow sound.narrow
  have stands := Option.some.inj (sound.station.symm.trans queued.found)
  rw [queued.serve sound.orderly narrow allowed stands, sound.kept] at serves
  cases serves
  have covers : posted.Covers .buffer call.buf call.size := by
    obtain ⟨-, -, -, -, -, -, -, -, block, live, home⟩ := allowed
    exact ⟨block, queued.within.blocks block live id, home⟩
  have length : (Storage.take disk call.nsid call.pos.toNat call.size).length = call.size := by
    simp [Storage.take]
  obtain ⟨orderly, narrowLast, station, data⟩ :=
    data_finished queued.orderly narrow covers length cqFits finished
  refine ⟨⟨orderly, narrowLast, ?_, sound.kept, ?_⟩, _, rfl, rfl⟩
  · rw [station, queued.station, ← stands]
    rfl
  · intro entry listed
    rcases List.mem_append.mp listed with earlier | new
    · exact sound.served entry earlier
    · rw [List.mem_singleton.mp new]
      refine ⟨sound.orderly, sound.narrow, allowed, Call.asks_queued queued, fun reads => ?_⟩
      rw [dataOf, if_neg (by rw [reads]; exact Bool.false_ne_true)]
      exact data

/-- **One event** keeps a session sound and enters the call that it makes. -/
theorem Sound.step (sound : session.Sound layout index disk) (below : index < layout.count)
    (positive : 0 < layout.depth index) (sqFits : layout.SqFits index)
    (cqFits : layout.CqFits index) {event : SessionEvent}
    (stepped : session.step index event = some after) :
    after.Sound layout index disk ∧
      after.entries.map Entry.call = session.entries.map Entry.call ++ event.calls := by
  unfold Session.step at stepped
  split at stepped
  case h_1 addr bytes =>
    split at stepped
    case isFalse => contradiction
    case isTrue covers =>
      obtain ⟨⟨_, last⟩, wrote, same⟩ := Option.map_eq_some_iff.mp stepped
      rw [returned_some] at wrote
      rw [← same]
      refine ⟨sound.fill covers wrote, ?_⟩
      exact (List.append_nil _).symm
  case h_2 call =>
    split at stepped
    case isFalse => contradiction
    case isTrue allowed =>
      obtain ⟨next, entry, entries, same⟩ :=
        sound.perform below positive sqFits cqFits allowed stepped
      refine ⟨next, ?_⟩
      rw [entries, List.map_append, List.map_singleton, same]
      rfl

/-- **A run** keeps a session sound and enters the calls that its events make. -/
theorem Sound.run (sound : session.Sound layout index disk) (below : index < layout.count)
    (positive : 0 < layout.depth index) (sqFits : layout.SqFits index)
    (cqFits : layout.CqFits index) {events : List SessionEvent}
    (ran : (machine index).run session events = some after) :
    after.Sound layout index disk ∧
      after.entries.map Entry.call =
        session.entries.map Entry.call ++ events.flatMap SessionEvent.calls := by
  induction events using List.reverseRecOn generalizing after with
  | nil =>
    obtain rfl := Option.some.inj ran
    exact ⟨sound, by simp⟩
  | append_singleton events event ih =>
    obtain ⟨middle, earlier, stepped⟩ := (machine index).run_concat.mp ran
    obtain ⟨good, calls⟩ := ih earlier
    obtain ⟨next, entered⟩ := good.step below positive sqFits cqFits stepped
    refine ⟨next, ?_⟩
    rw [entered, calls, List.flatMap_append, List.flatMap_singleton, List.append_assoc]

/-- Calls that read what the device keeps are faithful to it. -/
theorem faithful_reads {entries : List Entry} (served : ∀ entry ∈ entries, entry.Served layout disk)
    (reads : ∀ entry ∈ entries, entry.call.doWrite = false) :
    Faithful disk (entries.map Entry.use) := by
  induction entries using List.reverseRecOn with
  | nil => exact .nil
  | append_singleton entries entry ih =>
    have earlier : ∀ other ∈ entries, other.call.doWrite = false :=
      fun other listed => reads other (List.mem_append_left _ listed)
    have front := ih (fun other listed => served other (List.mem_append_left _ listed)) earlier
    have last := List.mem_append_right entries (List.mem_singleton.mpr (Eq.refl entry))
    have unchanged : replay disk (entries.map Entry.use) = disk := by
      apply replay_reads
      intro use listed
      obtain ⟨other, inside, rfl⟩ := List.mem_map.mp listed
      exact earlier other inside
    rw [List.map_append, List.map_singleton]
    apply front.concat
    intro _ place value covered
    obtain ⟨offset, rfl, found⟩ := span_some covered
    rw [(served entry last).data (reads entry last)] at found
    rw [unchanged]
    exact value_take found

/-- **Synchronous and asynchronous calls** of a thread whose queue has a slot, served by a device with
a block store: an asynchronous call puts a command for the call on the ring. The synchronous ones do so
as well, and every read returns the latest write, exactly when no call is a write. -/
theorem sync_agrees_iff {base len : Nat} (addressable : base + len ≤ 2 ^ 32) (short : len < 2 ^ 32)
    {space : MemorySpace} (released : HoleTable.init.free base len = .ok space.table)
    {ncpus ioQueueDepth commandIdCounter ctrlConfig : Nat} {script : Script} {useDbbuf : Bool}
    {driver ready : NVMeDriver} {history : List Event}
    (constructed : (construct useDbbuf).run
      (blank ncpus ioQueueDepth space commandIdCounter ctrlConfig script) = (.ok (), driver))
    (started : NVMeDriver.machine.run driver history = some ready)
    (contained : ∀ before event after, NVMeDriver.machine.Takes driver history before event after →
      before.Contained event)
    (narrow : ready.space.Narrow) (slot : ready.HasSlot index) (cqDb : ready.CqDbFits index)
    {device : Device} (stands : ready.station index = some device.station)
    {events : List SessionEvent} {last : Session}
    (ran : (machine index).run ⟨ready, device, []⟩ events = some last) :
    last.entries.map Entry.call = events.flatMap SessionEvent.calls ∧
      (∀ entry ∈ last.entries, ∀ place after, entry.before.station index = some place →
        (entry.call.submitAsync index).run entry.before = (.ok (), after) →
        ∃ bytes, after.space.read (place.sq + place.tail * 64) 64 = .ok bytes ∧
          entry.call.Asks bytes) ∧
      (((∀ entry ∈ last.entries, entry.call.Asks entry.fetched) ∧
          Faithful device.disk (last.entries.map Entry.use)) ↔
        ∀ call ∈ events.flatMap SessionEvent.calls, call.doWrite = false) := by
  obtain ⟨layout, orderly⟩ := tidy_of_run addressable short released constructed started contained
  obtain ⟨below, positive, sqFits⟩ := fits_of_slot orderly slot
  have cqFits := fits_of_cqDb orderly cqDb below
  have first : Sound layout index device.disk ⟨ready, device, []⟩ := {
    orderly := orderly
    narrow := narrow
    station := stands
    kept := rfl
    served := by simp }
  obtain ⟨sound, calls⟩ := first.run below positive sqFits cqFits ran
  rw [List.map_nil, List.nil_append] at calls
  refine ⟨calls, ?_, ?_⟩
  · intro entry listed place after found posted
    have served := sound.served entry listed
    exact Call.asks_async served.orderly served.narrow below positive sqFits served.allowed found
      posted
  rw [← calls]
  constructor
  · rintro ⟨asks, -⟩ call listed
    obtain ⟨entry, inside, rfl⟩ := List.mem_map.mp listed
    by_contra writes
    have write : ({ entry.call with doWrite := true } : Call) = entry.call := by
      rw [← Bool.eq_true_of_not_eq_false writes]
    have refused := Call.not_asks_write (sound.served entry inside).reads
    rw [write] at refused
    exact refused (asks entry inside)
  · intro reads
    have reading : ∀ entry ∈ last.entries, entry.call.doWrite = false :=
      fun entry inside => reads entry.call (List.mem_map_of_mem inside)
    refine ⟨fun entry inside => ?_, faithful_reads sound.served reading⟩
    have asked := (sound.served entry inside).reads
    rwa [← reading entry inside] at asked

/-- A device with a depth of four and registers for the doorbells, which grants one queue. -/
def registerDoorbells : Script := ⟨[], true, 3, [0, 1], List.replicate 8 ⟨0, 0⟩⟩

/-- A driver for one thread on that device. -/
def registerDriver : NVMeDriver :=
  ((construct false).run (blank 1 4 fifteenPages 0 0 registerDoorbells)).2

/-- That driver after the start, with a buffer of three pages at 0x5000. -/
def buffered : NVMeDriver :=
  (NVMeDriver.machine.run registerDriver [.start, .borrow 0x3000]).getD registerDriver

/-- A device at its I/O queue, whose blocks are numbered from one. -/
def opening : Session :=
  ⟨buffered, ⟨4, 0x3000, 0, fun place => UInt8.ofNat (place.2 / 4096 + 1)⟩, []⟩

/-- The first block is read, and then the three behind it, for which the buffer needs a list page. -/
def fourBlocks : List SessionEvent :=
  [.call ⟨false, 1, 0, 0x5000, 0x1000⟩, .call ⟨false, 1, 0x1000, 0x5000, 0x3000⟩]

theorem construct_registerDriver :
    (construct false).run (blank 1 4 fifteenPages 0 0 registerDoorbells) =
      (.ok (), registerDriver) := by
  have returned :
      ((construct false).run (blank 1 4 fifteenPages 0 0 registerDoorbells)).1 = .ok () := by
    decide +kernel
  unfold registerDriver
  rw [← returned]

theorem run_buffered :
    NVMeDriver.machine.run registerDriver [.start, .borrow 0x3000] = some buffered := by
  have returned : (NVMeDriver.machine.run registerDriver [.start, .borrow 0x3000]).isSome := by
    decide +kernel
  obtain ⟨ready, ran⟩ := Option.isSome_iff_exists.mp returned
  rw [buffered, ran]
  rfl

/-- Both reads return what the device keeps, and their commands are those of the asynchronous calls. -/
theorem sync_agrees_iff_reads : ∃ last, (machine 1).run opening fourBlocks = some last ∧
    last.entries.length = 2 ∧ (∀ entry ∈ last.entries, entry.call.Asks entry.fetched) ∧
    Faithful opening.device.disk (last.entries.map Entry.use) := by
  have performed :
      ((machine 1).run opening fourBlocks).map (fun last => last.entries.length) = some 2 := by
    decide +kernel
  have queue : (buffered.queueCount, buffered.queues[1]?.map fun nvmeq =>
      (nvmeq.depth, nvmeq.dbbufSqDb, nvmeq.dbbufCqDb)) = (2, some (4, 0, 0)) := by
    decide +kernel
  have stands : buffered.station 1 = some opening.device.station := by
    decide +kernel
  have narrow : buffered.space.iovaBase = 0 ∧ buffered.space.mapSize = 0x10000 := by
    decide +kernel
  rw [Prod.mk.injEq, Option.map_eq_some_iff] at queue
  obtain ⟨count, nvmeq, found, fields⟩ := queue
  simp only [Prod.mk.injEq] at fields
  obtain ⟨depth, sqDb, cqDb⟩ := fields
  have slot : buffered.HasSlot 1 := by
    refine ⟨by rw [count]; decide, fun other same => ?_⟩
    obtain rfl := Option.some.inj (found.symm.trans same)
    rw [depth]
    exact ⟨by decide, fun shadow => absurd sqDb shadow⟩
  have fits : buffered.CqDbFits 1 := by
    intro other same shadow
    obtain rfl := Option.some.inj (found.symm.trans same)
    exact absurd cqDb shadow
  have contained : ∀ before event after, NVMeDriver.machine.Takes registerDriver
      [.start, .borrow 0x3000] before event after → before.Contained event := by
    rw [Machine.forall_takes_cons]
    refine fun started _ => ⟨trivial, ?_⟩
    rw [Machine.forall_takes_cons]
    exact fun borrowed _ => ⟨trivial, fun _ _ _ taken => absurd taken Machine.not_takes_nil⟩
  obtain ⟨last, ran, count⟩ := Option.map_eq_some_iff.mp performed
  have within : buffered.space.Narrow := by
    unfold MemorySpace.Narrow
    rw [narrow.1, narrow.2]
    omega
  have addressable : 0x1000 + 0xf000 ≤ 2 ^ 32 := by omega
  have short : 0xf000 < 2 ^ 32 := by omega
  have released : HoleTable.init.free 0x1000 0xf000 = .ok fifteenPages.table := rfl
  have agrees := sync_agrees_iff addressable short released construct_registerDriver run_buffered
    contained within slot fits stands ran
  exact ⟨last, ran, count, agrees.2.2.mpr (by decide)⟩

/-- A block of sevens is to be written, and then read. -/
def rewritten : List SessionEvent :=
  [.fill 0x5000 [7], .call ⟨true, 1, 0, 0x5000, 0x1000⟩, .call ⟨false, 1, 0, 0x5000, 0x1000⟩]

/-- The write returns, but its command is one for a read, and the read returns what the block held
before. -/
theorem write_reads : ∃ last, (machine 1).run opening rewritten = some last ∧
    (∃ entry ∈ last.entries, entry.call.doWrite = true ∧ ¬entry.call.Asks entry.fetched) ∧
    ¬Faithful opening.device.disk (last.entries.map Entry.use) := by
  have performed : ((machine 1).run opening rewritten).map (fun last =>
      last.entries.map fun entry =>
        (entry.call.doWrite, opcodeOf entry.fetched, entry.use.cells (1, 0))) =
      some [(true, 2, some 7), (false, 2, some 1)] := by
    decide +kernel
  obtain ⟨last, ran, entries⟩ := Option.map_eq_some_iff.mp performed
  obtain ⟨write, rest, listed, first, others⟩ := List.map_eq_cons_iff.mp entries
  obtain ⟨read, none, listedToo, second, ends⟩ := List.map_eq_cons_iff.mp others
  rw [List.map_eq_nil_iff.mp ends] at listedToo
  rw [listedToo] at listed
  simp only [Prod.mk.injEq] at first second
  refine ⟨last, ran, ⟨write, by simp [listed], first.1, fun asks => ?_⟩, fun faithful => ?_⟩
  · have one := asks.opcode
    rw [first.1, first.2.1] at one
    exact absurd one (by decide)
  · have latest := faithful [write.use] read.use [] (by rw [listed]; rfl) second.1 (1, 0) 1 second.2.2
    rcases latest with ⟨before, use, after, split, -, covered, -⟩ | ⟨unwritten, -⟩
    · have same : use = write.use := by
        have inside : use ∈ [write.use] := split ▸ List.mem_append_right _ List.mem_cons_self
        exact List.mem_singleton.mp inside
      rw [same, first.2.2] at covered
      exact absurd covered (by decide)
    · have uncovered := unwritten write.use List.mem_cons_self first.1
      rw [first.2.2] at uncovered
      cases uncovered

end Session

end McmqHost
