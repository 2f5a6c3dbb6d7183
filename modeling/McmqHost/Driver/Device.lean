import McmqHost.Base.Storage
import McmqHost.Driver.Describe

/-!
# A device with a block store

The device fetches the command at its head of a submission queue, walks the regions of the command and
moves blocks between the bytes that they describe and its store.
-/

namespace McmqHost

open Storage

/-- The bytes that a device keeps, by namespace and position. -/
abbrev Disk : Type := Nat × Nat → UInt8

namespace MemorySpace

/-- The device stores a byte. -/
def put (space : MemorySpace) (place : Nat) (value : UInt8) : MemorySpace :=
  { space with map := Function.update space.map (u32 (place + 2 ^ 32 - space.iovaBase)) value }

/-- The device stores bytes at places of memory, one after the other. -/
def deposit : MemorySpace → List Nat → List UInt8 → MemorySpace
  | space, place :: places, value :: values => (space.put place value).deposit places values
  | space, _, _ => space

variable {space : MemorySpace} {places : List Nat} {values : List UInt8}

/-- The byte is at its place. -/
theorem byteAt_put (place : Nat) (value : UInt8) : (space.put place value).byteAt place = value :=
  Function.update_self ..

/-- A byte at another place stays. -/
theorem byteAt_put_apart (base : space.iovaBase < 2 ^ 32) {addr place : Nat} (value : UInt8)
    (below : addr < 2 ^ 32) (inside : place < 2 ^ 32) (other : place ≠ addr) :
    (space.put place value).byteAt addr = space.byteAt addr := by
  apply Function.update_of_ne
  simp only [u32, put]
  omega

/-- That moves neither the mapping nor the holes. -/
theorem frame_deposit : (space.deposit places values).SameFrame space := by
  induction places generalizing space values with
  | nil => exact .refl space
  | cons place places ih =>
    cases values with
    | nil => exact .refl space
    | cons value values => exact SameFrame.trans ih ⟨rfl, rfl, rfl⟩

/-- Bytes at other places stay. -/
theorem byteAt_deposit_apart (base : space.iovaBase < 2 ^ 32) {addr : Nat} (below : addr < 2 ^ 32)
    (apart : ∀ place ∈ places, place < 2 ^ 32 ∧ place ≠ addr) :
    (space.deposit places values).byteAt addr = space.byteAt addr := by
  induction places generalizing space values with
  | nil => rfl
  | cons place places ih =>
    cases values with
    | nil => rfl
    | cons value values =>
      obtain ⟨inside, other⟩ := apart place List.mem_cons_self
      have baseOn : (space.put place value).iovaBase < 2 ^ 32 := base
      rw [deposit, ih baseOn fun later listed => apart later (List.mem_cons_of_mem _ listed)]
      exact byteAt_put_apart base value below inside other

/-- A byte at one of successive places is the value for it. -/
theorem byteAt_deposit {first index : Nat} (base : space.iovaBase < 2 ^ 32)
    (ends : first + values.length ≤ 2 ^ 32) (inside : index < values.length) :
    (space.deposit (List.range' first values.length) values).byteAt (first + index) =
      values[index] := by
  induction values generalizing space first index with
  | nil => exact absurd inside (Nat.not_lt_zero _)
  | cons value values ih =>
    rw [List.length_cons] at ends inside
    have baseOn : (space.put first value).iovaBase < 2 ^ 32 := base
    rw [List.length_cons, List.range'_succ, deposit]
    cases index with
    | zero =>
      rw [Nat.add_zero, byteAt_deposit_apart baseOn (by omega)]
      · exact byteAt_put first value
      · intro later listed
        have bounds := List.mem_range'_1.mp listed
        omega
    | succ index =>
      have next : first + (index + 1) = first + 1 + index := by omega
      rw [next, ih baseOn (by omega) (by omega), List.getElem_cons_succ]

/-- Values that were stored at successive places are there. -/
theorem bytesAt_deposit {first : Nat} (base : space.iovaBase < 2 ^ 32)
    (ends : first + values.length ≤ 2 ^ 32) :
    (space.deposit (List.range' first values.length) values).bytesAt first values.length =
      values := by
  apply List.ext_getElem
  · rw [length_bytesAt]
  · intro index inside within
    simp only [bytesAt, List.getElem_map, List.getElem_range]
    exact byteAt_deposit base ends within

end MemorySpace

/-- A device at one submission queue. -/
structure Device where
  /-- Number of entries. -/
  depth : Nat
  /-- Where the queue begins. -/
  sq : Nat
  /-- The entry that it fetches next. -/
  head : Nat
  /-- Its blocks. -/
  disk : Disk

namespace Device

/-- Where the device stands. -/
def station (device : Device) : Station := ⟨device.depth, device.sq, device.head⟩

/-- The head moves on to the next entry; it has 16 bits. -/
def advance (device : Device) : Device :=
  { device with head := if u16 (device.head + 1) = device.depth then 0 else u16 (device.head + 1) }

/-- The device reads the command at its head. -/
def fetch (device : Device) (space : MemorySpace) : Except Fault (List UInt8) :=
  space.read (device.sq + device.head * 64) 64

/-- The device executes a write command or a read command. -/
def execute (device : Device) (space : MemorySpace) (bytes : List UInt8) :
    Except Fault (Device × MemorySpace) := do
  let count := transferBytes bytes
  let first := slbaOf bytes * blockSize
  let (places, _) ←
    Prps.walk ⟨space, prp1Of bytes, prp2Of bytes, []⟩ (count / ctrlPageSize + 1) count
  if opcodeOf bytes = 1 then
    let use : Use (Nat × Nat) UInt8 := ⟨true, span (nsidOf bytes) first (places.map space.byteAt)⟩
    pure ({ device with disk := use.apply device.disk }, space)
  else if opcodeOf bytes = 2 then
    pure (device, space.deposit places (take device.disk (nsidOf bytes) first count))
  else throw .runtimeError

/-- The device fetches a command and executes it. -/
def serve (device : Device) (space : MemorySpace) :
    Except Fault (List UInt8 × Device × MemorySpace) := do
  let bytes ← device.fetch space
  let (after, left) ← device.execute space bytes
  pure (bytes, after.advance, left)

variable {device : Device} {space : MemorySpace} {nsid buf size id prp2 : Nat} {pos : Int}

/-- A command for whole blocks carries their number and the first of them. -/
theorem transfer_bytes {doWrite : Bool} (positive : 0 ≤ pos) (fits : pos < 2 ^ 63)
    (boundary : pos % 4096 = 0) (atLeast : 4096 ≤ size) (atMost : size ≤ 2 ^ 21)
    (whole : size % 4096 = 0) {bytes : List UInt8}
    (command : bytes = NVMeCommand.bytes { NVMeDriver.rwCommand doWrite nsid pos size with
      commandId := id, prp1 := buf, prp2 := prp2 }) :
    slbaOf bytes * blockSize = pos.toNat ∧ transferBytes bytes = size := by
  let cmd : RwCommand := ⟨rwOpcode doWrite, id, nsid, buf, prp2, (pos / 2 ^ 12 % 2 ^ 64).toNat,
    u16 (u64 (size / 2 ^ 12 + (2 ^ 64 - 1)))⟩
  have same : bytes = cmd.bytes := command.trans NVMeDriver.rwCommand_bytes
  have slba : cmd.slba < 2 ^ 64 := by
    simp only [cmd]
    omega
  have length : cmd.length < 2 ^ 16 := by
    simp only [cmd, u16]
    omega
  constructor
  · rw [same, RwCommand.slbaOf_bytes slba]
    simp only [cmd, blockSize]
    omega
  · rw [same, transferBytes, RwCommand.lengthOf_bytes length]
    simp only [cmd, blockSize, u16, u64]
    omega

/-- **Serving a read** of whole blocks stores them in the buffer that the regions describe. -/
theorem serve_read (positive : 0 ≤ pos) (fits : pos < 2 ^ 63) (boundary : pos % 4096 = 0)
    (atLeast : 4096 ≤ size) (atMost : size ≤ 2 ^ 21) (whole : size % 4096 = 0)
    (narrow : nsid < 2 ^ 32) (first : buf < 2 ^ 64) (second : prp2 < 2 ^ 64) {bytes : List UInt8}
    (command : bytes = NVMeCommand.bytes { NVMeDriver.rwCommand false nsid pos size with
      commandId := id, prp1 := buf, prp2 := prp2 })
    (fetched : device.fetch space = .ok bytes) {pages : List Address}
    (walked : Prps.walk ⟨space, buf, prp2, []⟩ (size / ctrlPageSize + 1) size =
      .ok (List.range' buf size, pages)) :
    device.serve space = .ok (bytes, device.advance,
      space.deposit (List.range' buf size) (take device.disk nsid pos.toNat size)) := by
  obtain ⟨start, count⟩ := transfer_bytes positive fits boundary atLeast atMost whole command
  rw [NVMeDriver.rwCommand_bytes] at command
  have opcode : opcodeOf bytes = 2 := by
    rw [command]
    exact RwCommand.opcodeOf_bytes (show rwOpcode false < 256 by decide)
  have key : nsidOf bytes = nsid := by
    rw [command]
    exact RwCommand.nsidOf_bytes narrow
  have prp1 : prp1Of bytes = buf := by
    rw [command]
    exact RwCommand.prp1Of_bytes first
  have other : prp2Of bytes = prp2 := by
    rw [command]
    exact RwCommand.prp2Of_bytes second
  have executed : device.execute space bytes =
      .ok (device, space.deposit (List.range' buf size) (take device.disk nsid pos.toNat size)) := by
    unfold execute
    dsimp only
    rw [start, count, prp1, other, key, opcode, walked]
    rfl
  exact bind_ok.mpr ⟨bytes, fetched, bind_ok.mpr ⟨_, executed, rfl⟩⟩

end Device

end McmqHost
