import McmqHost.Driver.Footprint
import McmqHost.Driver.Transfer

/-!
# Reading and writing

The four calls that move data share one function, which builds a command from a position and a size
and submits it on the queue of the calling thread. The asynchronous calls return then; the
synchronous ones wait for the completion, and both of them ask for a read.
-/

namespace McmqHost

open HoleTable

namespace NVMeDriver

/-- The command of `NVMeDriver::submit_rw_command`. -/
def rwCommand (doWrite : Bool) (nsid : Nat) (pos : Int) (size : Nat) : NVMeCommand :=
  let slba := (pos / 2 ^ 12 % 2 ^ 64).toNat
  { NVMeCommand.blank (rwOpcode doWrite) with
    nsid := nsid
    cdw10 := u32 slba
    cdw11 := slba / 2 ^ 32
    cdw12 := u16 (u64 (size / 2 ^ 12 + (2 ^ 64 - 1))) }

/-- `NVMeDriver::submit_rw_command` of a thread with the queue at an index. -/
def submitRwCommand (index : Nat) (doWrite : Bool) (nsid : Nat) (pos : Int) (buf size : Nat)
    (callback : Bool) : Drive AsyncCommand :=
  submitAsyncCommand index (rwCommand doWrite nsid pos size) buf size callback

/-- `NVMeDriver::read_async`. -/
def readAsync (index nsid : Nat) (pos : Int) (buf size : Nat) : Drive Unit := do
  let _ ← submitRwCommand index false nsid pos buf size true

/-- `NVMeDriver::write_async`. -/
def writeAsync (index nsid : Nat) (pos : Int) (buf size : Nat) : Drive Unit := do
  let _ ← submitRwCommand index true nsid pos buf size true

/-- The submission of `NVMeDriver::read`. -/
def submitRead (index nsid : Nat) (pos : Int) (buf size : Nat) : Drive AsyncCommand :=
  submitRwCommand index false nsid pos buf size false

/-- The submission of `NVMeDriver::write`, which also asks for a read. -/
def submitWrite (index nsid : Nat) (pos : Int) (buf size : Nat) : Drive AsyncCommand :=
  submitRwCommand index false nsid pos buf size false

/-- The end of a synchronous call: the wait, and the exception when the status is an error. -/
def finishSync (index : Nat) (cmd : AsyncCommand) : Drive Unit := do
  let reply ← wait index cmd
  if reply.status &&& 0x7ff = 0 then pure () else Effect.fail (.fault .runtimeError)

/-- `NVMeDriver::read`. -/
def readSync (index nsid : Nat) (pos : Int) (buf size : Nat) : Drive Unit := do
  let cmd ← submitRead index nsid pos buf size
  finishSync index cmd

/-- `NVMeDriver::write`. -/
def writeSync (index nsid : Nat) (pos : Int) (buf size : Nat) : Drive Unit := do
  let cmd ← submitWrite index nsid pos buf size
  finishSync index cmd

/-! ## The bytes of a command -/

/-- The whole driver's command and the queue's have the same bytes. -/
theorem rwCommand_bytes {doWrite : Bool} {nsid : Nat} {pos : Int} {size id prp1 prp2 : Nat} :
    NVMeCommand.bytes { rwCommand doWrite nsid pos size with
      commandId := id, prp1 := prp1, prp2 := prp2 } =
    RwCommand.bytes ⟨rwOpcode doWrite, id, nsid, prp1, prp2, (pos / 2 ^ 12 % 2 ^ 64).toNat,
      u16 (u64 (size / 2 ^ 12 + (2 ^ 64 - 1)))⟩ := by
  have slba : ∀ value, leBytes 4 (u32 value) ++ leBytes 4 (value / 2 ^ 32) = leBytes 8 value := by
    intro value
    rw [leBytes_add 4 4 value, u32, show 2 ^ 32 = 256 ^ 4 from rfl, leBytes_mod]
  have length : ∀ value, leBytes 4 (u16 value) = leBytes 2 (u16 value) ++ leBytes 2 0 := by
    intro value
    have small : u16 value / 256 ^ 2 = 0 := Nat.div_eq_of_lt (Nat.mod_lt _ (by decide))
    rw [leBytes_add 2 2, small]
  have rest : leBytes 14 0 = leBytes 2 0 ++ leBytes 12 0 := leBytes_add 12 2 0
  simp only [NVMeCommand.bytes, RwCommand.bytes, rwCommand, NVMeCommand.blank, length, rest,
    ← slba, List.append_assoc]

end NVMeDriver

/-- `opcode` as the device reads it. -/
def opcodeOf (bytes : List UInt8) : Nat := fieldAt bytes 0 1

/-- `nsid` as the device reads it. -/
def nsidOf (bytes : List UInt8) : Nat := fieldAt bytes 4 4

/-- `prp1` as the device reads it. -/
def prp1Of (bytes : List UInt8) : Nat := fieldAt bytes 24 8

/-- `prp2` as the device reads it. -/
def prp2Of (bytes : List UInt8) : Nat := fieldAt bytes 32 8

namespace RwCommand

variable {cmd : RwCommand}

theorem opcodeOf_bytes (fits : cmd.opcode < 256) : opcodeOf cmd.bytes = cmd.opcode := by
  have written := fieldAt_written [] (leBytes 1 0 ++ leBytes 2 cmd.commandId ++
    leBytes 4 cmd.nsid ++ leBytes 16 0 ++ leBytes 8 cmd.prp1 ++ leBytes 8 cmd.prp2 ++
    leBytes 8 cmd.slba ++ leBytes 2 cmd.length ++ leBytes 14 0) 0 1 cmd.opcode rfl
  rw [Nat.mod_eq_of_lt (Nat.lt_of_lt_of_eq fits (by decide))] at written
  rw [← written, opcodeOf, bytes]
  simp only [List.append_assoc, List.nil_append]

theorem nsidOf_bytes (fits : cmd.nsid < 2 ^ 32) : nsidOf cmd.bytes = cmd.nsid := by
  have written := fieldAt_written
    (leBytes 1 cmd.opcode ++ leBytes 1 0 ++ leBytes 2 cmd.commandId)
    (leBytes 16 0 ++ leBytes 8 cmd.prp1 ++ leBytes 8 cmd.prp2 ++ leBytes 8 cmd.slba ++
      leBytes 2 cmd.length ++ leBytes 14 0) 4 4 cmd.nsid (by simp)
  rw [Nat.mod_eq_of_lt (Nat.lt_of_lt_of_eq fits (by decide))] at written
  rw [← written, nsidOf, bytes]
  simp only [List.append_assoc]

theorem prp1Of_bytes (fits : cmd.prp1 < 2 ^ 64) : prp1Of cmd.bytes = cmd.prp1 := by
  have written := fieldAt_written
    (leBytes 1 cmd.opcode ++ leBytes 1 0 ++ leBytes 2 cmd.commandId ++ leBytes 4 cmd.nsid ++
      leBytes 16 0)
    (leBytes 8 cmd.prp2 ++ leBytes 8 cmd.slba ++ leBytes 2 cmd.length ++ leBytes 14 0)
    24 8 cmd.prp1 (by simp)
  rw [Nat.mod_eq_of_lt (Nat.lt_of_lt_of_eq fits (by decide))] at written
  rw [← written, prp1Of, bytes]
  simp only [List.append_assoc]

theorem prp2Of_bytes (fits : cmd.prp2 < 2 ^ 64) : prp2Of cmd.bytes = cmd.prp2 := by
  have written := fieldAt_written
    (leBytes 1 cmd.opcode ++ leBytes 1 0 ++ leBytes 2 cmd.commandId ++ leBytes 4 cmd.nsid ++
      leBytes 16 0 ++ leBytes 8 cmd.prp1)
    (leBytes 8 cmd.slba ++ leBytes 2 cmd.length ++ leBytes 14 0) 32 8 cmd.prp2 (by simp)
  rw [Nat.mod_eq_of_lt (Nat.lt_of_lt_of_eq fits (by decide))] at written
  rw [← written, prp2Of, bytes]
  simp only [List.append_assoc]

end RwCommand

end McmqHost
