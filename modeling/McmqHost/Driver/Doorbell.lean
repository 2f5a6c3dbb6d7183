import McmqHost.Base.Machine
import McmqHost.Driver.Queue

/-!
# Doorbells for batches of commands

A submission without `write_sq` leaves its announcement to a later one, unless the ring would
fill up: the tail is announced at the latest when one more command would make it meet the tail that
was announced last. The device therefore never misses a lap of the ring, and counts commands by
adding up how far the doorbell moves. What is announced is read off the register writes on the link,
or off the word of the shadow doorbell when there is one.
-/

namespace McmqHost

namespace QueuePort

/-- The word of the shadow doorbell of the submission queue. -/
def shadowWord (port : QueuePort) : Option Nat :=
  (port.space.read port.nvmeq.dbbufSqDb 4).toOption.map leValue

/-- What was announced between two states: the values written to the doorbell register, or the word
of the shadow doorbell when it changed. -/
def rung (before after : QueuePort) : List Nat :=
  if before.nvmeq.dbbufSqDb = 0 then
    ((after.writes.drop before.writes.length).filter fun write =>
      write.1 = before.nvmeq.qDb).map (·.2)
  else if after.shadowWord = before.shadowWord then []
  else after.shadowWord.toList

/-- The shadow doorbell, if there is one, is mapped and lies apart from the slots of the ring. -/
def ShadowApart (port : QueuePort) : Prop :=
  port.nvmeq.dbbufSqDb ≠ 0 → ∃ doorbell, port.space.translate port.nvmeq.dbbufSqDb 4 = .ok doorbell ∧
    ∀ slot < port.nvmeq.depth, ∀ offset,
      port.space.translate (u32 (port.nvmeq.sqDmaAddr + slot <<< port.nvmeq.sqeShift)) 64 =
        .ok offset → doorbell + 4 ≤ offset ∨ offset + 64 ≤ doorbell

end QueuePort

/-- The 64 bytes of a command. -/
abbrev SqCommand : Type := {bytes : List UInt8 // bytes.length = 64}

/-- A submission queue whose commands are announced now or later. -/
structure Batching where
  /-- The memory space, the queue and the link. -/
  port : QueuePort
  /-- Number of commands submitted. -/
  submitted : Nat
  /-- Every value announced, in order, with the number of commands submitted then. -/
  rings : List (Nat × Nat)

namespace Batching

/-- A queue after `init_queue`. -/
def create (port : QueuePort) : Batching := ⟨port, 0, []⟩

/-- One call of `submit_sq_command` with its command and `write_sq`. -/
def step (flow : Batching) (call : SqCommand × Bool) : Option Batching :=
  (flow.port.submitSqCommand call.1.val call.2).toOption.map fun port => {
    port := port
    submitted := flow.submitted + 1
    rings := flow.rings ++ (flow.port.rung port).map (·, flow.submitted + 1) }

/-- Number of commands submitted when the doorbell was written last. -/
def announced (flow : Batching) : Nat := (flow.rings.getLast?.map (·.2)).getD 0

/-- The value in the doorbell. -/
def doorbell (flow : Batching) : Nat := (flow.rings.getLast?.map (·.1)).getD 0

/-- The machine of a queue that commands are submitted to. -/
def machine : Machine Batching (SqCommand × Bool) := ⟨step⟩

/-- The queue stands where the counts say. -/
structure Kept (start : QueuePort) (flow : Batching) : Prop where
  /-- The ring has its depth. -/
  size : flow.port.nvmeq.depth = start.nvmeq.depth
  /-- The shadow doorbell stays. -/
  shadow : flow.port.nvmeq.dbbufSqDb = start.nvmeq.dbbufSqDb
  /-- The doorbell register stays. -/
  register : flow.port.nvmeq.qDb = start.nvmeq.qDb
  /-- The shadow doorbell is apart from the ring. -/
  apart : flow.port.ShadowApart
  /-- The tail counts the commands submitted. -/
  tail : flow.port.nvmeq.sqTail = flow.submitted % start.nvmeq.depth
  /-- The last tail counts the commands announced. -/
  last : flow.port.nvmeq.lastSqTail = flow.announced % start.nvmeq.depth
  /-- No command is announced before it is submitted. -/
  behind : flow.announced ≤ flow.submitted
  /-- Two slots are left for what is not announced. -/
  backlog : flow.submitted + 2 ≤ flow.announced + start.nvmeq.depth
  /-- The doorbell holds the last tail. -/
  doorbell : flow.doorbell = flow.announced % start.nvmeq.depth
  /-- The doorbell has moved by as many slots as commands were announced. -/
  travelled : Ring.travelled start.nvmeq.depth 0 (flow.rings.map (·.1)) = flow.announced
  /-- At each write it had moved by as many slots as commands were submitted. -/
  counted : ∀ past ring future, flow.rings = past ++ ring :: future →
    Ring.travelled start.nvmeq.depth 0 ((past ++ [ring]).map (·.1)) = ring.2
  /-- Without a shadow doorbell the announcements are the register writes. -/
  registers : start.nvmeq.dbbufSqDb = 0 →
    flow.port.writes = start.writes ++ flow.rings.map fun ring => (start.nvmeq.qDb, ring.1)
  /-- With one its word is the latest announcement. -/
  word : start.nvmeq.dbbufSqDb ≠ 0 →
    flow.port.space.read start.nvmeq.dbbufSqDb 4 = .ok (leBytes 4 flow.doorbell)

end Batching

namespace QueuePort

variable {port after : QueuePort}

/-- Where the doorbell is does not depend on the positions in the ring. -/
theorem ShadowApart.frame (apart : port.ShadowApart) (same : after.space.SameFrame port.space)
    {sqTail lastSqTail : Nat}
    (nvmeq : after.nvmeq = { port.nvmeq with sqTail := sqTail, lastSqTail := lastSqTail }) :
    after.ShadowApart := by
  have doorbell : after.nvmeq.dbbufSqDb = port.nvmeq.dbbufSqDb := by rw [nvmeq]
  have depth : after.nvmeq.depth = port.nvmeq.depth := by rw [nvmeq]
  have ring : after.nvmeq.sqDmaAddr = port.nvmeq.sqDmaAddr := by rw [nvmeq]
  have shift : after.nvmeq.sqeShift = port.nvmeq.sqeShift := by rw [nvmeq]
  unfold ShadowApart
  rw [doorbell, depth, ring, shift]
  intro present
  obtain ⟨place, mapped, others⟩ := apart present
  refine ⟨place, by rw [same.translate, mapped], ?_⟩
  intro slot below offset there
  rw [same.translate] at there
  exact others slot below offset there

/-- A submission that is not announced. -/
structure Silent (port after : QueuePort) : Prop where
  /-- The tail has moved. -/
  nvmeq : after.nvmeq = { port.nvmeq with sqTail := port.nvmeq.nextTail }
  /-- With one more command it would not meet the last one. -/
  spare : after.nvmeq.nextTail ≠ port.nvmeq.lastSqTail
  /-- No register is written. -/
  writes : after.writes = port.writes
  /-- The shadow doorbell reads as before. -/
  word : port.nvmeq.dbbufSqDb ≠ 0 →
    after.space.read port.nvmeq.dbbufSqDb 4 = port.space.read port.nvmeq.dbbufSqDb 4

/-- A submission that is announced. -/
structure Loud (port after : QueuePort) : Prop where
  /-- The tail has moved and is the last one. -/
  nvmeq : after.nvmeq =
    { port.nvmeq with sqTail := port.nvmeq.nextTail, lastSqTail := port.nvmeq.nextTail }
  /-- It is written to the register. -/
  registers : port.nvmeq.dbbufSqDb = 0 →
    after.writes = port.writes ++ [(port.nvmeq.qDb, port.nvmeq.nextTail)]
  /-- Or it is the word of the shadow doorbell. -/
  word : port.nvmeq.dbbufSqDb ≠ 0 →
    after.space.read port.nvmeq.dbbufSqDb 4 = .ok (leBytes 4 port.nvmeq.nextTail)

/-- A submission moves the tail, and either announces it or leaves the ring short of full. -/
theorem submitSqCommand_cases {cmd : SqCommand} {writeSq : Bool} (apart : port.ShadowApart)
    (tail : port.nvmeq.sqTail < port.nvmeq.depth)
    (ok : port.submitSqCommand cmd.val writeSq = .ok after) : Silent port after ∨ Loud port after := by
  obtain ⟨space, wrote, ok⟩ := bind_ok.mp ok
  have frame := MemorySpace.frame_write wrote
  obtain ⟨slot, there, -⟩ := bind_ok.mp wrote
  rw [writeSqDoorbell] at ok
  dsimp only at ok
  split at ok
  · rename_i quiet
    cases ok
    simp only [Bool.and_eq_true, bne_iff_ne] at quiet
    refine .inl ⟨rfl, quiet.2, rfl, fun present => ?_⟩
    obtain ⟨doorbell, mapped, others⟩ := apart present
    have away := others _ tail slot (cmd.property ▸ there)
    have mappedAfter : space.translate port.nvmeq.dbbufSqDb 4 = .ok doorbell := by
      rw [frame.translate, mapped]
    show space.read port.nvmeq.dbbufSqDb 4 = _
    rw [MemorySpace.read_eq mapped, MemorySpace.read_eq mappedAfter]
    congr 1
    exact MemorySpace.peek_apart there wrote (by rw [cmd.property]; exact away)
  · obtain ⟨rung, announcing, ok⟩ := bind_ok.mp ok
    obtain ⟨same, written⟩ := announce_ok announcing
    cases ok
    refine .inr ⟨by simp only [same], written, fun present => ?_⟩
    obtain ⟨doorbell, mapped, -⟩ := apart present
    have mappedBetween : space.translate port.nvmeq.dbbufSqDb 4 = .ok doorbell := by
      rw [frame.translate, mapped]
    have mappedAfter : rung.space.translate port.nvmeq.dbbufSqDb 4 = .ok doorbell := by
      rw [(frame_announce announcing).translate]
      exact mappedBetween
    show rung.space.read port.nvmeq.dbbufSqDb 4 = _
    rw [MemorySpace.read_eq mappedAfter, (announce_shadow present mappedBetween announcing).2]

/-- Nothing is announced by a silent submission. -/
theorem rung_silent (silent : Silent port after) : port.rung after = [] := by
  unfold rung
  by_cases registers : port.nvmeq.dbbufSqDb = 0
  · rw [if_pos registers, silent.writes, List.drop_length]
    rfl
  · have same : after.nvmeq.dbbufSqDb = port.nvmeq.dbbufSqDb := by rw [silent.nvmeq]
    rw [if_neg registers, if_pos]
    rw [shadowWord, shadowWord, same, silent.word registers]

/-- The new tail is announced by a loud one, unless it was in the doorbell before. -/
theorem rung_loud (loud : Loud port after) (fits : port.nvmeq.nextTail < 2 ^ 32)
    (moves : port.nvmeq.dbbufSqDb ≠ 0 → port.shadowWord ≠ some port.nvmeq.nextTail) :
    port.rung after = [port.nvmeq.nextTail] := by
  unfold rung
  by_cases registers : port.nvmeq.dbbufSqDb = 0
  · rw [if_pos registers, loud.registers registers, List.drop_left]
    simp
  · have same : after.nvmeq.dbbufSqDb = port.nvmeq.dbbufSqDb := by rw [loud.nvmeq]
    have word : after.shadowWord = some port.nvmeq.nextTail := by
      rw [shadowWord, same, loud.word registers, Except.toOption, Option.map_some,
        leValue_leBytes_of_lt fits]
    rw [if_neg registers, word, if_neg fun still => moves registers still.symm, Option.toList_some]

/-- An initialised queue keeps its depth and starts at the first slot. -/
theorem initQueue_ok {qid dbStride dbbufDbs : Nat}
    (init : port.initQueue qid dbStride dbbufDbs = .ok after) :
    after.nvmeq.depth = port.nvmeq.depth ∧ after.nvmeq.sqTail = 0 ∧ after.nvmeq.lastSqTail = 0 := by
  obtain ⟨space, -, same⟩ := bind_ok.mp init
  obtain rfl := Except.ok.inj same
  exact ⟨rfl, rfl, rfl⟩

end QueuePort

namespace Batching

variable {start : QueuePort} {flow after : Batching}

@[simp] theorem announced_create (port : QueuePort) : (create port).announced = 0 := rfl

@[simp] theorem doorbell_create (port : QueuePort) : (create port).doorbell = 0 := rfl

/-- An initialised queue has nothing to announce. -/
theorem Kept.create (two : 2 ≤ start.nvmeq.depth) (tail : start.nvmeq.sqTail = 0)
    (last : start.nvmeq.lastSqTail = 0) (apart : start.ShadowApart)
    (clear : start.nvmeq.dbbufSqDb ≠ 0 →
      start.space.read start.nvmeq.dbbufSqDb 4 = .ok (leBytes 4 0)) : Kept start (create start) where
  size := rfl
  shadow := rfl
  register := rfl
  apart := apart
  tail := tail.trans (Nat.zero_mod _).symm
  last := by
    rw [announced_create, Nat.zero_mod]
    exact last
  behind := Nat.le_refl 0
  backlog := by
    rw [announced_create, Nat.zero_add]
    exact two
  doorbell := by
    rw [announced_create, doorbell_create, Nat.zero_mod]
  travelled := rfl
  counted := fun past ring future split => by simp [Batching.create] at split
  registers := fun _ => (List.append_nil _).symm
  word := clear

/-- The ring after a submission that is announced. -/
theorem announced_ring (port : QueuePort) (submitted value : Nat) (rings : List (Nat × Nat)) :
    announced ⟨port, submitted, rings ++ [(value, submitted)]⟩ = submitted := by
  simp [announced]

theorem doorbell_ring (port : QueuePort) (submitted value : Nat) (rings : List (Nat × Nat)) :
    doorbell ⟨port, submitted, rings ++ [(value, submitted)]⟩ = value := by
  simp [doorbell]

theorem toOption_eq_some {Error Value : Type} {result : Except Error Value} {value : Value} :
    result.toOption = some value ↔ result = .ok value := by
  cases result <;> simp [Except.toOption]

/-- A call that returns is counted, and what it announces is noted. -/
theorem step_ok {call : SqCommand × Bool} (stepped : flow.step call = some after) :
    ∃ port, flow.port.submitSqCommand call.1.val call.2 = .ok port ∧
      after = ⟨port, flow.submitted + 1,
        flow.rings ++ (flow.port.rung port).map (·, flow.submitted + 1)⟩ := by
  obtain ⟨port, returned, same⟩ := Option.map_eq_some_iff.mp stepped
  exact ⟨port, toOption_eq_some.mp returned, same.symm⟩

/-- A submission that is not announced keeps the counts. -/
theorem Kept.silent (kept : Kept start flow) (two : 2 ≤ start.nvmeq.depth)
    (narrow : start.nvmeq.depth ≤ 2 ^ 16) {port : QueuePort}
    (frame : port.space.SameFrame flow.port.space) (silent : flow.port.Silent port) :
    Kept start ⟨port, flow.submitted + 1, flow.rings⟩ := by
  have size := kept.size
  have behind := kept.behind
  have backlog := kept.backlog
  have moved := silent.nvmeq
  have next : flow.port.nvmeq.nextTail = (flow.submitted + 1) % start.nvmeq.depth := by
    rw [← size]
    exact NVMeQueue.nextTail_eq (by omega) (by omega) (by rw [size]; exact kept.tail)
  have movedSize : port.nvmeq.depth = start.nvmeq.depth := by
    rw [moved]
    exact size
  have movedTail : port.nvmeq.sqTail = (flow.submitted + 1) % start.nvmeq.depth := by
    rw [moved]
    exact next
  -- with one more slot in use the tail would meet the last one
  have spare : flow.submitted + 2 ≠ flow.announced + start.nvmeq.depth := by
    intro full
    apply silent.spare
    have twice : port.nvmeq.nextTail = (flow.submitted + 1 + 1) % port.nvmeq.depth :=
      NVMeQueue.nextTail_eq (by omega) (by omega) (by rw [movedSize]; exact movedTail)
    have lap : flow.submitted + 1 + 1 = flow.announced + start.nvmeq.depth := full
    rw [twice, kept.last, movedSize, lap, Nat.add_mod_right]
  exact {
    size := movedSize
    shadow := by rw [moved]; exact kept.shadow
    register := by rw [moved]; exact kept.register
    apart := kept.apart.frame frame moved
    tail := movedTail
    last := by rw [moved]; exact kept.last
    behind := Nat.le_succ_of_le behind
    backlog := by
      show flow.submitted + 1 + 2 ≤ flow.announced + start.nvmeq.depth
      omega
    doorbell := kept.doorbell
    travelled := kept.travelled
    counted := kept.counted
    registers := by
      intro registers
      show port.writes = _
      rw [silent.writes, kept.registers registers]
    word := by
      intro present
      have word := kept.word present
      rw [← kept.shadow] at word present ⊢
      exact (silent.word present).trans word }

/-- So does one that is announced. -/
theorem Kept.loud (kept : Kept start flow) (two : 2 ≤ start.nvmeq.depth)
    (narrow : start.nvmeq.depth ≤ 2 ^ 16) {port : QueuePort}
    (frame : port.space.SameFrame flow.port.space) (loud : flow.port.Loud port) :
    Kept start ⟨port, flow.submitted + 1,
      flow.rings ++ [(flow.port.nvmeq.nextTail, flow.submitted + 1)]⟩ := by
  have size := kept.size
  have behind := kept.behind
  have backlog := kept.backlog
  have moved := loud.nvmeq
  have next : flow.port.nvmeq.nextTail = (flow.submitted + 1) % start.nvmeq.depth := by
    rw [← size]
    exact NVMeQueue.nextTail_eq (by omega) (by omega) (by rw [size]; exact kept.tail)
  have ahead : flow.submitted + 1 = flow.announced + (flow.submitted + 1 - flow.announced) := by
    omega
  have moves : Ring.distance start.nvmeq.depth (flow.announced % start.nvmeq.depth)
      ((flow.submitted + 1) % start.nvmeq.depth) = flow.submitted + 1 - flow.announced := by
    conv_lhs => rw [ahead]
    exact Ring.distance_slots (by omega)
  have rung := announced_ring port (flow.submitted + 1) flow.port.nvmeq.nextTail flow.rings
  have value := doorbell_ring port (flow.submitted + 1) flow.port.nvmeq.nextTail flow.rings
  have total : Ring.travelled start.nvmeq.depth 0
      ((flow.rings ++ [(flow.port.nvmeq.nextTail, flow.submitted + 1)]).map (·.1)) =
        flow.submitted + 1 := by
    have last : (flow.rings.map (·.1)).getLast?.getD 0 = flow.announced % start.nvmeq.depth := by
      rw [List.getLast?_map]
      exact kept.doorbell
    rw [List.map_append, List.map_singleton, Ring.travelled_concat, kept.travelled, last, next, moves]
    omega
  exact {
    size := by rw [moved]; exact size
    shadow := by rw [moved]; exact kept.shadow
    register := by rw [moved]; exact kept.register
    apart := kept.apart.frame frame moved
    tail := by rw [moved]; exact next
    last := by
      rw [moved, rung]
      exact next
    behind := Nat.le_of_eq rung
    backlog := by
      rw [rung]
      show flow.submitted + 1 + 2 ≤ flow.submitted + 1 + start.nvmeq.depth
      omega
    doorbell := by
      rw [value, rung]
      exact next
    travelled := total.trans rung.symm
    counted := by
      intro past ring future split
      obtain rfl | ⟨front, final, rfl⟩ := List.eq_nil_or_concat future
      · obtain ⟨rfl, same⟩ := List.append_inj' split rfl
        obtain rfl := List.singleton_inj.mp same
        exact total
      · rw [List.concat_eq_append, ← List.cons_append, ← List.append_assoc] at split
        obtain ⟨earlier, -⟩ := List.append_inj' split rfl
        exact kept.counted past ring front earlier
    registers := by
      intro registers
      have wrote := loud.registers (kept.shadow.trans registers)
      show port.writes = _
      rw [wrote, kept.registers registers, List.map_append, List.append_assoc, kept.register]
      rfl
    word := by
      intro present
      rw [value, ← kept.shadow]
      exact loud.word (by rw [kept.shadow]; exact present) }

/-- Each submission keeps the counts, announced or not. -/
theorem Kept.step (kept : Kept start flow) (two : 2 ≤ start.nvmeq.depth)
    (narrow : start.nvmeq.depth ≤ 2 ^ 16) {call : SqCommand × Bool}
    (stepped : flow.step call = some after) : Kept start after := by
  obtain ⟨port, ran, rfl⟩ := step_ok stepped
  have size := kept.size
  have behind := kept.behind
  have backlog := kept.backlog
  have tail : flow.port.nvmeq.sqTail < flow.port.nvmeq.depth := by
    rw [size, kept.tail]
    exact Nat.mod_lt _ (by omega)
  have frame := QueuePort.frame_submitSqCommand ran
  rcases QueuePort.submitSqCommand_cases kept.apart tail ran with silent | loud
  · rw [QueuePort.rung_silent silent, List.map_nil, List.append_nil]
    exact kept.silent two narrow frame silent
  · have next : flow.port.nvmeq.nextTail = (flow.submitted + 1) % start.nvmeq.depth := by
      rw [← size]
      exact NVMeQueue.nextTail_eq (by omega) (by omega) (by rw [size]; exact kept.tail)
    have below := Nat.mod_lt (flow.submitted + 1) (show 0 < start.nvmeq.depth by omega)
    have moves : flow.port.nvmeq.dbbufSqDb ≠ 0 →
        flow.port.shadowWord ≠ some flow.port.nvmeq.nextTail := by
      intro present
      have small := Nat.mod_lt flow.announced (show 0 < start.nvmeq.depth by omega)
      have fits : flow.announced % start.nvmeq.depth < 2 ^ (8 * 4) := by omega
      have word : flow.port.shadowWord = some (flow.announced % start.nvmeq.depth) := by
        rw [QueuePort.shadowWord, kept.shadow, kept.word (kept.shadow ▸ present), kept.doorbell,
          Except.toOption, Option.map_some, leValue_leBytes_of_lt fits]
      have ahead : flow.submitted + 1 = flow.announced + (flow.submitted + 1 - flow.announced) := by
        omega
      rw [word, next, ahead]
      exact fun same => Ring.slot_ne (by omega) (by omega) (Option.some.inj same)
    rw [QueuePort.rung_loud loud (by omega) moves]
    exact kept.loud two narrow frame loud

/-- For every depth that a 16-bit tail can address and every order of calls, after each call either the
doorbell has just been written with the tail or fewer than `depth - 1` commands wait to be
announced, and at every write a device that adds up the movements of the doorbell modulo the depth
has counted every command. The doorbell is the register, whose writes are the announcements and no
others, or the shadow word, which holds the latest of them. -/
theorem batched {port start : QueuePort} {qid dbStride dbbufDbs : Nat}
    (two : 2 ≤ port.nvmeq.depth) (narrow : port.nvmeq.depth ≤ 2 ^ 16)
    (init : port.initQueue qid dbStride dbbufDbs = .ok start) (apart : start.ShadowApart)
    (clear : start.nvmeq.dbbufSqDb ≠ 0 →
      start.space.read start.nvmeq.dbbufSqDb 4 = .ok (leBytes 4 0)) {flow : Batching}
    (reached : machine.Reaches (create start) flow) :
    (flow.rings.getLast? = some (flow.port.nvmeq.sqTail, flow.submitted) ∨
      flow.submitted - flow.announced < port.nvmeq.depth - 1) ∧
    (∀ past ring future, flow.rings = past ++ ring :: future →
      Ring.travelled port.nvmeq.depth 0 ((past ++ [ring]).map (·.1)) = ring.2) ∧
    (start.nvmeq.dbbufSqDb = 0 →
      flow.port.writes = start.writes ++ flow.rings.map fun ring => (start.nvmeq.qDb, ring.1)) ∧
    (start.nvmeq.dbbufSqDb ≠ 0 →
      flow.port.space.read start.nvmeq.dbbufSqDb 4 = .ok (leBytes 4 flow.doorbell)) := by
  obtain ⟨depth, tail, last⟩ := QueuePort.initQueue_ok init
  rw [← depth] at two narrow ⊢
  have kept : Kept start flow := by
    apply reached.invariant _ _ (Kept.create two tail last apart clear)
    intro before call after kept stepped
    exact kept.step two narrow stepped
  refine ⟨.inr ?_, kept.counted, kept.registers, kept.word⟩
  have backlog := kept.backlog
  omega

/-- Queue 1 with four slots in a mapping of 64 KiB. -/
def fourSlots : QueuePort where
  space := ⟨HoleTable.init, fun _ => 0, 0x10000, 0⟩
  nvmeq := NVMeQueue.blank.place 1 4 1 0x1000 0x2000
  writes := []

/-- A command of zeros. -/
def zeros : SqCommand := ⟨List.replicate 64 0, rfl⟩

/-- Four commands that need not be announced at once, one that must be, and another. -/
def sixCommands : List (SqCommand × Bool) :=
  [(zeros, false), (zeros, false), (zeros, false), (zeros, false), (zeros, true), (zeros, false)]

/-- Once initialised with a shadow doorbell at 0x3008 it has the doorbell apart from its slots. -/
theorem shadowApart_fourSlots {start : QueuePort}
    (init : fourSlots.initQueue 1 1 0x3000 = .ok start) : start.ShadowApart := by
  obtain ⟨space, cleared, same⟩ := bind_ok.mp init
  obtain rfl := Except.ok.inj same
  have frame : space.SameFrame fourSlots.space := MemorySpace.frame_write cleared
  have mapped : ∀ {addr len : Nat}, addr + len ≤ 0x10000 → 0 < len →
      space.translate addr len = .ok addr := by
    intro addr len within nonempty
    rw [frame.translate]
    exact MemorySpace.translate_zero rfl (by decide) within nonempty
  have doorbell : space.translate 0x3008 4 = .ok 0x3008 := mapped (by decide) (by decide)
  refine fun _ => ⟨0x3008, doorbell, ?_⟩
  intro slot below offset there
  have few : slot < 4 := below
  have place : u32 (0x1000 + slot <<< 6) = 0x1000 + slot * 64 := by
    rw [Nat.shiftLeft_eq]
    exact u32_of_lt (by omega)
  have here : space.translate (u32 (0x1000 + slot <<< 6)) 64 = .ok (0x1000 + slot * 64) := by
    rw [place]
    exact mapped (by omega) (by decide)
  obtain rfl := Except.ok.inj (there.symm.trans here)
  omega

/-- With its shadow doorbell at 0x3008 the doorbell is written after the third command and after the
fifth. -/
theorem batched_four : ∃ start flow, fourSlots.initQueue 1 1 0x3000 = .ok start ∧
    machine.run (create start) sixCommands = some flow ∧ flow.rings = [(3, 3), (1, 5)] ∧
    (flow.rings.getLast? = some (flow.port.nvmeq.sqTail, flow.submitted) ∨
      flow.submitted - flow.announced < 4 - 1) ∧
    (∀ past ring future, flow.rings = past ++ ring :: future →
      Ring.travelled 4 0 ((past ++ [ring]).map (·.1)) = ring.2) ∧
    flow.port.space.read 0x3008 4 = .ok (leBytes 4 1) := by
  have ran : ((fourSlots.initQueue 1 1 0x3000).toOption.bind fun start =>
      (machine.run (create start) sixCommands).map fun flow =>
        (start.nvmeq.dbbufSqDb, (start.space.read 0x3008 4).toOption, flow.rings)) =
      some (0x3008, some (leBytes 4 0), [(3, 3), (1, 5)]) := by
    decide +kernel
  obtain ⟨start, init, ran⟩ := Option.bind_eq_some_iff.mp ran
  obtain ⟨flow, ran, seen⟩ := Option.map_eq_some_iff.mp ran
  have init := toOption_eq_some.mp init
  obtain ⟨shadow, seen⟩ := Prod.mk.inj seen
  obtain ⟨clear, rings⟩ := Prod.mk.inj seen
  have clear := toOption_eq_some.mp clear
  obtain ⟨waits, counted, -, word⟩ := batched (by decide) (by decide) init
    (shadowApart_fourSlots init) (fun _ => shadow ▸ clear) ⟨_, ran⟩
  have latest := word (by rw [shadow]; decide)
  rw [shadow, doorbell, rings] at latest
  exact ⟨start, flow, init, ran, rings, waits, counted, latest⟩

end Batching

end McmqHost
