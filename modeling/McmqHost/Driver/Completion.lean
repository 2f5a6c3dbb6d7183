import McmqHost.Base.Machine
import McmqHost.Driver.Queue

/-!
# The completion queue

The device posts entries into consecutive slots and inverts their phase bit at each wrap; it
keeps one slot empty before the head that the driver announced last. `nvme_irq` has no count
of the entries: it knows a new entry by its phase bit alone. Its steps and the posts of the
device interleave in any way.
-/

namespace McmqHost

/-- The phase bit of an entry, the lowest bit of its status field. -/
def phaseBit (entry : List UInt8) : Nat := leValue (entry.drop 14) % 2

/-- Where `nvme_irq` stands. -/
inductive IrqPlace
  /-- It is not running. -/
  | idle
  /-- It is about to call `cqe_pending`. -/
  | check
  /-- It is about to call `handle_cqe`. -/
  | handle
  /-- It is about to call `update_cq_head`. -/
  | advance
  /-- It has left the loop. -/
  | finish
deriving DecidableEq, Repr

/-- A completion queue between the device and `nvme_irq`. -/
structure CompletionQueue where
  /-- The memory space, the queue and the link. -/
  port : QueuePort
  /-- `db_stride`. -/
  dbStride : Nat
  /-- Where `nvme_irq` stands. -/
  place : IrqPlace
  /-- `found`. -/
  found : Nat
  /-- The device's slot for its next entry. -/
  cqTail : Nat
  /-- The device's phase bit. -/
  phase : Nat
  /-- Every entry posted so far, in order. -/
  posted : List (List UInt8)
  /-- Every entry that `handle_cqe` has read so far, in order. -/
  handled : List (List UInt8)
  /-- For each call of `ring_cq_doorbell`, the number of entries handled before it and the head that
  it announced. -/
  rings : List (Nat × Nat)

/-- A step of the device or of `nvme_irq`. -/
inductive CqInput
  /-- The device posts an entry. -/
  | post (entry : List UInt8)
  /-- An interrupt starts `nvme_irq`, or it goes on. -/
  | irq

namespace CompletionQueue

/-- A completion queue after `init_queue`; register writes count from there on. -/
def create (port : QueuePort) (dbStride : Nat) : CompletionQueue where
  port := { port with writes := [] }
  dbStride := dbStride
  place := .idle
  found := 0
  cqTail := 0
  phase := 1
  posted := []
  handled := []
  rings := []

/-- The head that the driver announced last. -/
def headDoorbell (flow : CompletionQueue) : Nat := (flow.rings.getLast?.map (·.2)).getD 0

/-- The device writes an entry into its next slot, unless the queue is full. -/
def post (flow : CompletionQueue) (entry : List UInt8) : Option CompletionQueue :=
  if entry.length = cqeSize ∧ phaseBit entry = flow.phase ∧
      Ring.next flow.port.nvmeq.depth flow.cqTail ≠ flow.headDoorbell then
    match flow.port.space.write
        (u32 (flow.port.nvmeq.cqDmaAddr + flow.cqTail * cqeSize)) entry with
    | .error _ => none
    | .ok space => some { flow with
        port := { flow.port with space := space }
        cqTail := Ring.next flow.port.nvmeq.depth flow.cqTail
        phase := if flow.cqTail + 1 = flow.port.nvmeq.depth then flow.phase ^^^ 1 else flow.phase
        posted := flow.posted ++ [entry] }
  else none

/-- The next step of `nvme_irq`. -/
def irq (flow : CompletionQueue) : Except Fault CompletionQueue :=
  match flow.place with
  | .idle => pure { flow with place := .check, found := 0 }
  | .check => do
    let pending ← flow.port.cqePending
    pure { flow with
      place := if pending then .handle else .finish
      found := if pending then flow.found + 1 else flow.found }
  | .handle => do
    let entry ← flow.port.readCqe flow.port.nvmeq.cqHead
    pure { flow with place := .advance, handled := flow.handled ++ [entry] }
  | .advance => pure { flow with
      place := .check
      port := { flow.port with nvmeq := flow.port.nvmeq.updateCqHead } }
  | .finish =>
    if flow.found = 0 then pure { flow with place := .idle }
    else do
      let port ← flow.port.ringCqDoorbell flow.dbStride
      pure { flow with
        place := .idle
        port := port
        rings := flow.rings ++ [(flow.handled.length, flow.port.nvmeq.cqHead)] }

/-- The machine of the device and `nvme_irq`. -/
def machine : Machine CompletionQueue CqInput where
  step flow
    | .post entry => flow.post entry
    | .irq =>
      match flow.irq with
      | .error _ => none
      | .ok after => some after

/-- Entries that `nvme_irq` has handled and moved past. -/
def consumed (flow : CompletionQueue) : Nat :=
  match flow.place with
  | .advance => flow.handled.length - 1
  | _ => flow.handled.length

/-- Entries that the device knows to be handled. -/
def announced (flow : CompletionQueue) : Nat := (flow.rings.getLast?.map (·.1)).getD 0

end CompletionQueue

/-- The ring of completions is mapped from an offset on, and a shadow doorbell lies apart from it. -/
structure QueuePort.Mapped (port : QueuePort) (ring : Nat) : Prop where
  /-- Each part of each slot is mapped. -/
  slots : ∀ slot < port.nvmeq.depth, ∀ first count, first + count ≤ cqeSize → 0 < count →
    port.space.translate (u32 (port.nvmeq.cqDmaAddr + (slot * cqeSize + first))) count =
      .ok (ring + slot * cqeSize + first)
  /-- The shadow doorbell, if there is one, is mapped elsewhere. -/
  shadow : port.nvmeq.dbbufCqDb ≠ 0 → ∃ doorbell,
    port.space.translate port.nvmeq.dbbufCqDb 4 = .ok doorbell ∧
      (doorbell + 4 ≤ ring ∨ ring + port.nvmeq.depth * cqeSize ≤ doorbell)

namespace QueuePort.Mapped

variable {port after : QueuePort} {ring : Nat}

/-- The ring stays mapped while the mapping and the addresses of the queue stay. -/
theorem frame (mapped : port.Mapped ring)
    (space : ∀ addr len, after.space.translate addr len = port.space.translate addr len)
    (ringAddr : after.nvmeq.cqDmaAddr = port.nvmeq.cqDmaAddr)
    (depth : after.nvmeq.depth = port.nvmeq.depth)
    (shadow : after.nvmeq.dbbufCqDb = port.nvmeq.dbbufCqDb) : after.Mapped ring := by
  constructor
  · intro slot inside first count within nonempty
    rw [space, ringAddr]
    rw [depth] at inside
    exact mapped.slots slot inside first count within nonempty
  · rw [shadow, depth]
    intro present
    obtain ⟨doorbell, there, apart⟩ := mapped.shadow present
    exact ⟨doorbell, by rw [space, there], apart⟩

/-- A whole slot is mapped. -/
theorem slot (mapped : port.Mapped ring) {slot : Nat} (inside : slot < port.nvmeq.depth) :
    port.space.translate (u32 (port.nvmeq.cqDmaAddr + slot * cqeSize)) cqeSize =
      .ok (ring + slot * cqeSize) :=
  mapped.slots slot inside 0 cqeSize (by decide) (by decide)

/-- `ring_cq_doorbell` reaches the shadow doorbell or writes the register. -/
theorem rings (mapped : port.Mapped ring) (dbStride : Nat) :
    ∃ rung, port.ringCqDoorbell dbStride = .ok rung := by
  unfold QueuePort.ringCqDoorbell QueuePort.announce
  split
  · rename_i shadowed
    obtain ⟨doorbell, there, -⟩ := mapped.shadow shadowed
    obtain ⟨space, wrote⟩ := (MemorySpace.accesses_of_translate there).2.1
      (leBytes 4 port.nvmeq.cqHead) (by simp [leBytes])
    rw [wrote]
    exact ⟨_, rfl⟩
  · exact ⟨_, rfl⟩

end QueuePort.Mapped

namespace CompletionQueue

/-- The queue holds the entries posted last, and each side stands where its count says. -/
structure Synced (depth ring : Nat) (flow : CompletionQueue) : Prop where
  /-- The ring has the depth of the queue. -/
  size : flow.port.nvmeq.depth = depth
  /-- The ring is mapped. -/
  mapped : flow.port.Mapped ring
  /-- The device's slot counts the entries. -/
  tail : flow.cqTail = flow.posted.length % depth
  /-- The device's phase counts the wraps. -/
  phase : flow.phase = (flow.posted.length / depth + 1) % 2
  /-- The driver's slot counts what it has consumed. -/
  head : flow.port.nvmeq.cqHead = flow.consumed % depth
  /-- The driver's phase counts the wraps. -/
  headPhase : flow.port.nvmeq.cqPhase = (flow.consumed / depth + 1) % 2
  /-- What is handled was posted, in this order. -/
  order : flow.handled <+: flow.posted
  /-- An entry is handled only when there is one. -/
  ready : flow.place = .handle → flow.handled.length < flow.posted.length
  /-- The driver moves past an entry that it has handled. -/
  moving : flow.place = .advance → 0 < flow.handled.length
  /-- The device knows of no entry that was not consumed. -/
  known : flow.announced ≤ flow.consumed
  /-- The device stays behind the head that it knows. -/
  room : flow.posted.length < flow.announced + depth
  /-- Each head announced counts the entries handled. -/
  rings : ∀ rung ∈ flow.rings, rung.2 = rung.1 % depth
  /-- Without a shadow doorbell the heads are written to the register. -/
  registers : flow.port.nvmeq.dbbufCqDb = 0 → flow.port.writes =
    flow.rings.map fun rung => (u32 (flow.port.nvmeq.qDb + 4 * flow.dbStride), rung.2)
  /-- With one its word is the head announced last. -/
  word : flow.port.nvmeq.dbbufCqDb ≠ 0 → ∀ rung, flow.rings.getLast? = some rung →
    flow.port.space.read flow.port.nvmeq.dbbufCqDb 4 = .ok (leBytes 4 rung.2)
  /-- Each entry fills a slot. -/
  whole : ∀ entry ∈ flow.posted, entry.length = cqeSize
  /-- Each entry carries the phase of its lap. -/
  phases : ∀ (use : Nat) (entry : List UInt8), flow.posted[use]? = some entry →
    phaseBit entry = (use / depth + 1) % 2
  /-- The entries of the last lap stand in their slots. -/
  slots : ∀ (use : Nat) (entry : List UInt8), flow.posted[use]? = some entry →
    flow.posted.length ≤ use + depth →
    flow.port.space.peek (ring + use % depth * cqeSize) cqeSize = entry
  /-- Slots that were never used are clear. -/
  clear : ∀ slot, flow.posted.length ≤ slot → slot < depth →
    flow.port.space.peek (ring + slot * cqeSize) cqeSize = List.replicate cqeSize 0

/-- A phase bit that is inverted with each lap follows the laps. -/
theorem flip_phase {depth : Nat} (positive : 0 < depth) (use : Nat) :
    (if use % depth + 1 = depth then (use / depth + 1) % 2 ^^^ 1 else (use / depth + 1) % 2) =
      ((use + 1) / depth + 1) % 2 := by
  have inverted : ∀ laps, laps % 2 ^^^ 1 = (laps + 1) % 2 := by
    intro laps
    rw [Nat.add_mod]
    obtain even | odd := Nat.mod_two_eq_zero_or_one laps
    · rw [even]
      decide
    · rw [odd]
      decide
  rw [Ring.lap_next positive]
  split
  · exact inverted _
  · rfl

namespace Synced

variable {depth ring : Nat} {flow after : CompletionQueue}

/-- The driver's slot lies in the ring. -/
theorem head_lt (synced : Synced depth ring flow) (positive : 0 < depth) :
    flow.port.nvmeq.cqHead < depth := by
  rw [synced.head]
  exact Nat.mod_lt _ positive

/-- The driver has not moved past an entry that was not posted. -/
theorem consumed_le (synced : Synced depth ring flow) : flow.consumed ≤ flow.posted.length := by
  have order := synced.order.length_le
  unfold consumed
  split <;> omega

/-- The phase bit in the driver's slot is the one it waits for exactly when that slot holds an entry
which it has not consumed. -/
theorem phase_iff (synced : Synced depth ring flow) (positive : 0 < depth) :
    phaseBit (flow.port.space.peek (ring + flow.port.nvmeq.cqHead * cqeSize) cqeSize) =
      flow.port.nvmeq.cqPhase ↔ flow.consumed < flow.posted.length := by
  have room := synced.room
  have known := synced.known
  have behind := synced.consumed_le
  rw [synced.head, synced.headPhase]
  by_cases waiting : flow.consumed < flow.posted.length
  · have there := List.getElem?_eq_getElem waiting
    rw [synced.slots _ _ there (by omega), synced.phases _ _ there]
    exact ⟨fun _ => waiting, fun _ => rfl⟩
  · have all : flow.consumed = flow.posted.length := by omega
    rw [all]
    refine ⟨fun same => absurd same ?_, fun below => absurd below (Nat.lt_irrefl _)⟩
    by_cases wrapped : depth ≤ flow.posted.length
    · -- the slot still holds the entry of the lap before, whose phase bit is the other one
      obtain ⟨use, length⟩ : ∃ use, flow.posted.length = use + depth :=
        ⟨flow.posted.length - depth, by omega⟩
      have inside : use < flow.posted.length := by omega
      have there := List.getElem?_eq_getElem inside
      rw [length, Nat.add_mod_right, synced.slots _ _ there (by omega), synced.phases _ _ there,
        Nat.add_div_right _ positive]
      omega
    · have short : flow.posted.length < depth := by omega
      rw [Nat.mod_eq_of_lt short, synced.clear _ (le_refl _) short, Nat.div_eq_of_lt short]
      decide

/-- `cqe_pending` tells whether an entry was not consumed. -/
theorem pending (synced : Synced depth ring flow) (positive : 0 < depth) :
    flow.port.cqePending = .ok (decide (flow.consumed < flow.posted.length)) := by
  have inside := synced.head_lt positive
  rw [← synced.size] at inside
  have mapped := synced.mapped.slots _ inside 14 2 (by decide) (by decide)
  have bits := synced.phase_iff positive
  rw [phaseBit, MemorySpace.drop_peek] at bits
  rw [QueuePort.cqePending, if_pos inside, MemorySpace.read_eq mapped]
  simp only [bind, Except.bind, pure, Except.pure, Except.ok.injEq, decide_eq_decide]
  exact bits

/-- `handle_cqe` reads the entry that comes next. -/
theorem next_entry (synced : Synced depth ring flow) (positive : 0 < depth) {entry : List UInt8}
    (there : flow.posted[flow.consumed]? = some entry) :
    flow.port.readCqe flow.port.nvmeq.cqHead = .ok entry := by
  have inside := synced.head_lt positive
  have room := synced.room
  have known := synced.known
  rw [← synced.size] at inside
  rw [QueuePort.readCqe, if_pos inside, MemorySpace.read_eq (synced.mapped.slot inside),
    synced.head, synced.slots _ _ there (by omega)]

/-- The entries after a post. -/
theorem getElem?_posted {posted : List (List UInt8)} {entry other : List UInt8} {use : Nat}
    (there : (posted ++ [entry])[use]? = some other) :
    posted[use]? = some other ∨ use = posted.length ∧ other = entry := by
  by_cases before : use < posted.length
  · rw [List.getElem?_append_left before] at there
    exact Or.inl there
  · rw [List.getElem?_append_right (by omega), List.getElem?_singleton] at there
    split at there
    · exact Or.inr ⟨by omega, (Option.some.inj there).symm⟩
    · contradiction

/-- What a post does, and when the device may make it. -/
theorem post_ok {entry : List UInt8} (stepped : flow.post entry = some after) :
    entry.length = cqeSize ∧ phaseBit entry = flow.phase ∧
      Ring.next flow.port.nvmeq.depth flow.cqTail ≠ flow.headDoorbell ∧
      ∃ space, flow.port.space.write (u32 (flow.port.nvmeq.cqDmaAddr + flow.cqTail * cqeSize)) entry =
          .ok space ∧
        after = { flow with
          port := { flow.port with space := space }
          cqTail := Ring.next flow.port.nvmeq.depth flow.cqTail
          phase := if flow.cqTail + 1 = flow.port.nvmeq.depth then flow.phase ^^^ 1 else flow.phase
          posted := flow.posted ++ [entry] } := by
  unfold CompletionQueue.post at stepped
  split at stepped
  · rename_i allowed
    split at stepped
    · cases stepped
    · rename_i space wrote
      exact ⟨allowed.1, allowed.2.1, allowed.2.2, space, wrote, (Option.some.inj stepped).symm⟩
  · cases stepped

/-- The head in the doorbell is the slot of the entries announced. -/
theorem headDoorbell_eq (synced : Synced depth ring flow) :
    flow.headDoorbell = flow.announced % depth := by
  unfold headDoorbell announced
  cases last : flow.rings.getLast? with
  | none => exact (Nat.zero_mod depth).symm
  | some rung => exact synced.rings rung (List.mem_of_getLast? last)

/-- A post keeps both sides in step. -/
theorem post (synced : Synced depth ring flow) (positive : 0 < depth) {entry : List UInt8}
    (stepped : flow.post entry = some after) : Synced depth ring after := by
  obtain ⟨length, bit, spare, space, wrote, rfl⟩ := post_ok stepped
  have inside : flow.cqTail < flow.port.nvmeq.depth := by
    rw [synced.tail, synced.size]
    exact Nat.mod_lt _ positive
  have mapped : flow.port.space.translate (u32 (flow.port.nvmeq.cqDmaAddr +
      flow.cqTail * cqeSize)) entry.length = .ok (ring + flow.cqTail * cqeSize) := by
    rw [length]
    exact synced.mapped.slot inside
  have count : (flow.posted ++ [entry]).length = flow.posted.length + 1 := by simp
  have room : flow.posted.length + 1 < flow.announced + depth := by
    have room := synced.room
    by_contra full
    have all : flow.posted.length + 1 = flow.announced + depth := by omega
    apply spare
    rw [synced.size, synced.tail, Ring.next_slot positive, all, Nat.add_mod_right,
      synced.headDoorbell_eq]
  have elsewhere : ∀ slot, slot ≠ flow.cqTail → space.peek (ring + slot * cqeSize) cqeSize =
      flow.port.space.peek (ring + slot * cqeSize) cqeSize := by
    intro slot differ
    apply MemorySpace.peek_apart mapped wrote
    rw [length]
    simp only [cqeSize]
    omega
  refine {
    size := synced.size
    mapped := synced.mapped.frame (MemorySpace.frame_write wrote).translate rfl rfl rfl
    tail := ?tail
    phase := ?phase
    head := synced.head
    headPhase := synced.headPhase
    order := synced.order.trans (List.prefix_append _ _)
    ready := ?ready
    moving := synced.moving
    known := synced.known
    room := ?room
    rings := synced.rings
    registers := synced.registers
    word := ?word
    whole := ?whole
    phases := ?phases
    slots := ?slots
    clear := ?clear }
  case tail =>
    rw [count, synced.size, synced.tail, Ring.next_slot positive]
  case phase =>
    rw [count, synced.size, synced.tail, synced.phase]
    exact flip_phase positive _
  case ready =>
    intro handling
    have ready := synced.ready handling
    rw [count]
    exact Nat.lt_succ_of_lt ready
  case room =>
    rw [count]
    exact room
  case word =>
    intro present rung last
    have word := synced.word present rung last
    obtain ⟨doorbell, there, apart⟩ := synced.mapped.shadow present
    have still : space.translate flow.port.nvmeq.dbbufCqDb 4 = .ok doorbell := by
      rw [(MemorySpace.frame_write wrote).translate, there]
    rw [MemorySpace.read_eq there] at word
    show space.read flow.port.nvmeq.dbbufCqDb 4 = _
    rw [MemorySpace.read_eq still, ← word, MemorySpace.peek_apart mapped wrote]
    rw [length]
    simp only [cqeSize] at apart ⊢
    omega
  case whole =>
    intro other listed
    obtain listed | listed := List.mem_append.mp listed
    · exact synced.whole other listed
    · rw [List.mem_singleton.mp listed, length]
  case phases =>
    intro use other there
    obtain there | ⟨rfl, rfl⟩ := getElem?_posted there
    · exact synced.phases use other there
    · rw [bit, synced.phase]
  case slots =>
    intro use other there near
    rw [count] at near
    obtain there | ⟨rfl, rfl⟩ := getElem?_posted there
    · have before := (List.getElem?_eq_some_iff.mp there).1
      have differ : use % depth ≠ flow.cqTail := by
        rw [synced.tail]
        exact Ring.slot_ne before (by omega)
      rw [elsewhere _ differ]
      exact synced.slots use other there (by omega)
    · have written := MemorySpace.peek_written mapped wrote
      rwa [length, synced.tail] at written
  case clear =>
    intro slot beyond below
    rw [count] at beyond
    have differ : slot ≠ flow.cqTail := by
      rw [synced.tail, Nat.mod_eq_of_lt (by omega)]
      omega
    rw [elsewhere slot differ]
    exact synced.clear slot (by omega) below

/-- What `update_cq_head` does to the position of a consumer. -/
theorem updateCqHead_eq {nvmeq : NVMeQueue} {use : Nat} (positive : 0 < nvmeq.depth)
    (narrow : nvmeq.depth < 2 ^ 16) (head : nvmeq.cqHead = use % nvmeq.depth)
    (phase : nvmeq.cqPhase = (use / nvmeq.depth + 1) % 2) :
    nvmeq.updateCqHead = { nvmeq with
      cqHead := (use + 1) % nvmeq.depth, cqPhase := ((use + 1) / nvmeq.depth + 1) % 2 } := by
  have below := Nat.mod_lt use positive
  have next : u16 (use % nvmeq.depth + 1) = use % nvmeq.depth + 1 := Nat.mod_eq_of_lt (by omega)
  rw [← flip_phase positive, ← Ring.next_slot positive, ← phase]
  unfold NVMeQueue.updateCqHead Ring.next
  rw [head, next]
  split <;> rfl

/-- A call of `ring_cq_doorbell` leaves the queue and the ring as they are. -/
theorem ring_frame (synced : Synced depth ring flow) {port : QueuePort}
    (rang : flow.port.ringCqDoorbell flow.dbStride = .ok port) :
    port.nvmeq = flow.port.nvmeq ∧ port.Mapped ring ∧ ∀ slot < depth,
      port.space.peek (ring + slot * cqeSize) cqeSize =
        flow.port.space.peek (ring + slot * cqeSize) cqeSize := by
  have same := (QueuePort.announce_ok rang).1
  refine ⟨same, ?_, ?_⟩
  · exact synced.mapped.frame (QueuePort.frame_announce rang).translate (by rw [same]) (by rw [same])
      (by rw [same])
  · intro slot inside
    unfold QueuePort.ringCqDoorbell QueuePort.announce at rang
    split at rang
    · rename_i shadowed
      obtain ⟨doorbell, there, apart⟩ := synced.mapped.shadow shadowed
      obtain ⟨space, wrote, ok⟩ := bind_ok.mp rang
      cases ok
      have length : (leBytes 4 flow.port.nvmeq.cqHead).length = 4 := by simp [leBytes]
      rw [← length] at there
      apply MemorySpace.peek_apart there wrote
      rw [length]
      rw [synced.size] at apart
      simp only [cqeSize] at apart ⊢
      omega
    · cases rang
      rfl

/-- A move of `nvme_irq` that neither handles nor consumes an entry. -/
theorem relocate (synced : Synced depth ring flow) (port : after.port = flow.port)
    (dbStride : after.dbStride = flow.dbStride) (tail : after.cqTail = flow.cqTail) (phase : after.phase = flow.phase)
    (posted : after.posted = flow.posted) (handled : after.handled = flow.handled)
    (rings : after.rings = flow.rings) (consumed : after.consumed = flow.consumed)
    (ready : after.place = .handle → flow.handled.length < flow.posted.length)
    (moving : after.place ≠ .advance) : Synced depth ring after := by
  have announced : after.announced = flow.announced := by
    rw [CompletionQueue.announced, rings]
    rfl
  constructor
  · rw [port]
    exact synced.size
  · rw [port]
    exact synced.mapped
  · rw [tail, posted]
    exact synced.tail
  · rw [phase, posted]
    exact synced.phase
  · rw [port, consumed]
    exact synced.head
  · rw [port, consumed]
    exact synced.headPhase
  · rw [handled, posted]
    exact synced.order
  · rw [handled, posted]
    exact ready
  · exact fun advancing => absurd advancing moving
  · rw [announced, consumed]
    exact synced.known
  · rw [announced, posted]
    exact synced.room
  · rw [rings]
    exact synced.rings
  · rw [port, rings, dbStride]
    exact synced.registers
  · rw [port, rings]
    exact synced.word
  · rw [posted]
    exact synced.whole
  · rw [posted]
    exact synced.phases
  · rw [port, posted]
    exact synced.slots
  · rw [port, posted]
    exact synced.clear

/-- A step of `nvme_irq` keeps both sides in step. -/
theorem irq (synced : Synced depth ring flow) (positive : 0 < depth) (narrow : depth < 2 ^ 16)
    (stepped : flow.irq = .ok after) : Synced depth ring after := by
  unfold CompletionQueue.irq at stepped
  split at stepped
  case h_1 idle =>
    cases stepped
    exact synced.relocate rfl rfl rfl rfl rfl rfl rfl (by simp [consumed, idle]) (by simp) (by simp)
  case h_2 check =>
    rw [synced.pending positive] at stepped
    cases stepped
    have count : flow.consumed = flow.handled.length := by simp [consumed, check]
    by_cases waiting : flow.handled.length < flow.posted.length
    · exact synced.relocate rfl rfl rfl rfl rfl rfl rfl (by simp [consumed, check, waiting])
        (fun _ => waiting) (by simp [count, waiting])
    · exact synced.relocate rfl rfl rfl rfl rfl rfl rfl (by simp [consumed, check, waiting])
        (by simp [count, waiting]) (by simp [count, waiting])
  case h_3 handling =>
    have count : flow.consumed = flow.handled.length := by simp [consumed, handling]
    have waiting := synced.ready handling
    have there : flow.posted[flow.consumed]? = some flow.posted[flow.handled.length] := by
      rw [count]
      exact List.getElem?_eq_getElem waiting
    have read := synced.next_entry positive there
    obtain ⟨entry, reads, stepped⟩ := bind_ok.mp stepped
    cases stepped
    obtain rfl := Except.ok.inj (reads.symm.trans read)
    exact { synced with
      head := by
        have head := synced.head
        rw [count] at head
        simp [consumed, head]
      headPhase := by
        have phase := synced.headPhase
        rw [count] at phase
        simp [consumed, phase]
      order := by
        have order := List.prefix_iff_eq_take.mp synced.order
        have grown := List.take_append_getElem waiting
        rw [← order] at grown
        rw [grown]
        exact List.take_prefix _ _
      ready := by simp
      moving := by simp
      known := by
        have known := synced.known
        rw [count] at known
        simpa [consumed, announced] using known }
  case h_4 advancing =>
    cases stepped
    have behind := synced.moving advancing
    have count : flow.consumed + 1 = flow.handled.length := by
      simp only [consumed, advancing]
      omega
    obtain rfl := synced.size
    rw [updateCqHead_eq positive narrow synced.head synced.headPhase, count]
    exact { synced with
      size := rfl
      mapped := synced.mapped.frame (fun _ _ => rfl) rfl rfl rfl
      head := by simp [consumed]
      headPhase := by simp [consumed]
      ready := by simp
      moving := by simp
      known := by
        have known := synced.known
        change flow.announced ≤ flow.handled.length
        omega }
  case h_5 finishing =>
    have count : flow.consumed = flow.handled.length := by simp [consumed, finishing]
    split at stepped
    · cases stepped
      exact synced.relocate rfl rfl rfl rfl rfl rfl rfl (by simp [consumed, finishing]) (by simp)
        (by simp)
    · obtain ⟨port, rang, stepped⟩ := bind_ok.mp stepped
      cases stepped
      obtain ⟨same, mapped, kept⟩ := synced.ring_frame rang
      have known : flow.announced ≤ flow.handled.length := count ▸ synced.known
      have room := synced.room
      exact { synced with
        size := by rw [same, synced.size]
        mapped := mapped
        head := by
          have head := synced.head
          rw [count] at head
          simp [consumed, same, head]
        headPhase := by
          have phase := synced.headPhase
          rw [count] at phase
          simp [consumed, same, phase]
        ready := by simp
        moving := by simp
        known := by simp [announced, consumed]
        room := by
          simp only [announced, List.getLast?_concat, Option.map_some, Option.getD_some]
          omega
        rings := by
          have head := synced.head
          rw [count] at head
          intro rung listed
          obtain listed | listed := List.mem_append.mp listed
          · exact synced.rings rung listed
          · rw [List.mem_singleton.mp listed, head]
        registers := by
          intro register
          rw [same] at register
          rw [same, List.map_append, List.map_singleton, ← synced.registers register]
          exact (QueuePort.announce_ok rang).2 register
        word := by
          intro present rung last
          rw [same] at present
          obtain ⟨doorbell, there, -⟩ := synced.mapped.shadow present
          have still : port.space.translate flow.port.nvmeq.dbbufCqDb 4 = .ok doorbell := by
            rw [(QueuePort.frame_announce rang).translate, there]
          rw [List.getLast?_concat] at last
          obtain rfl := Option.some.inj last
          show port.space.read port.nvmeq.dbbufCqDb 4 = _
          rw [same, MemorySpace.read_eq still, (QueuePort.announce_shadow present there rang).2]
        slots := by
          intro use entry there near
          have inside := Nat.mod_lt use positive
          rw [kept _ inside]
          exact synced.slots use entry there near
        clear := by
          intro slot beyond below
          rw [kept _ below]
          exact synced.clear slot beyond below }

end Synced

/-- The promises of the completion queue. -/
structure InOrder (depth : Nat) (flow : CompletionQueue) : Prop where
  /-- The entries handled are the first entries posted, in order. -/
  inOrder : flow.handled <+: flow.posted
  /-- The driver's slot lies in the ring. -/
  head : flow.port.nvmeq.cqHead < depth
  /-- When nothing is pending every entry posted was handled. -/
  drained : flow.port.cqePending = .ok false → flow.handled = flow.posted
  /-- `nvme_irq` goes on: no assertion fails and no access leaves the mapping. -/
  runs : ∃ after, flow.irq = .ok after
  /-- Each head announced is the number of entries handled, modulo the depth. -/
  doorbell : ∀ rung ∈ flow.rings, rung.2 = rung.1 % depth
  /-- Without a shadow doorbell these heads are what the register received. -/
  registers : flow.port.nvmeq.dbbufCqDb = 0 → flow.port.writes =
    flow.rings.map fun rung => (u32 (flow.port.nvmeq.qDb + 4 * flow.dbStride), rung.2)
  /-- With one its word is the latest of them. -/
  word : flow.port.nvmeq.dbbufCqDb ≠ 0 → ∀ rung, flow.rings.getLast? = some rung →
    flow.port.space.read flow.port.nvmeq.dbbufCqDb 4 = .ok (leBytes 4 rung.2)

/-- `nvme_irq` can always go on. -/
theorem Synced.runs {depth ring : Nat} {flow : CompletionQueue} (synced : Synced depth ring flow)
    (positive : 0 < depth) : ∃ after, flow.irq = .ok after := by
  unfold CompletionQueue.irq
  split
  case h_1 => exact ⟨_, rfl⟩
  case h_2 =>
    rw [synced.pending positive]
    exact ⟨_, rfl⟩
  case h_3 handling =>
    have count : flow.consumed = flow.handled.length := by simp [consumed, handling]
    have waiting := synced.ready handling
    rw [← count] at waiting
    rw [synced.next_entry positive (List.getElem?_eq_getElem waiting)]
    exact ⟨_, rfl⟩
  case h_4 => exact ⟨_, rfl⟩
  case h_5 =>
    split
    · exact ⟨_, rfl⟩
    · obtain ⟨port, rang⟩ := synced.mapped.rings flow.dbStride
      rw [rang]
      exact ⟨_, rfl⟩

/-- The promises follow from both sides being in step. -/
theorem Synced.inOrder {depth ring : Nat} {flow : CompletionQueue} (synced : Synced depth ring flow)
    (positive : 0 < depth) : InOrder depth flow where
  inOrder := synced.order
  head := synced.head_lt positive
  drained := by
    intro none
    rw [synced.pending positive, Except.ok.injEq, decide_eq_false_iff_not] at none
    have behind : flow.consumed ≤ flow.handled.length := by
      unfold consumed
      split <;> omega
    have order := synced.order.length_le
    exact synced.order.eq_of_length (by omega)
  runs := synced.runs positive
  doorbell := synced.rings
  registers := synced.registers
  word := synced.word

/-- A shadow doorbell of the completion queue, if there is one, is mapped apart from its ring. -/
def ShadowApart (port : QueuePort) : Prop :=
  port.nvmeq.dbbufCqDb ≠ 0 → ∃ doorbell ring,
    port.space.translate port.nvmeq.dbbufCqDb 4 = .ok doorbell ∧
    port.space.translate port.nvmeq.cqDmaAddr (port.nvmeq.depth * cqeSize) = .ok ring ∧
    (doorbell + 4 ≤ ring ∨ ring + port.nvmeq.depth * cqeSize ≤ doorbell)

/-- After `init_queue` both sides are in step. -/
theorem Synced.create {port start : QueuePort} {qid dbStride dbbufDbs : Nat}
    (positive : 0 < port.nvmeq.depth) (narrow : port.nvmeq.depth < 2 ^ 16)
    (addressable : port.space.iovaBase + port.space.mapSize ≤ 2 ^ 32)
    (init : port.initQueue qid dbStride dbbufDbs = .ok start) (apart : ShadowApart start) :
    ∃ ring, Synced port.nvmeq.depth ring (create start dbStride) := by
  obtain ⟨space, wrote, init⟩ := bind_ok.mp init
  cases init
  obtain ⟨ring, mapped, stored⟩ := bind_ok.mp wrote
  rw [List.length_replicate] at mapped
  have frame := MemorySpace.frame_write wrote
  have slots : ∀ slot < port.nvmeq.depth, slot * cqeSize + cqeSize ≤ port.nvmeq.depth * cqeSize := by
    intro slot inside
    simp only [cqeSize]
    omega
  have zeros : ∀ first count, first + count ≤ port.nvmeq.depth * cqeSize →
      space.peek (ring + first) count = List.replicate count 0 := by
    intro first count inside
    have whole := MemorySpace.peek_written (by rw [List.length_replicate]; exact mapped) wrote
    rw [List.length_replicate] at whole
    have part : (space.peek ring (port.nvmeq.depth * cqeSize)).drop first =
        space.peek (ring + first) (port.nvmeq.depth * cqeSize - first) :=
      MemorySpace.drop_peek ring (port.nvmeq.depth * cqeSize) first
    rw [whole, List.drop_replicate] at part
    rw [← MemorySpace.take_peek (Nat.le_sub_of_add_le' inside), ← part, List.take_replicate,
      Nat.min_eq_left (Nat.le_sub_of_add_le' inside)]
  refine ⟨ring, ?_⟩
  constructor
  case mapped =>
    constructor
    · intro slot inside first count within nonempty
      have before := slots slot inside
      have short : port.nvmeq.depth * cqeSize ≤ 2 ^ 32 := by
        simp only [cqeSize]
        omega
      have part := MemorySpace.translate_part addressable short mapped
        (Nat.le_trans (by omega) before : slot * cqeSize + first + count ≤ _) nonempty
      rw [← frame.translate, ← Nat.add_assoc ring] at part
      exact part
    · intro shadowed
      obtain ⟨doorbell, found, there, base, clear⟩ := apart shadowed
      have same : found = ring := Except.ok.inj
        (base.symm.trans ((frame.translate _ _).trans mapped))
      rw [same] at clear
      exact ⟨doorbell, there, clear⟩
  case clear =>
    intro slot _ below
    exact zeros _ _ (slots slot below)
  case size => rfl
  case tail => exact (Nat.zero_mod _).symm
  case phase =>
    rw [CompletionQueue.create, List.length_nil, Nat.zero_div]
  case head => exact (Nat.zero_mod _).symm
  case headPhase =>
    rw [consumed, CompletionQueue.create, List.length_nil, Nat.zero_div]
    rfl
  case order => exact List.nil_prefix
  case ready => exact fun handling => nomatch handling
  case moving => exact fun advancing => nomatch advancing
  case known => exact Nat.le_refl _
  case room =>
    change 0 < 0 + port.nvmeq.depth
    omega
  case rings => exact fun _ listed => nomatch listed
  case registers => exact fun _ => rfl
  case word => exact fun _ _ last => nomatch last
  case whole => exact fun _ listed => nomatch listed
  case phases => exact fun _ _ there => nomatch there
  case slots => exact fun _ _ there => nomatch there

/-- A step of the device or of `nvme_irq` keeps both sides in step. -/
theorem Synced.step {depth ring : Nat} {flow after : CompletionQueue} {input : CqInput}
    (synced : Synced depth ring flow) (positive : 0 < depth) (narrow : depth < 2 ^ 16)
    (stepped : machine.step flow input = some after) : Synced depth ring after := by
  cases input with
  | post entry => exact synced.post positive stepped
  | irq =>
    simp only [machine] at stepped
    split at stepped
    · cases stepped
    · cases stepped
      rename_i ran
      exact synced.irq positive narrow ran

/-- From `init_queue` on, however the device's posts and the steps of `nvme_irq` interleave, every
entry is handled once, in the order of posting. -/
theorem in_order {port start : QueuePort} {qid dbStride dbbufDbs : Nat} {flow : CompletionQueue}
    (two : 2 ≤ port.nvmeq.depth) (narrow : port.nvmeq.depth ≤ 65535)
    (addressable : port.space.iovaBase + port.space.mapSize ≤ 2 ^ 32)
    (init : port.initQueue qid dbStride dbbufDbs = .ok start) (apart : ShadowApart start)
    (reached : machine.Reaches (create start dbStride) flow) : InOrder port.nvmeq.depth flow := by
  have positive : 0 < port.nvmeq.depth := by omega
  have fits : port.nvmeq.depth < 2 ^ 16 := by omega
  obtain ⟨ring, synced⟩ := Synced.create positive fits addressable init apart
  have invariant := reached.invariant _ (fun _ _ _ inv stepped => inv.step positive fits stepped) synced
  exact invariant.inOrder positive

/-- Queue 1 with two entries in a mapping of 64 KiB. -/
def samplePort : QueuePort where
  space := ⟨HoleTable.init, fun _ => 0, 0x10000, 0⟩
  nvmeq := NVMeQueue.blank.place 1 2 1 0x1000 0x2000
  writes := []

/-- An entry of the first lap that completes a command. -/
def sampleEntry (commandId : UInt8) : List UInt8 :=
  [0, 0, 0, 0, 0, 0, 0, 0, 0, 0, 1, 0, commandId, 0, 1, 0]

/-- The device posts an entry and `nvme_irq` runs, twice. -/
def twoEntries : List CqInput :=
  .post (sampleEntry 7) :: List.replicate 6 .irq ++ .post (sampleEntry 8) :: List.replicate 6 .irq

/-- A shadow doorbell at 0x300C is apart from the ring. -/
theorem shadowApart_samplePort {start : QueuePort}
    (init : samplePort.initQueue 1 1 0x3000 = .ok start) : ShadowApart start := by
  obtain ⟨space, cleared, same⟩ := bind_ok.mp init
  obtain rfl := Except.ok.inj same
  have frame : space.SameFrame samplePort.space := MemorySpace.frame_write cleared
  have mapped : ∀ {addr len : Nat}, addr + len ≤ 0x10000 → 0 < len →
      space.translate addr len = .ok addr := by
    intro addr len within nonempty
    rw [frame.translate]
    exact MemorySpace.translate_zero rfl (by decide) within nonempty
  have doorbell : space.translate 0x300C 4 = .ok 0x300C := mapped (by decide) (by decide)
  have ring : space.translate 0x2000 32 = .ok 0x2000 := mapped (by decide) (by decide)
  have behind : 0x2000 + 2 * cqeSize ≤ 0x300C := by decide
  exact fun _ => ⟨0x300C, 0x2000, doorbell, ring, Or.inr behind⟩

/-- A queue of two entries handles two of them in order, over the end of the ring, and announces its
head after each through the shadow doorbell. -/
theorem in_order_two : ∃ start flow, samplePort.initQueue 1 1 0x3000 = .ok start ∧
    machine.run (create start 1) twoEntries = some flow ∧
    flow.handled = [sampleEntry 7, sampleEntry 8] ∧ flow.rings = [(1, 1), (2, 0)] ∧
    InOrder 2 flow := by
  have ran : ((samplePort.initQueue 1 1 0x3000).toOption.bind fun start =>
      (machine.run (create start 1) twoEntries).map fun flow => (flow.handled, flow.rings)) =
      some ([sampleEntry 7, sampleEntry 8], [(1, 1), (2, 0)]) := by
    decide +kernel
  cases init : samplePort.initQueue 1 1 0x3000 with
  | error fault =>
    rw [init] at ran
    cases ran
  | ok start =>
    rw [init] at ran
    obtain ⟨flow, ran, observed⟩ := Option.map_eq_some_iff.mp ran
    obtain ⟨handled, rings⟩ := Prod.mk.inj observed
    exact ⟨start, flow, rfl, ran, handled, rings, in_order (by decide) (by decide) (by decide) init
      (shadowApart_samplePort init) ⟨_, ran⟩⟩

end CompletionQueue

end McmqHost
