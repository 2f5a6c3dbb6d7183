import McmqHost.Link.RingCalls
import McmqHost.Link.Receive

/-!
# The receiving thread on its ring buffer

`recv_thread` is both sides of its ring buffer: each call runs to its end before the next one begins.
Then a call does to the elements between the indexes what it says, and the receiving thread does with
the ring buffer what it does with a list of bytes.
-/

namespace McmqHost

namespace RingState

variable {Elem : Type} {shape : RingShape} {state : RingState Elem} {queue : List Elem}

/-! ## Calls that run to their end -/

/-- The producer's accesses, until its call returns or their number is used up. -/
def produceAll (shape : RingShape) : Nat → RingState Elem → RingState Elem
  | 0, state => state
  | fuel + 1, state =>
    match state.produce shape with
    | none => state
    | some next => produceAll shape fuel next

/-- The consumer's accesses, until its call returns or their number is used up. -/
def consumeAll (shape : RingShape) : Nat → RingState Elem → RingState Elem
  | 0, state => state
  | fuel + 1, state =>
    match state.consume shape with
    | none => state
    | some next => consumeAll shape fuel next

/-- `writeBuff`. -/
def writeBuff (shape : RingShape) (state : RingState Elem) (buff : List Elem) : RingState Elem :=
  produceAll shape (buff.length + 3) { state with producer := .entered (.writeBuff buff) }

/-- The last call on the consumer's side. -/
def lastTake (state : RingState Elem) : TakeRecord Elem :=
  state.takes.getLast?.getD ⟨.readAvailable, 0, [], 0⟩

/-- `readAvailable`. -/
def readAvailable (shape : RingShape) (state : RingState Elem) : Nat × RingState Elem :=
  let after := consumeAll shape 3 { state with consumer := .entered .readAvailable }
  (after.lastTake.available, after)

/-- `readBuff`. -/
def readBuff (shape : RingShape) (state : RingState Elem) (count : Nat) :
    List Elem × RingState Elem :=
  let after := consumeAll shape (count + 3) { state with consumer := .entered (.readBuff count) }
  (after.lastTake.buff, after)

/-- No call is running, and the members stand for a queue. -/
structure Quiet (shape : RingShape) (state : RingState Elem) (queue : List Elem) : Prop where
  /-- The queue. -/
  coupled : ∃ first, Coupled shape state first queue
  /-- The producer is outside. -/
  producer : state.producer = .idle
  /-- The consumer is outside. -/
  consumer : state.consumer = .idle

theorem quiet_fresh (dataBuff : Nat → Elem) : Quiet shape (fresh dataBuff) [] :=
  ⟨⟨0, coupled_fresh dataBuff⟩, rfl, rfl⟩

theorem Quiet.contents_eq (quiet : Quiet shape state queue) : state.contents shape = queue := by
  obtain ⟨first, coupled⟩ := quiet.coupled
  exact coupled.contents_eq

/-- The rest of a write stores what is left of the chunk and publishes it. -/
theorem produceAll_copying {buff chunk : List Elem} {first available tmpHead written toWrite : Nat}
    (coupled : Coupled shape state first queue)
    (copying : state.producer = .copying (.writeBuff buff) available tmpHead chunk written toWrite)
    (copied : chunk = buff.take written) (within : written + toWrite ≤ buff.length) (fuel : Nat) :
    ∃ after, produceAll shape (toWrite + 1 + fuel) state = after ∧
      Coupled shape after first (queue ++ buff.take (written + toWrite)) ∧
      after.producer = .idle ∧ after.consumer = state.consumer := by
  induction toWrite generalizing state chunk tmpHead written with
  | zero =>
    have relies := coupled.producer
    rw [copying] at relies
    have published := coupled.publishHead (.writeBuff buff) relies
    have next : state.produce shape =
        some (state.publishHead (.writeBuff buff) available tmpHead chunk written) := by
      unfold RingState.produce
      rw [copying]
    have stops : ∀ fuel, produceAll shape fuel
        (state.publishHead (.writeBuff buff) available tmpHead chunk written) =
        state.publishHead (.writeBuff buff) available tmpHead chunk written := by
      intro fuel
      cases fuel <;> rfl
    rw [copied] at published
    refine ⟨state.publishHead (.writeBuff buff) available tmpHead chunk written, ?_, ?_, rfl, rfl⟩
    · rw [Nat.zero_add, Nat.add_comm, produceAll, next]
      exact stops fuel
    · rw [copied, Nat.add_zero]
      exact published
  | succ toWrite ih =>
    have relies := coupled.producer
    rw [copying] at relies
    have below : written < buff.length := by omega
    have offered : (Put.writeBuff buff).buff[written]? = some buff[written] :=
      List.getElem?_eq_getElem below
    have next : state.produce shape = some (state.store shape tmpHead buff[written]
        (.copying (.writeBuff buff) available (u64 (tmpHead + 1)) (chunk ++ [buff[written]])
          (written + 1) toWrite)) := by
      unfold RingState.produce
      rw [copying]
      simp only [offered]
      rfl
    have taken : chunk ++ [buff[written]] = buff.take (written + 1) := by
      rw [List.take_add_one, List.getElem?_eq_getElem below, copied]
      rfl
    obtain ⟨after, ran, reached, outside, same⟩ :=
      ih (coupled.stored relies buff[written]) rfl taken (by omega)
    refine ⟨after, ?_, ?_, outside, same⟩
    · rw [show toWrite + 1 + 1 + fuel = toWrite + 1 + fuel + 1 by omega, produceAll, next]
      exact ran
    · rwa [show written + (toWrite + 1) = written + 1 + toWrite by omega]

/-- **`writeBuff` alone** appends what there is room for. -/
theorem Quiet.writeBuff (quiet : Quiet shape state queue) (buff : List Elem) :
    Quiet shape (state.writeBuff shape buff) (queue ++ buff.take (shape.size - queue.length)) := by
  obtain ⟨⟨first, coupled⟩, -, done⟩ := quiet
  have loaded : Coupled shape
      { state with producer := .sizing (.writeBuff buff) state.ring.head 0 0 } first queue :=
    coupled.produced coupled.head
  have measured := loaded.measureRoom (.writeBuff buff) 0 0 coupled.head
  have copying : (measureRoom shape
      { state with producer := .sizing (.writeBuff buff) state.ring.head 0 0 } (.writeBuff buff)
        state.ring.head 0 0).producer = .copying (.writeBuff buff) (shape.size - queue.length)
          state.ring.head [] 0 (min (shape.size - queue.length) buff.length) := by
    have least : (if shape.size - queue.length < buff.length then shape.size - queue.length
        else buff.length) = min (shape.size - queue.length) buff.length := by
      split <;> omega
    simp only [measureRoom, coupled.used coupled.head, sub64_size coupled.fits, least]
  have kept : (measureRoom shape
      { state with producer := .sizing (.writeBuff buff) state.ring.head 0 0 } (.writeBuff buff)
        state.ring.head 0 0).consumer = state.consumer := rfl
  have ends : state.writeBuff shape buff = produceAll shape (buff.length + 1) (measureRoom shape
      { state with producer := .sizing (.writeBuff buff) state.ring.head 0 0 } (.writeBuff buff)
        state.ring.head 0 0) := rfl
  generalize measureRoom shape _ _ _ _ _ = begun at measured copying kept ends
  obtain ⟨after, ran, reached, outside, same⟩ := produceAll_copying measured copying rfl
    (by rw [Nat.zero_add]; exact Nat.min_le_right _ _)
    (buff.length - min (shape.size - queue.length) buff.length)
  have least := Nat.min_le_right (shape.size - queue.length) buff.length
  rw [show min (shape.size - queue.length) buff.length + 1 +
    (buff.length - min (shape.size - queue.length) buff.length) = buff.length + 1 by omega] at ran
  have whole : buff.take (0 + min (shape.size - queue.length) buff.length) =
      buff.take (shape.size - queue.length) := by
    rw [Nat.zero_add, ← List.take_take, List.take_length]
  rw [whole] at reached
  rw [ends, ran]
  exact ⟨⟨first, reached⟩, outside, by rw [same, kept, done]⟩

/-- The rest of a read loads what is left of the chunk and publishes it. -/
theorem consumeAll_copying {chunk : List Elem} {first count available tmpTail toRead : Nat}
    (coupled : Coupled shape state first queue)
    (copying : state.consumer = .copying (.readBuff count) available tmpTail chunk chunk toRead)
    (fuel : Nat) :
    ∃ after first, consumeAll shape (toRead + 1 + fuel) state = after ∧
      Coupled shape after first (queue.drop (chunk.length + toRead)) ∧
      after.lastTake.buff = queue.take (chunk.length + toRead) ∧
      after.consumer = .idle ∧ after.producer = state.producer := by
  induction toRead generalizing state chunk tmpTail with
  | zero =>
    have relies := coupled.consumer
    rw [copying] at relies
    have published := coupled.publishTail (.readBuff count) relies
    obtain ⟨-, ⟨rest, rfl⟩, -⟩ := relies
    have next : state.consume shape =
        some (state.publishTail (.readBuff count) available tmpTail chunk chunk) := by
      unfold RingState.consume
      rw [copying]
    have stops : ∀ fuel, consumeAll shape fuel
        (state.publishTail (.readBuff count) available tmpTail chunk chunk) =
        state.publishTail (.readBuff count) available tmpTail chunk chunk := by
      intro fuel
      cases fuel <;> rfl
    refine ⟨state.publishTail (.readBuff count) available tmpTail chunk chunk,
      first + chunk.length, ?_, published, ?_, rfl, rfl⟩
    · rw [Nat.zero_add, Nat.add_comm, consumeAll, next]
      exact stops fuel
    · rw [Nat.add_zero, List.take_left]
      simp [publishTail, takeDone, lastTake, note]
  | succ toRead ih =>
    have relies := coupled.consumer
    rw [copying] at relies
    obtain ⟨found, later⟩ := coupled.loaded relies
    have next : state.consume shape = some { state with consumer := (.copying (.readBuff count)
        available (u64 (tmpTail + 1)) (chunk ++ [state.ring.dataBuff (shape.slot tmpTail)])
        (chunk ++ [state.ring.dataBuff (shape.slot tmpTail)]) toRead) } := by
      unfold RingState.consume
      rw [copying]
    obtain ⟨after, last, ran, reached, read, done, same⟩ := ih later rfl
    rw [List.length_append, List.length_singleton] at reached read
    refine ⟨after, last, ?_, ?_, ?_, done, same⟩
    · rw [show toRead + 1 + 1 + fuel = toRead + 1 + fuel + 1 by omega, consumeAll, next]
      exact ran
    · rwa [show chunk.length + (toRead + 1) = chunk.length + 1 + toRead by omega]
    · rwa [show chunk.length + (toRead + 1) = chunk.length + 1 + toRead by omega]

/-- **`readBuff` alone** takes off as many elements as there are, at most. -/
theorem Quiet.readBuff (quiet : Quiet shape state queue) (count : Nat) :
    (state.readBuff shape count).1 = queue.take count ∧
      Quiet shape (state.readBuff shape count).2 (queue.drop count) := by
  obtain ⟨⟨first, coupled⟩, outside, -⟩ := quiet
  have loaded : Coupled shape
      { state with consumer := .sizing (.readBuff count) state.ring.tail [] 0 } first queue :=
    coupled.consumed coupled.tail
  have measured := loaded.measureReady (.readBuff count) 0 [] coupled.tail
  have copying : (measureReady shape
      { state with consumer := .sizing (.readBuff count) state.ring.tail [] 0 } (.readBuff count)
        state.ring.tail [] 0).consumer = .copying (.readBuff count) queue.length state.ring.tail
          [] [] (min queue.length count) := by
    have least : (if queue.length < count then queue.length else count) =
        min queue.length count := by
      split <;> omega
    simp only [measureReady, coupled.ready coupled.tail, least]
  have kept : (measureReady shape
      { state with consumer := .sizing (.readBuff count) state.ring.tail [] 0 } (.readBuff count)
        state.ring.tail [] 0).producer = state.producer := rfl
  have ends : state.readBuff shape count =
      ((consumeAll shape (count + 1) (measureReady shape
        { state with consumer := .sizing (.readBuff count) state.ring.tail [] 0 } (.readBuff count)
          state.ring.tail [] 0)).lastTake.buff,
        consumeAll shape (count + 1) (measureReady shape
        { state with consumer := .sizing (.readBuff count) state.ring.tail [] 0 } (.readBuff count)
          state.ring.tail [] 0)) := rfl
  generalize measureReady shape _ _ _ _ _ = begun at measured copying kept ends
  obtain ⟨after, last, ran, reached, read, done, same⟩ := consumeAll_copying measured copying
    (count - min queue.length count)
  have least := Nat.min_le_right queue.length count
  rw [show min queue.length count + 1 + (count - min queue.length count) = count + 1 by omega] at ran
  rw [List.length_nil, Nat.zero_add] at reached read
  have front : queue.take (min queue.length count) = queue.take count := by
    rw [Nat.min_comm, ← List.take_take, List.take_length]
  have back : queue.drop (min queue.length count) = queue.drop count := by
    rcases Nat.le_total queue.length count with all | some
    · rw [Nat.min_eq_left all, List.drop_length, List.drop_of_length_le all]
    · rw [Nat.min_eq_right some]
  rw [front] at read
  rw [back] at reached
  rw [ends, ran]
  exact ⟨read, ⟨⟨last, reached⟩, by rw [same, kept, outside], done⟩⟩

/-- **`readAvailable` alone** returns the number of elements. -/
theorem Quiet.readAvailable (quiet : Quiet shape state queue) :
    (state.readAvailable shape).1 = queue.length ∧
      Quiet shape (state.readAvailable shape).2 queue := by
  obtain ⟨⟨first, coupled⟩, outside, -⟩ := quiet
  have loaded : Coupled shape
      { state with consumer := .sizing .readAvailable state.ring.tail [] 0 } first queue :=
    coupled.consumed coupled.tail
  have measured := loaded.measureReady .readAvailable 0 [] coupled.tail
  refine ⟨?_, ⟨⟨first, measured⟩, outside, rfl⟩⟩
  have seen := coupled.ready coupled.tail
  have ends : (state.readAvailable shape).1 = ((state.takes ++
      [(⟨.readAvailable, sub64 state.ring.head state.ring.tail, [], 0⟩ : TakeRecord Elem)]).getLast?.getD
        ⟨.readAvailable, 0, [], 0⟩).available := rfl
  rw [ends, List.getLast?_concat, Option.getD_some, seen]

end RingState

namespace Receiver

/-- `Ringbuffer<uint8_t, 16384>`. -/
def ringShape : RingShape := ⟨14, by decide⟩

theorem size_ringShape : ringShape.size = ringCapacity := rfl

/-- The inner loop of `PCIeLinkMcmq::recv_thread` on its ring buffer; the number bounds its rounds. -/
def drainRing (receiver : Receiver) : Nat → RingState UInt8 → Option Nat →
    Except Fault (Receiver × RingState UInt8)
  | 0, _, _ => throw .endless
  | fuel + 1, state, lastLen =>
    let (available, measured) := state.readAvailable ringShape
    match lastLen with
    | none =>
      if 2 < available then
        let (bytes, stated) := measured.readBuff ringShape 2
        let len := beValue bytes
        let (left, again) := stated.readAvailable ringShape
        if left < len then drainRing receiver fuel again (some len)
        else do
          let (payload, rest) := again.readBuff ringShape len
          let next ← receiver.dispatch payload
          drainRing next fuel rest none
      else pure (receiver, measured)
    | some len =>
      if len ≤ available then do
        let (payload, rest) := measured.readBuff ringShape len
        let next ← receiver.dispatch payload
        drainRing next fuel rest none
      else pure (receiver, measured)

/-- One wake-up with a chunk of bytes. No more than two rounds are made for each byte. -/
def wakeUpRing (receiver : Receiver) (state : RingState UInt8) (chunk : List UInt8) :
    Except Fault (Receiver × RingState UInt8) :=
  receiver.drainRing (2 * ringShape.size + 1) (state.writeBuff ringShape chunk) none

/-- A wake-up for each chunk. -/
def wakeUpsRing (receiver : Receiver) (state : RingState UInt8) :
    List (List UInt8) → Except Fault (Receiver × RingState UInt8)
  | [] => pure (receiver, state)
  | chunk :: chunks => do
    let (next, left) ← receiver.wakeUpRing state chunk
    next.wakeUpsRing left chunks

/-- The ring buffer ends as the list of bytes does. -/
def Agrees (onRing : Except Fault (Receiver × RingState UInt8))
    (onList : Except Fault (Receiver × List UInt8)) : Prop :=
  match onRing, onList with
  | .ok (receiver, state), .ok (other, ring) => receiver = other ∧ RingState.Quiet ringShape state ring
  | .error fault, .error other => fault = other
  | _, _ => False

theorem agrees_bind {Value : Type} {first : Except Fault Value}
    {onRing : Value → Except Fault (Receiver × RingState UInt8)}
    {onList : Value → Except Fault (Receiver × List UInt8)}
    (each : ∀ value, Agrees (onRing value) (onList value)) :
    Agrees (first >>= onRing) (first >>= onList) := by
  cases first with
  | error fault => rfl
  | ok value => exact each value

/-- **The loop on the ring buffer** does what the loop on the list does. -/
theorem drainRing_agrees {receiver : Receiver} {state : RingState UInt8} {ring : List UInt8}
    (quiet : RingState.Quiet ringShape state ring) {lastLen : Option Nat} {fuel : Nat}
    (enough : 2 * ring.length + (if lastLen.isSome then 1 else 0) < fuel) :
    Agrees (receiver.drainRing fuel state lastLen) (receiver.drain ring lastLen) := by
  induction fuel generalizing receiver state ring lastLen with
  | zero => exact absurd enough (Nat.not_lt_zero _)
  | succ fuel ih =>
    obtain ⟨available, measured⟩ := quiet.readAvailable
    unfold drain
    rw [drainRing]
    simp only [available]
    cases lastLen with
    | none =>
      by_cases some : 2 < ring.length
      · obtain ⟨bytes, stated⟩ := measured.readBuff 2
        obtain ⟨left, again⟩ := stated.readAvailable
        simp only [if_pos some, bytes, left]
        have fewer : 2 * (ring.drop 2).length + 4 = 2 * ring.length := by
          rw [List.length_drop]
          omega
        simp only [Option.isSome_none, Bool.false_eq_true, if_false] at enough
        by_cases short : (ring.drop 2).length < beValue (ring.take 2)
        · simp only [if_pos short]
          exact ih again (by simp only [Option.isSome_some, if_true]; omega)
        · obtain ⟨payload, rest⟩ := again.readBuff (beValue (ring.take 2))
          simp only [if_neg short, payload]
          refine agrees_bind fun next => ih rest ?_
          rw [List.length_drop]
          simp only [Option.isSome_none, Bool.false_eq_true, if_false]
          omega
      · simp only [if_neg some]
        exact ⟨rfl, measured⟩
    | some len =>
      simp only [Option.isSome_some, if_true] at enough
      by_cases whole : len ≤ ring.length
      · obtain ⟨payload, rest⟩ := measured.readBuff len
        simp only [if_pos whole, payload]
        refine agrees_bind fun next => ih rest ?_
        rw [List.length_drop]
        simp only [Option.isSome_none, Bool.false_eq_true, if_false]
        omega
      · simp only [if_neg whole]
        exact ⟨rfl, measured⟩

/-- **One wake-up** on the ring buffer does what it does on the list. -/
theorem wakeUpRing_agrees {receiver : Receiver} {state : RingState UInt8} {ring : List UInt8}
    (quiet : RingState.Quiet ringShape state ring) (chunk : List UInt8) :
    Agrees (receiver.wakeUpRing state chunk) (receiver.wakeUp ring chunk) := by
  have written := quiet.writeBuff chunk
  have bound : (ring ++ chunk.take (ringShape.size - ring.length)).length ≤ ringShape.size := by
    obtain ⟨first, coupled⟩ := written.coupled
    exact coupled.fits
  refine drainRing_agrees written ?_
  simp only [Option.isSome_none, Bool.false_eq_true, if_false, Nat.add_zero]
  omega

/-- **The receiving thread on its ring buffer**: whatever chunks arrive, it ends as it does on a list
of bytes, with the same members and the same frames handled, and what is left in the list is what is
left between the indexes. -/
theorem wakeUpsRing_eq (receiver : Receiver) (dataBuff : Nat → UInt8) (chunks : List (List UInt8)) :
    (receiver.wakeUpsRing (.fresh dataBuff) chunks).map
      (fun ended => (ended.1, ended.2.contents ringShape)) = receiver.wakeUps [] chunks := by
  have agrees : ∀ {receiver : Receiver} {state : RingState UInt8} {ring : List UInt8},
      RingState.Quiet ringShape state ring →
      Agrees (receiver.wakeUpsRing state chunks) (receiver.wakeUps ring chunks) := by
    induction chunks with
    | nil => exact fun quiet => ⟨rfl, quiet⟩
    | cons chunk chunks ih =>
      intro receiver state ring quiet
      have woke : Agrees (receiver.wakeUpRing state chunk) (receiver.wakeUp ring chunk) :=
        wakeUpRing_agrees quiet chunk
      rw [wakeUpsRing, wakeUps]
      cases onRing : receiver.wakeUpRing state chunk with
      | error fault =>
        cases onList : receiver.wakeUp ring chunk with
        | error other =>
          rw [onRing, onList] at woke
          exact woke
        | ok other =>
          rw [onRing, onList] at woke
          exact woke.elim
      | ok ended =>
        cases onList : receiver.wakeUp ring chunk with
        | error other =>
          rw [onRing, onList] at woke
          exact woke.elim
        | ok other =>
          rw [onRing, onList] at woke
          obtain ⟨next, left⟩ := ended
          obtain ⟨same, rest⟩ := other
          obtain ⟨rfl, still⟩ := woke
          exact ih still
  have ends : Agrees (receiver.wakeUpsRing (.fresh dataBuff) chunks) (receiver.wakeUps [] chunks) :=
    agrees (RingState.quiet_fresh dataBuff)
  cases onRing : receiver.wakeUpsRing (.fresh dataBuff) chunks with
  | error fault =>
    cases onList : receiver.wakeUps [] chunks with
    | error other =>
      rw [onRing, onList] at ends
      exact congrArg Except.error ends
    | ok other =>
      rw [onRing, onList] at ends
      exact ends.elim
  | ok ended =>
    cases onList : receiver.wakeUps [] chunks with
    | error other =>
      rw [onRing, onList] at ends
      exact ends.elim
    | ok other =>
      rw [onRing, onList] at ends
      obtain ⟨next, state⟩ := ended
      obtain ⟨same, rest⟩ := other
      obtain ⟨rfl, still⟩ := ends
      show Except.ok (next, state.contents ringShape) = Except.ok (next, rest)
      rw [still.contents_eq]

end Receiver

end McmqHost
