import McmqHost.Base.Fifo
import McmqHost.Base.Machine
import McmqHost.Base.Ring
import McmqHost.Basic

/-!
# The ring buffer

A `Ringbuffer` is shared by one producer and one consumer without a lock. Each side works on copies
of the two indexes and publishes its own index when it is done; the indexes count without end and
wrap with their type. Here each access of an index and of a slot is a step of its own, and the steps
of the two sides interleave in any way. The order of the steps is that of the acquire and release
barriers; that no slot is accessed by both sides between them is part of what is proved.
-/

namespace McmqHost

/-- `buffer_size` as the static assertions admit it: a power of two, half the range of an index at
most. -/
structure RingShape where
  /-- The logarithm of the size. -/
  log : Nat
  /-- The mask is at most half of the greatest index. -/
  fits : log < 64

/-- `buffer_size`. -/
def RingShape.size (shape : RingShape) : Nat := 2 ^ shape.log

/-- `index & buffer_mask`. -/
def RingShape.slot (shape : RingShape) (index : Nat) : Nat := index &&& (shape.size - 1)

/-- A difference of indexes. -/
def sub64 (first second : Nat) : Nat := u64 (first + (2 ^ 64 - second))

/-- `Ringbuffer`. -/
structure Ringbuffer (Elem : Type) where
  /-- `head`. -/
  head : Nat
  /-- `tail`. -/
  tail : Nat
  /-- `data_buff`. -/
  dataBuff : Nat → Elem

/-- A call on the producer's side. -/
inductive Put (Elem : Type)
  /-- `insert`, also of the element that a callback returns. -/
  | insert (data : Elem)
  /-- `writeBuff`. -/
  | writeBuff (buff : List Elem)
  /-- `writeBuff` with a callback. -/
  | writeBuffCallback (buff : List Elem) (countToCallback : Nat)
  /-- `writeAvailable` and `isFull`. -/
  | writeAvailable
deriving DecidableEq, Repr

/-- A call on the consumer's side. -/
inductive Take
  /-- `remove` of one element without reading it. -/
  | remove
  /-- `remove` of a number of elements without reading them. -/
  | removeCount (cnt : Nat)
  /-- `remove` of one element that is read. -/
  | removeInto
  /-- `readBuff`. -/
  | readBuff (count : Nat)
  /-- `readBuff` with a callback. -/
  | readBuffCallback (count countToCallback : Nat)
  /-- `peek`. -/
  | peek
  /-- `at`. -/
  | at (index : Nat)
  /-- `readAvailable` and `isEmpty`. -/
  | readAvailable
  /-- `consumerClear`. -/
  | consumerClear
deriving DecidableEq, Repr

/-- The elements that a call offers. -/
def Put.buff {Elem : Type} : Put Elem → List Elem
  | .insert data => [data]
  | .writeBuff buff => buff
  | .writeBuffCallback buff _ => buff
  | .writeAvailable => []

/-- Where the producer is. -/
inductive Producer (Elem : Type)
  /-- Outside. -/
  | idle
  /-- Before it loads `head`. -/
  | entered (put : Put Elem)
  /-- Before it loads `tail`. -/
  | sizing (put : Put Elem) (tmpHead written toWrite : Nat)
  /-- Before it stores the next element, or `head` behind the last; the chunk is what it stored since
  it loaded `tail`. -/
  | copying (put : Put Elem) (available tmpHead : Nat) (chunk : List Elem) (written toWrite : Nat)
deriving DecidableEq, Repr

/-- Where the consumer is. -/
inductive Consumer (Elem : Type)
  /-- Outside. -/
  | idle
  /-- Before its first load. -/
  | entered (take : Take)
  /-- Before it loads `head`. -/
  | sizing (take : Take) (tmpTail : Nat) (buff : List Elem) (toRead : Nat)
  /-- Before it loads the next element, or stores `tail` behind the last; the chunk is what it loaded
  since it loaded `head`. -/
  | copying (take : Take) (available tmpTail : Nat) (chunk buff : List Elem) (toRead : Nat)
  /-- Before it stores `tail` without having read. -/
  | skipping (take : Take) (available target : Nat)
deriving DecidableEq, Repr

/-- A call on the producer's side that returned. -/
structure PutRecord (Elem : Type) where
  /-- The call. -/
  put : Put Elem
  /-- The room that it saw last. -/
  available : Nat
  /-- How many elements it wrote. -/
  written : Nat
deriving DecidableEq, Repr

/-- A call on the consumer's side that returned. -/
structure TakeRecord (Elem : Type) where
  /-- The call. -/
  take : Take
  /-- The number of elements that it saw last. -/
  available : Nat
  /-- The elements that it read. -/
  buff : List Elem
  /-- How many elements it took off. -/
  count : Nat
deriving DecidableEq, Repr

/-- A ring buffer with both sides, and what happened so far. -/
structure RingState (Elem : Type) where
  /-- The members. -/
  ring : Ringbuffer Elem
  /-- The producer. -/
  producer : Producer Elem
  /-- The consumer. -/
  consumer : Consumer Elem
  /-- What each access amounts to, in order. -/
  history : List (Fifo.Action Elem)
  /-- The producer's calls that returned. -/
  puts : List (PutRecord Elem)
  /-- The consumer's calls that returned. -/
  takes : List (TakeRecord Elem)

namespace RingState

variable {Elem : Type}

/-- `Ringbuffer::Ringbuffer`, with what the slots hold. -/
def fresh (dataBuff : Nat → Elem) : RingState Elem :=
  ⟨⟨0, 0, dataBuff⟩, .idle, .idle, [], [], []⟩

/-- Record what an access amounts to. -/
def note (state : RingState Elem) (action : Fifo.Action Elem) : RingState Elem :=
  { state with history := state.history ++ [action] }

/-- A call on the producer's side returns. -/
def putDone (state : RingState Elem) (put : Put Elem) (available written : Nat) : RingState Elem :=
  { state with producer := .idle, puts := state.puts ++ [⟨put, available, written⟩] }

/-- A call on the consumer's side returns. -/
def takeDone (state : RingState Elem) (take : Take) (available : Nat) (buff : List Elem)
    (count : Nat) : RingState Elem :=
  { state with consumer := .idle, takes := state.takes ++ [⟨take, available, buff, count⟩] }

/-- The head of the loop of `writeBuff` with a callback. -/
def putRound (state : RingState Elem) (put : Put Elem) (available tmpHead written toWrite : Nat) :
    RingState Elem :=
  if written < put.buff.length then { state with producer := .sizing put tmpHead written toWrite }
  else state.putDone put available written

/-- The head of the loop of `readBuff` with a callback. -/
def takeRound (state : RingState Elem) (take : Take) (count available tmpTail : Nat)
    (buff : List Elem) (toRead : Nat) : RingState Elem :=
  if buff.length < count then { state with consumer := .sizing take tmpTail buff toRead }
  else state.takeDone take available buff buff.length

/-- The producer's load of `head`. -/
def loadHead (state : RingState Elem) (put : Put Elem) : RingState Elem :=
  match put with
  | .writeBuffCallback buff countToCallback =>
    state.putRound put 0 state.ring.head 0
      (if countToCallback ≠ 0 ∧ countToCallback < buff.length then countToCallback else buff.length)
  | _ => { state with producer := .sizing put state.ring.head 0 0 }

/-- The producer's load of `tail`. -/
def measureRoom (shape : RingShape) (state : RingState Elem) (put : Put Elem)
    (tmpHead written toWrite : Nat) : RingState Elem :=
  let used := sub64 tmpHead state.ring.tail
  let available := sub64 shape.size used
  let seen := state.note (.room available)
  match put with
  | .insert _ =>
    if used = shape.size then seen.putDone put available 0
    else { seen with producer := .copying put available tmpHead [] 0 1 }
  | .writeBuff buff => { seen with
      producer := .copying put available tmpHead [] 0
        (if available < buff.length then available else buff.length) }
  | .writeBuffCallback _ _ =>
    if available = 0 then seen.putDone put available written
    else { seen with
      producer := .copying put available tmpHead [] written
        (if available < toWrite then available else toWrite) }
  | .writeAvailable => seen.putDone put available 0

/-- The producer's store of `head`. -/
def publishHead (state : RingState Elem) (put : Put Elem) (available tmpHead : Nat)
    (chunk : List Elem) (written : Nat) : RingState Elem :=
  let stored := { state with ring := { state.ring with head := tmpHead } }.note (.push chunk)
  match put with
  | .writeBuffCallback buff _ => stored.putRound put available tmpHead written (buff.length - written)
  | _ => stored.putDone put available written

/-- The producer's next access. -/
def produce (shape : RingShape) (state : RingState Elem) : Option (RingState Elem) :=
  match state.producer with
  | .idle => none
  | .entered put => some (state.loadHead put)
  | .sizing put tmpHead written toWrite => some (state.measureRoom shape put tmpHead written toWrite)
  | .copying put available tmpHead chunk written 0 =>
    some (state.publishHead put available tmpHead chunk written)
  | .copying put available tmpHead chunk written (toWrite + 1) =>
    match put.buff[written]? with
    | none => none
    | some data => some { state with
        ring := { state.ring with
          dataBuff := Function.update state.ring.dataBuff (shape.slot tmpHead) data }
        producer := .copying put available (u64 (tmpHead + 1)) (chunk ++ [data]) (written + 1) toWrite }

/-- The consumer's first load. -/
def loadTail (state : RingState Elem) (take : Take) : RingState Elem :=
  match take with
  | .consumerClear => { state with
      consumer := .skipping take (sub64 state.ring.head state.ring.tail) state.ring.head }
  | .readBuffCallback count countToCallback =>
    state.takeRound take count 0 state.ring.tail []
      (if countToCallback ≠ 0 ∧ countToCallback < count then countToCallback else count)
  | _ => { state with consumer := .sizing take state.ring.tail [] 0 }

/-- The consumer's load of `head`. -/
def measureReady (shape : RingShape) (state : RingState Elem) (take : Take) (tmpTail : Nat)
    (buff : List Elem) (toRead : Nat) : RingState Elem :=
  let available := sub64 state.ring.head tmpTail
  let seen := state.note (.ready available)
  match take with
  | .remove =>
    if tmpTail = state.ring.head then seen.takeDone take available buff 0
    else { seen with consumer := .skipping take available (u64 (tmpTail + 1)) }
  | .removeCount cnt => { seen with
      consumer := .skipping take available
        (u64 (tmpTail + if available < cnt then available else cnt)) }
  | .removeInto =>
    if tmpTail = state.ring.head then seen.takeDone take available buff 0
    else { seen with consumer := .copying take available tmpTail [] buff 1 }
  | .readBuff count => { seen with
      consumer := .copying take available tmpTail [] buff
        (if available < count then available else count) }
  | .readBuffCallback _ _ =>
    if available = 0 then seen.takeDone take available buff buff.length
    else { seen with
      consumer := .copying take available tmpTail [] buff
        (if available < toRead then available else toRead) }
  | .peek => (seen.note (.look 0 (if tmpTail = state.ring.head then none
      else some (state.ring.dataBuff (shape.slot tmpTail))))).takeDone take available buff 0
  | .at index => (seen.note (.look index (if available ≤ index then none
      else some (state.ring.dataBuff (shape.slot (u64 (tmpTail + index))))))).takeDone take
        available buff 0
  | .readAvailable => seen.takeDone take available buff 0
  | .consumerClear => seen

/-- The consumer's store of `tail` behind what it read. -/
def publishTail (state : RingState Elem) (take : Take) (available tmpTail : Nat)
    (chunk buff : List Elem) : RingState Elem :=
  let stored := { state with ring := { state.ring with tail := tmpTail } }.note (.pop chunk)
  match take with
  | .readBuffCallback count _ =>
    stored.takeRound take count available tmpTail buff (count - buff.length)
  | _ => stored.takeDone take available buff buff.length

/-- The consumer's next access. -/
def consume (shape : RingShape) (state : RingState Elem) : Option (RingState Elem) :=
  match state.consumer with
  | .idle => none
  | .entered take => some (state.loadTail take)
  | .sizing take tmpTail buff toRead => some (state.measureReady shape take tmpTail buff toRead)
  | .copying take available tmpTail chunk buff 0 =>
    some (state.publishTail take available tmpTail chunk buff)
  | .copying take available tmpTail chunk buff (toRead + 1) =>
    let elem := state.ring.dataBuff (shape.slot tmpTail)
    some { state with
      consumer := .copying take available (u64 (tmpTail + 1)) (chunk ++ [elem]) (buff ++ [elem]) toRead }
  | .skipping take available target =>
    let count := sub64 target state.ring.tail
    some (({ state with ring := { state.ring with tail := target } }.note (.drop count)).takeDone take
      available [] count)

/-- What happens next. -/
inductive Move (Elem : Type)
  /-- The producer calls. -/
  | call (put : Put Elem)
  /-- The producer accesses memory. -/
  | produce
  /-- The consumer calls. -/
  | request (take : Take)
  /-- The consumer accesses memory. -/
  | consume
deriving DecidableEq, Repr

/-- Producer and consumer in any order. -/
def machine (shape : RingShape) : Machine (RingState Elem) (Move Elem) where
  step state
    | .call put =>
      match state.producer with
      | .idle => some { state with producer := .entered put }
      | _ => none
    | .produce => state.produce shape
    | .request take =>
      match state.consumer with
      | .idle => some { state with consumer := .entered take }
      | _ => none
    | .consume => state.consume shape

/-- The elements between the indexes. -/
def contents (shape : RingShape) (state : RingState Elem) : List Elem :=
  (List.range (sub64 state.ring.head state.ring.tail)).map fun index =>
    state.ring.dataBuff (shape.slot (state.ring.tail + index))

/-! ## Indexes -/

variable {shape : RingShape}

theorem size_le : shape.size ≤ 2 ^ 63 :=
  Nat.pow_le_pow_right (by decide) (Nat.le_of_lt_succ shape.fits)

/-- The mask takes an index that wrapped to the slot of its use. -/
theorem slot_u64 (use : Nat) : shape.slot (u64 use) = use % shape.size := by
  have divides : shape.size ∣ 2 ^ 64 := Nat.pow_dvd_pow 2 (Nat.le_of_lt shape.fits)
  unfold RingShape.slot u64
  rw [show shape.size - 1 = 2 ^ shape.log - 1 from rfl, Nat.and_two_pow_sub_one_eq_mod]
  exact Nat.mod_mod_of_dvd use divides

/-- The difference of two indexes that wrapped is that of the counts. -/
theorem sub64_counts {first count : Nat} (short : count < 2 ^ 64) :
    sub64 (u64 (first + count)) (u64 first) = count := by
  unfold sub64 u64
  omega

/-- The room behind a number of elements. -/
theorem sub64_size {count : Nat} (fits : count ≤ shape.size) :
    sub64 shape.size count = shape.size - count := by
  have bound : shape.size ≤ 2 ^ 63 := size_le
  unfold sub64 u64
  omega

/-! ## Coupling with a queue -/

/-- What the producer relies on, behind the elements that it published. -/
def Producing (shape : RingShape) (data : Nat → Elem) (edge room : Nat) : Producer Elem → Prop
  | .idle => True
  | .entered _ => True
  | .sizing _ tmpHead _ _ => tmpHead = u64 edge
  | .copying _ _ tmpHead chunk _ toWrite => tmpHead = u64 (edge + chunk.length) ∧
      chunk.length + toWrite ≤ room ∧ Ring.Holds shape.size data edge chunk

/-- What the consumer relies on, from the first element on. -/
def Consuming (first : Nat) (queue : List Elem) : Consumer Elem → Prop
  | .idle => True
  | .entered _ => True
  | .sizing _ tmpTail _ _ => tmpTail = u64 first
  | .copying _ _ tmpTail chunk _ toRead => tmpTail = u64 (first + chunk.length) ∧
      chunk <+: queue ∧ chunk.length + toRead ≤ queue.length
  | .skipping _ _ target => ∃ count ≤ queue.length, target = u64 (first + count)

/-- The members stand for a queue behind a number of elements that were taken off, and the history
led to it. -/
structure Coupled (shape : RingShape) (state : RingState Elem) (first : Nat) (queue : List Elem) :
    Prop where
  /-- `tail` counts the elements that were taken off. -/
  tail : state.ring.tail = u64 first
  /-- `head` counts those that were published. -/
  head : state.ring.head = u64 (first + queue.length)
  /-- They fit the buffer. -/
  fits : queue.length ≤ shape.size
  /-- The slots between hold the queue. -/
  holds : Ring.Holds shape.size state.ring.dataBuff first queue
  /-- The producer's copies. -/
  producer : Producing shape state.ring.dataBuff (first + queue.length)
    (shape.size - queue.length) state.producer
  /-- The consumer's copies. -/
  consumer : Consuming first queue state.consumer
  /-- The accesses amount to a history of the queue. -/
  ran : Fifo.Run shape.size state.history queue

/-- The elements between the indexes are those of the queue. -/
theorem Coupled.contents_eq {state : RingState Elem} {first : Nat} {queue : List Elem}
    (coupled : Coupled shape state first queue) : state.contents shape = queue := by
  have short : queue.length < 2 ^ 64 :=
    Nat.lt_of_le_of_lt coupled.fits (Nat.lt_of_le_of_lt size_le (by decide))
  apply List.ext_getElem?
  intro index
  unfold contents
  rw [coupled.head, coupled.tail, sub64_counts short]
  by_cases below : index < queue.length
  · rw [coupled.holds index below, List.getElem?_map, List.getElem?_range below]
    have slot : shape.slot (u64 first + index) = (first + index) % shape.size := by
      have same : shape.slot (u64 first + index) = shape.slot (u64 (u64 first + index)) := by
        rw [slot_u64]
        exact Nat.and_two_pow_sub_one_eq_mod _ _
      rw [same, u64_u64_add, slot_u64]
    rw [Option.map_some, slot]
  · have beyond : queue.length ≤ index := Nat.le_of_not_lt below
    rw [List.getElem?_eq_none beyond, List.getElem?_eq_none (by simpa using beyond)]

/-- A new ring buffer is empty. -/
theorem coupled_fresh (dataBuff : Nat → Elem) : Coupled shape (fresh dataBuff) 0 [] where
  tail := rfl
  head := rfl
  fits := Nat.zero_le _
  holds := .nil
  producer := trivial
  consumer := trivial
  ran := .nil

section Coupled

variable {state after : RingState Elem} {first : Nat} {queue : List Elem}

/-- The producer goes on, and may return. -/
theorem Coupled.produced (coupled : Coupled shape state first queue) {producer : Producer Elem}
    {puts : List (PutRecord Elem)} (relies : Producing shape state.ring.dataBuff
      (first + queue.length) (shape.size - queue.length) producer) :
    Coupled shape { state with producer := producer, puts := puts } first queue :=
  { coupled with producer := relies }

/-- The consumer goes on, and may return. -/
theorem Coupled.consumed (coupled : Coupled shape state first queue) {consumer : Consumer Elem}
    {takes : List (TakeRecord Elem)} (relies : Consuming first queue consumer) :
    Coupled shape { state with consumer := consumer, takes := takes } first queue :=
  { coupled with consumer := relies }

/-- An access that only looks. -/
theorem Coupled.noted (coupled : Coupled shape state first queue) {action : Fifo.Action Elem}
    (looked : Fifo.Step shape.size queue action queue) :
    Coupled shape (state.note action) first queue :=
  { coupled with ran := coupled.ran.snoc looked }

theorem Coupled.putRound (coupled : Coupled shape state first queue) {put : Put Elem}
    {available tmpHead written toWrite : Nat} (copied : tmpHead = u64 (first + queue.length)) :
    Coupled shape (state.putRound put available tmpHead written toWrite) first queue := by
  unfold RingState.putRound
  split
  · exact coupled.produced copied
  · exact coupled.produced trivial

theorem Coupled.takeRound (coupled : Coupled shape state first queue) {take : Take}
    {count available tmpTail toRead : Nat} {buff : List Elem} (copied : tmpTail = u64 first) :
    Coupled shape (state.takeRound take count available tmpTail buff toRead) first queue := by
  unfold RingState.takeRound
  split
  · exact coupled.consumed copied
  · exact coupled.consumed trivial

theorem Coupled.loadHead (coupled : Coupled shape state first queue) (put : Put Elem) :
    Coupled shape (state.loadHead put) first queue := by
  cases put with
  | insert data => exact coupled.produced coupled.head
  | writeBuff buff => exact coupled.produced coupled.head
  | writeBuffCallback buff countToCallback => exact coupled.putRound coupled.head
  | writeAvailable => exact coupled.produced coupled.head

theorem Coupled.short (coupled : Coupled shape state first queue) : queue.length < 2 ^ 64 :=
  Nat.lt_of_le_of_lt coupled.fits (Nat.lt_of_le_of_lt size_le (by decide))

/-- The producer sees how many elements there are. -/
theorem Coupled.used (coupled : Coupled shape state first queue) {tmpHead : Nat}
    (copied : tmpHead = u64 (first + queue.length)) :
    sub64 tmpHead state.ring.tail = queue.length := by
  rw [copied, coupled.tail, sub64_counts coupled.short]

/-- **The producer measures the room** that there is at this moment. -/
theorem Coupled.measureRoom (coupled : Coupled shape state first queue) (put : Put Elem)
    {tmpHead : Nat} (written toWrite : Nat) (copied : tmpHead = u64 (first + queue.length)) :
    Coupled shape (state.measureRoom shape put tmpHead written toWrite) first queue := by
  have used := coupled.used copied
  have room : sub64 shape.size queue.length = shape.size - queue.length := sub64_size coupled.fits
  have seen := coupled.noted (.room (Nat.add_sub_cancel' coupled.fits))
  have begun : ∀ {written toWrite : Nat}, toWrite ≤ shape.size - queue.length →
      Producing shape state.ring.dataBuff (first + queue.length) (shape.size - queue.length)
        (.copying put (shape.size - queue.length) tmpHead [] written toWrite) :=
    fun fits => ⟨copied, by simpa using fits, .nil⟩
  cases put with
  | insert data =>
    simp only [RingState.measureRoom, used, room]
    split
    · exact seen.produced trivial
    · rename_i unfull
      have bound := coupled.fits
      exact seen.produced (begun (by omega))
  | writeBuff buff =>
    simp only [RingState.measureRoom, used, room]
    refine seen.produced (begun ?_)
    split <;> omega
  | writeBuffCallback buff countToCallback =>
    simp only [RingState.measureRoom, used, room]
    split
    · exact seen.produced trivial
    · refine seen.produced (begun ?_)
      split <;> omega
  | writeAvailable =>
    simp only [RingState.measureRoom, used, room]
    exact seen.produced trivial

/-- **The producer publishes** the elements that it stored. -/
theorem Coupled.publishHead (coupled : Coupled shape state first queue) (put : Put Elem)
    {available tmpHead written : Nat} {chunk : List Elem}
    (relies : Producing shape state.ring.dataBuff (first + queue.length)
      (shape.size - queue.length) (.copying put available tmpHead chunk written 0)) :
    Coupled shape (state.publishHead put available tmpHead chunk written) first (queue ++ chunk) := by
  obtain ⟨copied, room, held⟩ := relies
  have bound := coupled.fits
  have head : tmpHead = u64 (first + (queue ++ chunk).length) := by
    rw [copied, List.length_append, Nat.add_assoc]
  have consumer : Consuming first (queue ++ chunk) state.consumer := by
    have before := coupled.consumer
    cases standing : state.consumer with
    | idle => trivial
    | entered take => trivial
    | sizing take tmpTail buff toRead =>
      rw [standing] at before
      exact before
    | copying take available tmpTail read buff toRead =>
      rw [standing] at before
      obtain ⟨copied, front, some⟩ := before
      refine ⟨copied, front.trans (List.prefix_append _ _), ?_⟩
      rw [List.length_append]
      omega
    | skipping take available target =>
      rw [standing] at before
      obtain ⟨count, some, reached⟩ := before
      refine ⟨count, ?_, reached⟩
      rw [List.length_append]
      omega
  have published : ∀ (producer : Producer Elem) (puts : List (PutRecord Elem)),
      Producing shape state.ring.dataBuff (first + (queue ++ chunk).length)
        (shape.size - (queue ++ chunk).length) producer →
      Coupled shape { ({ state with ring := { state.ring with head := tmpHead } }.note
        (.push chunk)) with producer := producer, puts := puts } first (queue ++ chunk) :=
    fun producer puts relies => {
      tail := coupled.tail
      head := head
      fits := by
        rw [List.length_append]
        omega
      holds := coupled.holds.append held
      producer := relies
      consumer := consumer
      ran := coupled.ran.snoc (.push (by omega)) }
  cases put with
  | insert data => exact published _ _ trivial
  | writeBuff buff => exact published _ _ trivial
  | writeBuffCallback buff countToCallback =>
    exact (published .idle state.puts trivial).putRound head
  | writeAvailable => exact published _ _ trivial

/-- The state after the producer stored an element. -/
def store (shape : RingShape) (state : RingState Elem) (tmpHead : Nat) (data : Elem)
    (producer : Producer Elem) : RingState Elem :=
  { state with
    ring := { state.ring with
      dataBuff := Function.update state.ring.dataBuff (shape.slot tmpHead) data }
    producer := producer }

/-- The producer stores to a slot of no element. -/
theorem Coupled.stored (coupled : Coupled shape state first queue) {put : Put Elem}
    {available tmpHead written toWrite : Nat} {chunk : List Elem}
    (relies : Producing shape state.ring.dataBuff (first + queue.length)
      (shape.size - queue.length) (.copying put available tmpHead chunk written (toWrite + 1)))
    (data : Elem) :
    Coupled shape (state.store shape tmpHead data
      (.copying put available (u64 (tmpHead + 1)) (chunk ++ [data]) (written + 1) toWrite))
        first queue := by
  obtain ⟨copied, room, held⟩ := relies
  have bound := coupled.fits
  have slot : shape.slot tmpHead = (first + queue.length + chunk.length) % shape.size := by
    rw [copied, slot_u64]
  unfold store
  rw [slot]
  refine { coupled with
    holds := coupled.holds.store_apart data (by omega) (by omega)
    producer := ⟨?_, ?_, held.store_next data (by omega)⟩ }
  · rw [copied, u64_u64_add, List.length_append, Nat.add_assoc]
    rfl
  · rw [List.length_append, List.length_singleton]
    omega

/-- **The producer's next access** keeps the coupling. -/
theorem Coupled.produce (coupled : Coupled shape state first queue)
    (stepped : state.produce shape = some after) : ∃ queue, Coupled shape after first queue := by
  have relies := coupled.producer
  unfold RingState.produce at stepped
  split at stepped
  case h_1 => contradiction
  case h_2 put entered =>
    cases stepped
    exact ⟨queue, coupled.loadHead put⟩
  case h_3 put tmpHead written toWrite sizing =>
    cases stepped
    rw [sizing] at relies
    exact ⟨queue, coupled.measureRoom put _ _ relies⟩
  case h_4 put available tmpHead chunk written copying =>
    cases stepped
    rw [copying] at relies
    exact ⟨_, coupled.publishHead put relies⟩
  case h_5 put available tmpHead chunk written toWrite copying =>
    rw [copying] at relies
    split at stepped
    case h_1 => contradiction
    case h_2 data offered =>
      cases stepped
      exact ⟨queue, coupled.stored relies data⟩

theorem Coupled.loadTail (coupled : Coupled shape state first queue) (take : Take) :
    Coupled shape (state.loadTail take) first queue := by
  cases take with
  | consumerClear => exact coupled.consumed ⟨queue.length, Nat.le_refl _, coupled.head⟩
  | readBuffCallback count countToCallback => exact coupled.takeRound coupled.tail
  | remove => exact coupled.consumed coupled.tail
  | removeCount cnt => exact coupled.consumed coupled.tail
  | removeInto => exact coupled.consumed coupled.tail
  | readBuff count => exact coupled.consumed coupled.tail
  | peek => exact coupled.consumed coupled.tail
  | «at» index => exact coupled.consumed coupled.tail
  | readAvailable => exact coupled.consumed coupled.tail

/-- The element at an index, as the slots have it. -/
theorem Coupled.found (coupled : Coupled shape state first queue) {index use : Nat}
    (below : index < queue.length) (copied : use = u64 (first + index)) :
    queue[index]? = some (state.ring.dataBuff (shape.slot use)) := by
  rw [copied, slot_u64]
  exact coupled.holds index below

/-- The consumer sees how many elements there are. -/
theorem Coupled.ready (coupled : Coupled shape state first queue) {tmpTail : Nat}
    (copied : tmpTail = u64 first) : sub64 state.ring.head tmpTail = queue.length := by
  rw [copied, coupled.head, sub64_counts coupled.short]

/-- The indexes are equal exactly when the queue is empty. -/
theorem Coupled.empty (coupled : Coupled shape state first queue) {tmpTail : Nat}
    (copied : tmpTail = u64 first) : tmpTail = state.ring.head ↔ queue.length = 0 := by
  have bound := coupled.short
  rw [copied, coupled.head]
  unfold u64
  omega

/-- **The consumer measures the length** that the queue has at this moment. -/
theorem Coupled.measureReady (coupled : Coupled shape state first queue) (take : Take)
    {tmpTail : Nat} (toRead : Nat) (buff : List Elem) (copied : tmpTail = u64 first) :
    Coupled shape (state.measureReady shape take tmpTail buff toRead) first queue := by
  have ready := coupled.ready copied
  have empty := coupled.empty copied
  have seen := coupled.noted .ready
  have begun : ∀ {toRead : Nat}, toRead ≤ queue.length →
      Consuming first queue (.copying take queue.length tmpTail [] buff toRead) :=
    fun some => ⟨copied, List.nil_prefix, by simpa using some⟩
  cases take with
  | remove =>
    simp only [RingState.measureReady, ready, empty]
    split
    · exact seen.consumed trivial
    · exact seen.consumed ⟨1, by omega, by rw [copied, u64_u64_add]⟩
  | removeCount cnt =>
    simp only [RingState.measureReady, ready]
    refine seen.consumed ⟨_, ?_, by rw [copied, u64_u64_add]⟩
    split <;> omega
  | removeInto =>
    simp only [RingState.measureReady, ready, empty]
    split
    · exact seen.consumed trivial
    · exact seen.consumed (begun (by omega))
  | readBuff count =>
    simp only [RingState.measureReady, ready]
    refine seen.consumed (begun ?_)
    split <;> omega
  | readBuffCallback count countToCallback =>
    simp only [RingState.measureReady, ready]
    split
    · exact seen.consumed trivial
    · refine seen.consumed (begun ?_)
      split <;> omega
  | peek =>
    simp only [RingState.measureReady, ready, empty]
    have found : (if queue.length = 0 then none
        else some (state.ring.dataBuff (shape.slot tmpTail))) = queue[0]? := by
      split
      · rename_i none
        rw [List.getElem?_eq_none (by omega)]
      · rename_i some
        exact (coupled.found (by omega) copied).symm
    rw [found]
    exact (seen.noted .look).consumed trivial
  | «at» index =>
    simp only [RingState.measureReady, ready]
    have found : (if queue.length ≤ index then none
        else some (state.ring.dataBuff (shape.slot (u64 (tmpTail + index))))) = queue[index]? := by
      split
      · rename_i none
        rw [List.getElem?_eq_none none]
      · rename_i some
        exact (coupled.found (by omega) (by rw [copied, u64_u64_add])).symm
    rw [found]
    exact (seen.noted .look).consumed trivial
  | readAvailable =>
    simp only [RingState.measureReady, ready]
    exact seen.consumed trivial
  | consumerClear =>
    simp only [RingState.measureReady, ready]
    exact seen

/-- More room is as good for the producer. -/
theorem Producing.mono {data : Nat → Elem} {edge room more : Nat} {producer : Producer Elem}
    (relies : Producing shape data edge room producer) (grown : room ≤ more) :
    Producing shape data edge more producer := by
  cases producer with
  | idle => trivial
  | entered put => trivial
  | sizing put tmpHead written toWrite => exact relies
  | copying put available tmpHead chunk written toWrite =>
    obtain ⟨copied, fits, held⟩ := relies
    exact ⟨copied, by omega, held⟩

/-- **The consumer takes elements off.** -/
theorem Coupled.advance (coupled : Coupled shape state first queue) {count target : Nat}
    {action : Fifo.Action Elem} {consumer : Consumer Elem} {takes : List (TakeRecord Elem)}
    (some : count ≤ queue.length) (reached : target = u64 (first + count))
    (possible : Fifo.Step shape.size queue action (queue.drop count))
    (relies : Consuming (first + count) (queue.drop count) consumer) :
    Coupled shape { ({ state with ring := { state.ring with tail := target } }.note action) with
      consumer := consumer, takes := takes } (first + count) (queue.drop count) := by
  have length : first + count + (queue.drop count).length = first + queue.length := by
    rw [List.length_drop]
    omega
  have fewer : (queue.drop count).length ≤ queue.length := (List.drop_suffix _ _).length_le
  exact {
    tail := reached
    head := by
      rw [length]
      exact coupled.head
    fits := fewer.trans coupled.fits
    holds := coupled.holds.drop count
    producer := by
      rw [length]
      exact coupled.producer.mono (by omega)
    consumer := relies
    ran := coupled.ran.snoc possible }

/-- The consumer publishes that it read elements. -/
theorem Coupled.publishTail (coupled : Coupled shape state first queue) (take : Take)
    {available tmpTail : Nat} {chunk buff : List Elem}
    (relies : Consuming first queue (.copying take available tmpTail chunk buff 0)) :
    Coupled shape (state.publishTail take available tmpTail chunk buff) (first + chunk.length)
      (queue.drop chunk.length) := by
  obtain ⟨reached, ⟨rest, rfl⟩, some⟩ := relies
  have left : (chunk ++ rest).drop chunk.length = rest := List.drop_left
  have possible : Fifo.Step shape.size (chunk ++ rest) (.pop chunk)
      ((chunk ++ rest).drop chunk.length) := by
    rw [left]
    exact .pop
  have advanced : ∀ (consumer : Consumer Elem) (takes : List (TakeRecord Elem)),
      Consuming (first + chunk.length) ((chunk ++ rest).drop chunk.length) consumer →
      Coupled shape { ({ state with ring := { state.ring with tail := tmpTail } }.note
        (.pop chunk)) with consumer := consumer, takes := takes } (first + chunk.length)
          ((chunk ++ rest).drop chunk.length) :=
    fun _ _ relies => coupled.advance some reached possible relies
  cases take with
  | readBuffCallback count countToCallback =>
    exact (advanced .idle state.takes trivial).takeRound reached
  | remove => exact advanced _ _ trivial
  | removeCount cnt => exact advanced _ _ trivial
  | removeInto => exact advanced _ _ trivial
  | readBuff count => exact advanced _ _ trivial
  | peek => exact advanced _ _ trivial
  | «at» index => exact advanced _ _ trivial
  | readAvailable => exact advanced _ _ trivial
  | consumerClear => exact advanced _ _ trivial

/-- The consumer loads the next element of the queue. -/
theorem Coupled.loaded (coupled : Coupled shape state first queue) {take : Take}
    {available tmpTail toRead : Nat} {chunk buff : List Elem}
    (relies : Consuming first queue (.copying take available tmpTail chunk buff (toRead + 1))) :
    queue[chunk.length]? = some (state.ring.dataBuff (shape.slot tmpTail)) ∧
      Coupled shape { state with consumer := (.copying take available (u64 (tmpTail + 1))
        (chunk ++ [state.ring.dataBuff (shape.slot tmpTail)])
        (buff ++ [state.ring.dataBuff (shape.slot tmpTail)]) toRead) } first queue := by
  obtain ⟨copied, ⟨rest, rfl⟩, some⟩ := relies
  have below : chunk.length < (chunk ++ rest).length := by omega
  have found := coupled.found below copied
  have next := found
  rw [List.getElem?_append_right (Nat.le_refl _), Nat.sub_self] at next
  obtain ⟨behind, rfl⟩ : ∃ behind, rest =
      state.ring.dataBuff (shape.slot tmpTail) :: behind := by
    cases rest with
    | nil => cases next
    | cons head behind => exact ⟨behind, by rw [Option.some.inj next]⟩
  refine ⟨found, coupled.consumed ⟨?_, ⟨behind, by simp⟩, ?_⟩⟩
  · rw [copied, u64_u64_add, List.length_append, Nat.add_assoc]
    rfl
  · rw [List.length_append, List.length_singleton]
    omega

/-- **The consumer's next access** keeps the coupling. -/
theorem Coupled.consume (coupled : Coupled shape state first queue)
    (stepped : state.consume shape = some after) :
    ∃ first queue, Coupled shape after first queue := by
  have relies := coupled.consumer
  unfold RingState.consume at stepped
  split at stepped
  case h_1 => contradiction
  case h_2 take entered =>
    cases stepped
    exact ⟨first, queue, coupled.loadTail take⟩
  case h_3 take tmpTail buff toRead sizing =>
    cases stepped
    rw [sizing] at relies
    exact ⟨first, queue, coupled.measureReady take _ _ relies⟩
  case h_4 take available tmpTail chunk buff copying =>
    cases stepped
    rw [copying] at relies
    exact ⟨_, _, coupled.publishTail take relies⟩
  case h_5 take available tmpTail chunk buff toRead copying =>
    cases stepped
    rw [copying] at relies
    exact ⟨first, queue, (coupled.loaded relies).2⟩
  case h_6 take available target skipping =>
    cases stepped
    rw [skipping] at relies
    obtain ⟨count, some, reached⟩ := relies
    have short := coupled.short
    have dropped : sub64 target state.ring.tail = count := by
      rw [reached, coupled.tail, sub64_counts (by omega)]
    rw [dropped]
    exact ⟨_, _, coupled.advance some reached (.drop some) trivial⟩

/-- **One move** keeps the coupling. -/
theorem Coupled.step {move : Move Elem} (coupled : Coupled shape state first queue)
    (stepped : (machine shape).step state move = some after) :
    ∃ first queue, Coupled shape after first queue := by
  cases move with
  | call put =>
    simp only [machine] at stepped
    split at stepped
    · cases stepped
      exact ⟨first, queue, coupled.produced trivial⟩
    · contradiction
  | produce => exact ⟨first, coupled.produce stepped⟩
  | request take =>
    simp only [machine] at stepped
    split at stepped
    · cases stepped
      exact ⟨first, queue, coupled.consumed trivial⟩
    · contradiction
  | consume => exact coupled.consume stepped

/-- Every reached state stands for a queue. -/
theorem coupled_reached {dataBuff : Nat → Elem}
    (reaches : (machine shape).Reaches (fresh dataBuff) state) :
    ∃ first queue, Coupled shape state first queue := by
  refine reaches.invariant (fun state => ∃ first queue, Coupled shape state first queue) ?_
    ⟨0, [], coupled_fresh dataBuff⟩
  rintro before move after ⟨first, queue, coupled⟩ stepped
  exact coupled.step stepped

end Coupled

/-! ## Accesses of slots -/

/-- The slot that the producer's next access stores to. -/
def target (shape : RingShape) (state : RingState Elem) : Option Nat :=
  match state.producer with
  | .copying _ _ tmpHead _ _ (_ + 1) => some (shape.slot tmpHead)
  | _ => none

/-- The slot that the consumer's next access loads from, or hands out. -/
def source (shape : RingShape) (state : RingState Elem) : Option Nat :=
  match state.consumer with
  | .copying _ _ tmpTail _ _ (_ + 1) => some (shape.slot tmpTail)
  | .sizing .peek tmpTail _ _ => if tmpTail = state.ring.head then none else some (shape.slot tmpTail)
  | .sizing (.at index) tmpTail _ _ =>
    if sub64 state.ring.head tmpTail ≤ index then none
    else some (shape.slot (u64 (tmpTail + index)))
  | _ => none

variable {state : RingState Elem} {first : Nat} {queue : List Elem}

/-- The consumer loads from the slot of an element of the queue. -/
theorem Coupled.source_eq (coupled : Coupled shape state first queue) {slot : Nat}
    (loads : state.source shape = some slot) :
    ∃ index < queue.length, slot = (first + index) % shape.size := by
  have relies := coupled.consumer
  unfold RingState.source at loads
  split at loads
  case h_1 take available tmpTail chunk buff toRead copying =>
    rw [copying] at relies
    obtain ⟨copied, -, some⟩ := relies
    rw [copied, slot_u64] at loads
    exact ⟨chunk.length, by omega, (Option.some.inj loads).symm⟩
  case h_2 tmpTail buff toRead sizing =>
    rw [sizing] at relies
    have empty := coupled.empty relies
    split at loads
    · contradiction
    · rename_i different
      have some := mt empty.mpr different
      rw [relies, slot_u64] at loads
      exact ⟨0, by omega, (Option.some.inj loads).symm⟩
  case h_3 index tmpTail buff toRead sizing =>
    rw [sizing] at relies
    rw [coupled.ready relies] at loads
    split at loads
    · contradiction
    · rename_i some
      rw [relies, u64_u64_add, slot_u64] at loads
      exact ⟨index, by omega, (Option.some.inj loads).symm⟩
  case h_4 => contradiction

/-- **No race**: in every reached state the slot that the producer stores to next is another than the
one that the consumer loads from next. -/
theorem sides_apart {dataBuff : Nat → Elem}
    (reaches : (machine shape).Reaches (fresh dataBuff) state) {slot : Nat}
    (stores : state.target shape = some slot) : state.source shape ≠ some slot := by
  obtain ⟨first, queue, coupled⟩ := coupled_reached reaches
  have relies := coupled.producer
  intro loads
  obtain ⟨index, below, same⟩ := coupled.source_eq loads
  unfold RingState.target at stores
  split at stores
  case h_1 put available tmpHead chunk written toWrite copying =>
    rw [copying] at relies
    obtain ⟨copied, room, -⟩ := relies
    rw [copied, slot_u64, same] at stores
    have bound := coupled.fits
    exact Ring.slot_ne (by omega) (by omega) (Option.some.inj stores).symm
  case h_2 => contradiction

/-- A ring of two slots. -/
def twoSlots : RingShape := ⟨1, by decide⟩

/-- Two of three elements fit; one is read, and the consumer goes on while an element is inserted. -/
def twoMoves : List (Move Nat) :=
  .call (.writeBuff [7, 8, 9]) :: List.replicate 5 .produce ++
    .request (.readBuff 1) :: List.replicate 4 .consume ++
    [.call (.insert 5), .produce, .request .removeInto, .consume, .produce, .consume]

/-- In that run the second element is loaded from one slot while the third goes to the other. -/
theorem sides_apart_two : ∃ last, (machine twoSlots).run (fresh fun _ => 0) twoMoves = some last ∧
    last.target twoSlots = some 0 ∧ last.source twoSlots ≠ some 0 := by
  have performed : ((machine twoSlots).run (fresh fun _ => 0) twoMoves).map (target twoSlots) =
      some (some 0) := by decide
  obtain ⟨last, ran, stores⟩ := Option.map_eq_some_iff.mp performed
  exact ⟨last, ran, stores, sides_apart ⟨_, ran⟩ stores⟩

end RingState

end McmqHost
