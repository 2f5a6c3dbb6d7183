import McmqHost.Link.Ringbuffer

/-!
# What the calls of a ring buffer return

The elements that the calls on the producer's side took over are those that were published, and the
elements that the calls on the consumer's side read are those that were taken off, in the same order.
A call that returns fewer elements than it was asked for saw that there was no more room, or nothing
more to read.
-/

namespace McmqHost

variable {Elem : Type}

/-- The elements that a call took over. -/
def PutRecord.kept (record : PutRecord Elem) : List Elem := record.put.buff.take record.written

/-- A call took over what it could: as much as there was room for when it looked, or in several
rounds, everything or until there was no room. -/
def PutRecord.Fair (record : PutRecord Elem) (history : List (Fifo.Action Elem)) : Prop :=
  match record.put with
  | .writeBuffCallback buff _ => record.written = buff.length ∨
      record.written < buff.length ∧ record.available = 0 ∧ .room 0 ∈ history
  | put => record.written = min put.buff.length record.available ∧ .room record.available ∈ history

/-- How many elements a call asks for at most. -/
def Take.asked : Take → Nat
  | .remove => 1
  | .removeCount cnt => cnt
  | .removeInto => 1
  | .readBuff count => count
  | .readBuffCallback count _ => count
  | _ => 0

/-- The call reads the elements that it takes off. -/
def Take.reads : Take → Bool
  | .removeInto => true
  | .readBuff _ => true
  | .readBuffCallback _ _ => true
  | _ => false

/-- A call took off what it could: as much as there was when it looked, or in several rounds,
everything or until there was nothing. -/
def TakeRecord.Fair (record : TakeRecord Elem) (history : List (Fifo.Action Elem)) : Prop :=
  record.buff.length = (if record.take.reads then record.count else 0) ∧
  match record.take with
  | .readBuffCallback count _ => record.count = count ∨
      record.count < count ∧ record.available = 0 ∧ .ready 0 ∈ history
  | .consumerClear => record.count = record.available
  | take => record.count = min take.asked record.available ∧ .ready record.available ∈ history

/-- The elements of the running call that are published. -/
def Producer.sent : Producer Elem → List Elem
  | .sizing put _ written _ => put.buff.take written
  | .copying put _ _ chunk written _ => put.buff.take (written - chunk.length)
  | _ => []

/-- The elements that the running call has taken off. -/
def Consumer.got : Consumer Elem → List Elem
  | .sizing _ _ buff _ => buff
  | .copying _ _ _ chunk buff _ => buff.take (buff.length - chunk.length)
  | _ => []

/-- The running call on the producer's side is on its way to a fair end. -/
def Producer.Serving (history : List (Fifo.Action Elem)) : Producer Elem → Prop
  | .sizing put _ written toWrite => written + toWrite ≤ put.buff.length ∧
      match put with
      | .writeBuffCallback buff _ => written < buff.length
      | _ => written = 0
  | .copying put available _ chunk written toWrite => written + toWrite ≤ put.buff.length ∧
      put.buff.take written = put.buff.take (written - chunk.length) ++ chunk ∧
      chunk.length ≤ written ∧
      match put with
      | .writeBuffCallback _ _ => True
      | _ => written + toWrite = min put.buff.length available ∧ .room available ∈ history
  | _ => True

/-- The running call on the consumer's side is on its way to a fair end. -/
def Consumer.Serving (history : List (Fifo.Action Elem)) (tail : Nat) : Consumer Elem → Prop
  | .sizing take _ buff toRead =>
      match take with
      | .readBuffCallback count _ => buff.length < count ∧ buff.length + toRead ≤ count
      | _ => buff = []
  | .copying take available _ chunk buff toRead => take.reads ∧ (∃ earlier, buff = earlier ++ chunk) ∧
      match take with
      | .readBuffCallback count _ => buff.length + toRead ≤ count
      | take => buff.length + toRead = min take.asked available ∧ .ready available ∈ history
  | .skipping take available target => take.reads = false ∧
      match take with
      | .readBuffCallback _ _ => False
      | .consumerClear => sub64 target tail = available
      | take => sub64 target tail = min take.asked available ∧ .ready available ∈ history
  | _ => True

/-- All calls are fair, and their elements are those of the history. -/
structure RingState.Served (state : RingState Elem) : Prop where
  /-- The running call on the producer's side. -/
  producer : state.producer.Serving state.history
  /-- The running call on the consumer's side. -/
  consumer : state.consumer.Serving state.history state.ring.tail
  /-- The calls on the producer's side. -/
  puts : ∀ record ∈ state.puts, record.Fair state.history
  /-- The calls on the consumer's side. -/
  takes : ∀ record ∈ state.takes, record.Fair state.history
  /-- The elements that were published. -/
  pushed : Fifo.pushed state.history = state.puts.flatMap PutRecord.kept ++ state.producer.sent
  /-- The elements that were read. -/
  popped : Fifo.popped state.history = state.takes.flatMap TakeRecord.buff ++ state.consumer.got
  /-- The number of elements that were taken off. -/
  taken : Fifo.taken state.history =
    (state.takes.map TakeRecord.count).sum + state.consumer.got.length

theorem PutRecord.Fair.mono {record : PutRecord Elem} {history more : List (Fifo.Action Elem)}
    (fair : record.Fair history) (subset : history ⊆ more) : record.Fair more := by
  obtain ⟨put, available, written⟩ := record
  cases put <;> first
    | exact ⟨fair.1, subset fair.2⟩
    | exact fair.imp id fun short => ⟨short.1, short.2.1, subset short.2.2⟩

theorem TakeRecord.Fair.mono {record : TakeRecord Elem} {history more : List (Fifo.Action Elem)}
    (fair : record.Fair history) (subset : history ⊆ more) : record.Fair more := by
  obtain ⟨take, available, buff, count⟩ := record
  obtain ⟨read, fair⟩ := fair
  refine ⟨read, ?_⟩
  cases take <;> first
    | exact ⟨fair.1, subset fair.2⟩
    | exact fair.imp id fun short => ⟨short.1, short.2.1, subset short.2.2⟩
    | exact fair

theorem Producer.Serving.mono {producer : Producer Elem} {history more : List (Fifo.Action Elem)}
    (serving : producer.Serving history) (subset : history ⊆ more) : producer.Serving more := by
  cases producer with
  | idle => trivial
  | entered put => trivial
  | sizing put tmpHead written toWrite => exact serving
  | copying put available tmpHead chunk written toWrite =>
    obtain ⟨within, split, some, fair⟩ := serving
    refine ⟨within, split, some, ?_⟩
    cases put <;> first | exact ⟨fair.1, subset fair.2⟩ | trivial

theorem Consumer.Serving.mono {consumer : Consumer Elem} {history more : List (Fifo.Action Elem)}
    {tail : Nat} (serving : consumer.Serving history tail) (subset : history ⊆ more) :
    consumer.Serving more tail := by
  cases consumer with
  | idle => trivial
  | entered take => trivial
  | sizing take tmpTail buff toRead => exact serving
  | copying take available tmpTail chunk buff toRead =>
    obtain ⟨reads, split, fair⟩ := serving
    refine ⟨reads, split, ?_⟩
    cases take <;> first | exact ⟨fair.1, subset fair.2⟩ | exact fair
  | skipping take available target =>
    obtain ⟨reads, fair⟩ := serving
    refine ⟨reads, ?_⟩
    cases take <;> first | exact ⟨fair.1, subset fair.2⟩ | exact fair

namespace RingState

variable {shape : RingShape} {state after : RingState Elem} {first : Nat} {queue : List Elem}

/-- A new ring buffer has served no call. -/
theorem served_fresh (dataBuff : Nat → Elem) : Served (fresh dataBuff) where
  producer := trivial
  consumer := trivial
  puts := by simp [fresh]
  takes := by simp [fresh]
  pushed := rfl
  popped := rfl
  taken := rfl

/-- An access that neither appends nor takes elements that are read. -/
theorem Served.noted (served : Served state) {action : Fifo.Action Elem}
    (pushed : action.pushed = []) (popped : action.popped = []) (taken : action.taken = 0) :
    Served (state.note action) where
  producer := served.producer.mono (List.subset_append_left _ _)
  consumer := served.consumer.mono (List.subset_append_left _ _)
  puts := fun record listed => (served.puts record listed).mono (List.subset_append_left _ _)
  takes := fun record listed => (served.takes record listed).mono (List.subset_append_left _ _)
  pushed := by
    show Fifo.pushed (state.history ++ [action]) = _
    rw [Fifo.pushed_concat, pushed, List.append_nil]
    exact served.pushed
  popped := by
    show Fifo.popped (state.history ++ [action]) = _
    rw [Fifo.popped_concat, popped, List.append_nil]
    exact served.popped
  taken := by
    show Fifo.taken (state.history ++ [action]) = _
    rw [Fifo.taken_concat, taken, Nat.add_zero]
    exact served.taken

/-- The producer goes on with its call. -/
theorem Served.producing (served : Served state) {producer : Producer Elem}
    (serving : producer.Serving state.history) (sent : producer.sent = state.producer.sent) :
    Served { state with producer := producer } :=
  { served with
    producer := serving
    pushed := by
      rw [sent]
      exact served.pushed }

/-- A call on the producer's side returns. -/
theorem Served.putDone (served : Served state) {put : Put Elem} {available written : Nat}
    (fair : PutRecord.Fair ⟨put, available, written⟩ state.history)
    (kept : put.buff.take written = state.producer.sent) :
    Served (state.putDone put available written) :=
  { served with
    producer := trivial
    puts := by
      intro record listed
      rcases List.mem_append.mp listed with earlier | last
      · exact served.puts record earlier
      · obtain rfl := List.mem_singleton.mp last
        exact fair
    pushed := by
      show Fifo.pushed state.history =
        (state.puts ++ [(⟨put, available, written⟩ : PutRecord Elem)]).flatMap PutRecord.kept ++ []
      rw [served.pushed, ← kept, List.flatMap_append, List.append_nil]
      simp [PutRecord.kept] }

/-- The consumer goes on with its call. -/
theorem Served.consuming (served : Served state) {consumer : Consumer Elem}
    (serving : consumer.Serving state.history state.ring.tail)
    (got : consumer.got = state.consumer.got) : Served { state with consumer := consumer } :=
  { served with
    consumer := serving
    popped := by
      rw [got]
      exact served.popped
    taken := by
      rw [got]
      exact served.taken }

/-- A call on the consumer's side returns. -/
theorem Served.takeDone (served : Served state) {take : Take} {available count : Nat}
    {buff : List Elem} (fair : TakeRecord.Fair ⟨take, available, buff, count⟩ state.history)
    (got : buff = state.consumer.got) (all : count = buff.length) :
    Served (state.takeDone take available buff count) :=
  { served with
    consumer := trivial
    takes := by
      intro record listed
      rcases List.mem_append.mp listed with earlier | last
      · exact served.takes record earlier
      · obtain rfl := List.mem_singleton.mp last
        exact fair
    popped := by
      show Fifo.popped state.history =
        (state.takes ++ [(⟨take, available, buff, count⟩ : TakeRecord Elem)]).flatMap TakeRecord.buff ++ []
      rw [served.popped, ← got, List.flatMap_append, List.append_nil]
      simp
    taken := by
      show Fifo.taken state.history =
        ((state.takes ++ [(⟨take, available, buff, count⟩ : TakeRecord Elem)]).map
          TakeRecord.count).sum + 0
      rw [served.taken, ← got, ← all]
      simp }

/-- The head of a loop that writes. -/
theorem Served.putRound (served : Served state) {buff : List Elem}
    {countToCallback available tmpHead written toWrite : Nat}
    (within : written + toWrite ≤ buff.length) (sent : buff.take written = state.producer.sent) :
    Served (state.putRound (.writeBuffCallback buff countToCallback) available tmpHead written
      toWrite) := by
  unfold RingState.putRound
  split
  · rename_i more
    exact served.producing ⟨within, more⟩ sent
  · rename_i all
    have whole : written = buff.length := Nat.le_antisymm (by omega) (Nat.le_of_not_lt all)
    exact served.putDone (.inl whole) sent

theorem Served.loadHead (served : Served state) {put : Put Elem}
    (entered : state.producer = .entered put) : Served (state.loadHead put) := by
  have nothing : [] = state.producer.sent := by
    rw [entered]
    rfl
  cases put with
  | insert data => exact served.producing ⟨Nat.zero_le _, rfl⟩ nothing
  | writeBuff buff => exact served.producing ⟨Nat.zero_le _, rfl⟩ nothing
  | writeBuffCallback buff countToCallback =>
    refine served.putRound ?_ nothing
    split <;> omega
  | writeAvailable => exact served.producing ⟨Nat.zero_le _, rfl⟩ nothing

/-- **The producer measures the room**, and returns or begins to copy. -/
theorem Served.measureRoom (served : Served state) (coupled : Coupled shape state first queue)
    {put : Put Elem} {tmpHead written toWrite : Nat}
    (sizing : state.producer = .sizing put tmpHead written toWrite) :
    Served (state.measureRoom shape put tmpHead written toWrite) := by
  have relies := coupled.producer
  have serving := served.producer
  have sent : put.buff.take written = state.producer.sent := by rw [sizing, Producer.sent]
  rw [sizing] at relies serving
  have used := coupled.used relies
  have room : sub64 shape.size queue.length = shape.size - queue.length :=
    sub64_size coupled.fits
  have bound := coupled.fits
  have seen : Served (state.note (.room (shape.size - queue.length))) := served.noted rfl rfl rfl
  have listed : .room (shape.size - queue.length) ∈
      (state.note (.room (shape.size - queue.length))).history :=
    List.mem_append_right _ List.mem_cons_self
  cases put with
  | insert data =>
    obtain ⟨-, rfl⟩ := serving
    simp only [RingState.measureRoom, used, room]
    split
    · rename_i full
      exact seen.putDone ⟨by simp [full, Put.buff], listed⟩ sent
    · refine seen.producing ⟨?_, rfl, Nat.le_refl _, ?_, listed⟩ sent
      · simp [Put.buff]
      · simp only [Put.buff, List.length_singleton]
        omega
  | writeBuff buff =>
    obtain ⟨-, rfl⟩ := serving
    simp only [RingState.measureRoom, used, room]
    refine seen.producing ⟨?_, rfl, Nat.le_refl _, ?_, listed⟩ sent
    · simp only [Put.buff]
      split <;> omega
    · simp only [Put.buff]
      split <;> omega
  | writeBuffCallback buff countToCallback =>
    obtain ⟨within, more⟩ := serving
    simp only [RingState.measureRoom, used, room]
    split
    · rename_i full
      exact seen.putDone (.inr ⟨more, full, full ▸ listed⟩) sent
    · refine seen.producing ⟨?_, by simp, Nat.zero_le _, trivial⟩ sent
      simp only [Put.buff] at within ⊢
      split <;> omega
  | writeAvailable =>
    obtain ⟨-, rfl⟩ := serving
    simp only [RingState.measureRoom, used, room]
    exact seen.putDone ⟨by simp [Put.buff], listed⟩ sent

/-- **The producer publishes** its chunk, and returns or goes on. -/
theorem Served.publishHead (served : Served state) {put : Put Elem}
    {available tmpHead written : Nat} {chunk : List Elem}
    (copying : state.producer = .copying put available tmpHead chunk written 0) :
    Served (state.publishHead put available tmpHead chunk written) := by
  have serving := served.producer
  have sent : put.buff.take (written - chunk.length) = state.producer.sent := by
    rw [copying]
    rfl
  rw [copying] at serving
  obtain ⟨within, split, some, fair⟩ := serving
  have front : state.history ⊆ state.history ++ [.push chunk] := List.subset_append_left _ _
  have whole : put.buff.take (written - ([] : List Elem).length) = put.buff.take written := rfl
  -- the call with nothing left to publish
  have published : Served { ({ state with ring := { state.ring with head := tmpHead } }.note
      (.push chunk)) with producer := .copying put available tmpHead [] written 0 } := {
    producer := by
      refine ⟨within, (List.append_nil _).symm, Nat.zero_le _, ?_⟩
      cases put <;> first | exact ⟨fair.1, front fair.2⟩ | trivial
    consumer := served.consumer.mono front
    puts := fun record listed => (served.puts record listed).mono front
    takes := fun record listed => (served.takes record listed).mono front
    pushed := by
      show Fifo.pushed (state.history ++ [.push chunk]) = _
      rw [Fifo.pushed_concat, served.pushed, ← sent, List.append_assoc]
      exact congrArg _ split.symm
    popped := by
      show Fifo.popped (state.history ++ [.push chunk]) = _
      rw [Fifo.popped_concat, served.popped]
      exact List.append_nil _
    taken := by
      show Fifo.taken (state.history ++ [.push chunk]) = _
      rw [Fifo.taken_concat]
      exact served.taken }
  cases put with
  | insert data => exact published.putDone ⟨fair.1, front fair.2⟩ whole.symm
  | writeBuff buff => exact published.putDone ⟨fair.1, front fair.2⟩ whole.symm
  | writeBuffCallback buff countToCallback =>
    simp only [Put.buff, Nat.add_zero] at within
    exact published.putRound (by omega) whole.symm
  | writeAvailable => exact published.putDone ⟨fair.1, front fair.2⟩ whole.symm

/-- **The producer's next access** serves its call. -/
theorem Served.produce (served : Served state) (coupled : Coupled shape state first queue)
    (stepped : state.produce shape = some after) : Served after := by
  have serving := served.producer
  unfold RingState.produce at stepped
  split at stepped
  case h_1 => contradiction
  case h_2 put entered =>
    cases stepped
    exact served.loadHead entered
  case h_3 put tmpHead written toWrite sizing =>
    cases stepped
    exact served.measureRoom coupled sizing
  case h_4 put available tmpHead chunk written copying =>
    cases stepped
    exact served.publishHead copying
  case h_5 put available tmpHead chunk written toWrite copying =>
    rw [copying] at serving
    obtain ⟨within, split, some, fair⟩ := serving
    split at stepped
    case h_1 => contradiction
    case h_2 data offered =>
      cases stepped
      have more : written + 1 - (chunk ++ [data]).length = written - chunk.length := by
        rw [List.length_append, List.length_singleton]
        omega
      have taken : put.buff.take (written + 1) = put.buff.take written ++ [data] := by
        rw [List.take_add_one, offered]
        rfl
      have goes : Producer.Serving state.history (.copying put available (u64 (tmpHead + 1))
          (chunk ++ [data]) (written + 1) toWrite) := by
        refine ⟨by omega, ?_, ?_, ?_⟩
        · rw [more, taken, split, List.append_assoc]
        · rw [List.length_append, List.length_singleton]
          omega
        · cases put <;> first | exact ⟨by omega, fair.2⟩ | trivial
      have stored : Served { state with ring := { state.ring with
        dataBuff := Function.update state.ring.dataBuff (shape.slot tmpHead) data } } :=
        { served with }
      refine stored.producing goes ?_
      show put.buff.take (written + 1 - (chunk ++ [data]).length) = state.producer.sent
      rw [more, copying]
      rfl

/-- The head of a loop that reads. -/
theorem Served.takeRound (served : Served state) {count countToCallback available tmpTail toRead : Nat}
    {buff : List Elem} (within : buff.length + toRead ≤ count) (got : buff = state.consumer.got) :
    Served (state.takeRound (.readBuffCallback count countToCallback) count available tmpTail buff
      toRead) := by
  unfold RingState.takeRound
  split
  · rename_i more
    exact served.consuming ⟨more, within⟩ got
  · rename_i all
    have whole : buff.length = count := Nat.le_antisymm (by omega) (Nat.le_of_not_lt all)
    exact served.takeDone ⟨rfl, .inl whole⟩ got rfl

theorem Served.loadTail (served : Served state) {take : Take}
    (entered : state.consumer = .entered take) : Served (state.loadTail take) := by
  have nothing : [] = state.consumer.got := by
    rw [entered]
    rfl
  cases take with
  | consumerClear => exact served.consuming ⟨rfl, rfl⟩ nothing
  | readBuffCallback count countToCallback =>
    refine served.takeRound ?_ nothing
    rw [List.length_nil]
    split <;> omega
  | remove => exact served.consuming rfl nothing
  | removeCount cnt => exact served.consuming rfl nothing
  | removeInto => exact served.consuming rfl nothing
  | readBuff count => exact served.consuming rfl nothing
  | peek => exact served.consuming rfl nothing
  | «at» index => exact served.consuming rfl nothing
  | readAvailable => exact served.consuming rfl nothing

/-- **The consumer measures the length**, and returns or goes on. -/
theorem Served.measureReady (served : Served state) (coupled : Coupled shape state first queue)
    {take : Take} {tmpTail toRead : Nat} {buff : List Elem}
    (sizing : state.consumer = .sizing take tmpTail buff toRead) :
    Served (state.measureReady shape take tmpTail buff toRead) := by
  have relies := coupled.consumer
  have serving := served.consumer
  have got : buff = state.consumer.got := by
    rw [sizing]
    rfl
  rw [sizing] at relies serving
  have ready := coupled.ready relies
  have empty := coupled.empty relies
  have short := coupled.short
  have seen : Served (state.note (.ready queue.length)) := served.noted rfl rfl rfl
  have listed : .ready queue.length ∈ (state.note (.ready queue.length)).history :=
    List.mem_append_right _ List.mem_cons_self
  have still : state.ring.tail = tmpTail := coupled.tail.trans relies.symm
  -- how far the tail moves when elements are skipped
  have skipped : ∀ {count : Nat}, count < 2 ^ 64 →
      sub64 (u64 (tmpTail + count)) state.ring.tail = count := by
    intro count fits
    rw [coupled.tail, relies, u64_u64_add, sub64_counts fits]
  cases take with
  | remove =>
    simp only [Consumer.Serving] at serving
    subst serving
    simp only [RingState.measureReady, ready, empty]
    split
    · rename_i none
      exact seen.takeDone ⟨rfl, by simp [none], listed⟩ got rfl
    · rename_i some
      refine seen.consuming ⟨rfl, ?_, listed⟩ got
      rw [Take.asked, Nat.min_eq_left (Nat.one_le_iff_ne_zero.mpr some)]
      exact skipped (by decide)
  | removeCount cnt =>
    simp only [Consumer.Serving] at serving
    subst serving
    simp only [RingState.measureReady, ready]
    have least : (if queue.length < cnt then queue.length else cnt) = min cnt queue.length := by
      split <;> omega
    refine seen.consuming ⟨rfl, ?_, listed⟩ got
    rw [least]
    exact skipped (by omega)
  | removeInto =>
    simp only [Consumer.Serving] at serving
    subst serving
    simp only [RingState.measureReady, ready, empty]
    split
    · rename_i none
      exact seen.takeDone ⟨rfl, by simp [none], listed⟩ got rfl
    · rename_i some
      refine seen.consuming ⟨rfl, ⟨[], rfl⟩, ?_, listed⟩ got
      exact (Nat.min_eq_left (Nat.one_le_iff_ne_zero.mpr some)).symm
  | readBuff count =>
    simp only [Consumer.Serving] at serving
    subst serving
    simp only [RingState.measureReady, ready]
    refine seen.consuming ⟨rfl, ⟨[], rfl⟩, ?_, listed⟩ got
    simp only [Take.asked, List.length_nil]
    split <;> omega
  | readBuffCallback count countToCallback =>
    obtain ⟨more, within⟩ := serving
    simp only [RingState.measureReady, ready]
    have all : buff.take (buff.length - ([] : List Elem).length) = buff := List.take_length
    split
    · rename_i none
      exact seen.takeDone ⟨rfl, .inr ⟨more, none, none ▸ listed⟩⟩ got rfl
    · refine seen.consuming ⟨rfl, ⟨buff, (List.append_nil _).symm⟩, ?_⟩ (all.trans got)
      show buff.length + (if queue.length < toRead then queue.length else toRead) ≤ count
      split <;> omega
  | peek =>
    simp only [Consumer.Serving] at serving
    subst serving
    simp only [RingState.measureReady, ready]
    refine (seen.noted rfl rfl rfl).takeDone ⟨rfl, ?_, List.mem_append_left _ listed⟩ got rfl
    exact (Nat.zero_min _).symm
  | «at» index =>
    simp only [Consumer.Serving] at serving
    subst serving
    simp only [RingState.measureReady, ready]
    refine (seen.noted rfl rfl rfl).takeDone ⟨rfl, ?_, List.mem_append_left _ listed⟩ got rfl
    exact (Nat.zero_min _).symm
  | readAvailable =>
    simp only [Consumer.Serving] at serving
    subst serving
    simp only [RingState.measureReady, ready]
    exact seen.takeDone ⟨rfl, (Nat.zero_min _).symm, listed⟩ got rfl
  | consumerClear =>
    simp only [RingState.measureReady, ready]
    exact seen

/-- **The consumer publishes** that it read its chunk, and returns or goes on. -/
theorem Served.publishTail (served : Served state) {take : Take} {available tmpTail : Nat}
    {chunk buff : List Elem}
    (copying : state.consumer = .copying take available tmpTail chunk buff 0) :
    Served (state.publishTail take available tmpTail chunk buff) := by
  have serving := served.consumer
  have got : buff.take (buff.length - chunk.length) = state.consumer.got := by
    rw [copying]
    rfl
  rw [copying] at serving
  obtain ⟨reads, ⟨earlier, rfl⟩, fair⟩ := serving
  have before : (earlier ++ chunk).take ((earlier ++ chunk).length - chunk.length) = earlier := by
    rw [List.length_append, Nat.add_sub_cancel, List.take_left]
  rw [before] at got
  have front : state.history ⊆ state.history ++ [.pop chunk] := List.subset_append_left _ _
  have all : (earlier ++ chunk).take ((earlier ++ chunk).length - ([] : List Elem).length) =
      earlier ++ chunk := List.take_length
  -- the call with nothing left to publish
  have published : Served { ({ state with ring := { state.ring with tail := tmpTail } }.note
      (.pop chunk)) with consumer := .copying take available tmpTail [] (earlier ++ chunk) 0 } := {
    producer := served.producer.mono front
    consumer := by
      refine ⟨reads, ⟨_, (List.append_nil _).symm⟩, ?_⟩
      cases take <;> first | exact ⟨fair.1, front fair.2⟩ | exact fair
    puts := fun record listed => (served.puts record listed).mono front
    takes := fun record listed => (served.takes record listed).mono front
    pushed := by
      show Fifo.pushed (state.history ++ [.pop chunk]) = _
      rw [Fifo.pushed_concat, served.pushed]
      exact List.append_nil _
    popped := by
      show Fifo.popped (state.history ++ [.pop chunk]) = _
      rw [Fifo.popped_concat, served.popped, ← got, List.append_assoc]
      exact congrArg _ all.symm
    taken := by
      show Fifo.taken (state.history ++ [.pop chunk]) = _ + (List.take _ _).length
      rw [Fifo.taken_concat, served.taken, ← got, all, List.length_append, Nat.add_assoc]
      rfl }
  have whole : earlier ++ chunk =
      (Consumer.copying take available tmpTail [] (earlier ++ chunk) 0).got := all.symm
  cases take with
  | readBuffCallback count countToCallback =>
    have within : (earlier ++ chunk).length + 0 ≤ count := fair
    exact published.takeRound (by omega) whole
  | removeInto => exact published.takeDone ⟨rfl, fair.1, front fair.2⟩ whole rfl
  | readBuff count => exact published.takeDone ⟨rfl, fair.1, front fair.2⟩ whole rfl
  | remove => cases reads
  | removeCount cnt => cases reads
  | peek => cases reads
  | «at» index => cases reads
  | readAvailable => cases reads
  | consumerClear => cases reads

/-- **The consumer's next access** serves its call. -/
theorem Served.consume (served : Served state) (coupled : Coupled shape state first queue)
    (stepped : state.consume shape = some after) : Served after := by
  have serving := served.consumer
  unfold RingState.consume at stepped
  split at stepped
  case h_1 => contradiction
  case h_2 take entered =>
    cases stepped
    exact served.loadTail entered
  case h_3 take tmpTail buff toRead sizing =>
    cases stepped
    exact served.measureReady coupled sizing
  case h_4 take available tmpTail chunk buff copying =>
    cases stepped
    exact served.publishTail copying
  case h_5 take available tmpTail chunk buff toRead copying =>
    cases stepped
    rw [copying] at serving
    obtain ⟨reads, ⟨earlier, rfl⟩, fair⟩ := serving
    generalize state.ring.dataBuff (shape.slot tmpTail) = elem
    have goes : Consumer.Serving state.history state.ring.tail (.copying take available
        (u64 (tmpTail + 1)) (chunk ++ [elem]) (earlier ++ chunk ++ [elem]) toRead) := by
      have more : (earlier ++ chunk ++ [elem]).length = (earlier ++ chunk).length + 1 :=
        List.length_append
      refine ⟨reads, ⟨earlier, List.append_assoc _ _ _⟩, ?_⟩
      cases take with
      | readBuffCallback count countToCallback =>
        show (earlier ++ chunk ++ [elem]).length + toRead ≤ count
        have within : (earlier ++ chunk).length + (toRead + 1) ≤ count := fair
        omega
      | removeInto => exact ⟨by rw [more]; exact (Nat.succ_add_eq_add_succ _ _).trans fair.1, fair.2⟩
      | readBuff count =>
        exact ⟨by rw [more]; exact (Nat.succ_add_eq_add_succ _ _).trans fair.1, fair.2⟩
      | remove => cases reads
      | removeCount cnt => cases reads
      | peek => cases reads
      | «at» index => cases reads
      | readAvailable => cases reads
      | consumerClear => cases reads
    refine served.consuming goes ?_
    have front : (earlier ++ chunk).take ((earlier ++ chunk).length - chunk.length) = earlier := by
      rw [List.length_append, Nat.add_sub_cancel, List.take_left]
    have later : (earlier ++ chunk ++ [elem]).take ((earlier ++ chunk ++ [elem]).length -
        (chunk ++ [elem]).length) = earlier := by
      rw [List.append_assoc, List.length_append, Nat.add_sub_cancel, List.take_left]
    rw [copying]
    exact later.trans front.symm
  case h_6 take available target skipping =>
    cases stepped
    rw [skipping] at serving
    obtain ⟨reads, fair⟩ := serving
    have front : state.history ⊆ state.history ++ [.drop (sub64 target state.ring.tail)] :=
      List.subset_append_left _ _
    have nothing : [] = state.consumer.got := by
      rw [skipping]
      rfl
    generalize sub64 target state.ring.tail = count at fair front
    exact {
      producer := served.producer.mono front
      consumer := trivial
      puts := fun record listed => (served.puts record listed).mono front
      takes := by
        intro record listed
        rcases List.mem_append.mp listed with earlier | last
        · exact (served.takes record earlier).mono front
        · obtain rfl := List.mem_singleton.mp last
          refine ⟨by simp [reads], ?_⟩
          cases take <;> first | exact ⟨fair.1, front fair.2⟩ | exact fair.elim | exact fair
      pushed := by
        show Fifo.pushed (state.history ++ [.drop _]) = _
        rw [Fifo.pushed_concat, served.pushed]
        exact List.append_nil _
      popped := by
        show Fifo.popped (state.history ++ [.drop _]) = List.flatMap _ (_ ++ [_]) ++ []
        rw [Fifo.popped_concat, served.popped, ← nothing, List.flatMap_append]
        rfl
      taken := by
        show Fifo.taken (state.history ++ [.drop _]) = (List.map _ (_ ++ [_])).sum + 0
        rw [Fifo.taken_concat, served.taken, ← nothing, List.map_append, List.sum_append]
        simp [Fifo.Action.taken, RingState.note] }

/-- **One move** serves the calls. -/
theorem Served.step {move : Move Elem} (served : Served state)
    (coupled : Coupled shape state first queue)
    (stepped : (machine shape).step state move = some after) : Served after := by
  cases move with
  | call put =>
    simp only [machine] at stepped
    split at stepped
    · rename_i outside
      cases stepped
      exact served.producing trivial (by rw [outside]; rfl)
    · contradiction
  | produce => exact served.produce coupled stepped
  | request take =>
    simp only [machine] at stepped
    split at stepped
    · rename_i outside
      cases stepped
      exact served.consuming trivial (by rw [outside]; rfl)
    · contradiction
  | consume => exact served.consume coupled stepped

/-- Every reached state has served its calls, and stands for a queue. -/
theorem reached {dataBuff : Nat → Elem} (reaches : (machine shape).Reaches (fresh dataBuff) state) :
    (∃ first queue, Coupled shape state first queue) ∧ Served state := by
  refine reaches.invariant
    (fun state => (∃ first queue, Coupled shape state first queue) ∧ Served state) ?_
    ⟨⟨0, [], coupled_fresh dataBuff⟩, served_fresh dataBuff⟩
  rintro before move after ⟨⟨first, queue, coupled⟩, served⟩ stepped
  exact ⟨coupled.step stepped, served.step coupled stepped⟩

/-- **First in, first out, in any order of accesses**: the accesses of both sides amount to a history
of a bounded queue that ends with the elements between the indexes; the elements it appended are
those that the producer's calls took over, and the elements it took off are those that the consumer's
calls read. -/
theorem fifo_in_any_order {dataBuff : Nat → Elem}
    (reaches : (machine shape).Reaches (fresh dataBuff) state) :
    Fifo.Run shape.size state.history (state.contents shape) ∧
      Fifo.pushed state.history = state.puts.flatMap PutRecord.kept ++ state.producer.sent ∧
      Fifo.popped state.history = state.takes.flatMap TakeRecord.buff ++ state.consumer.got := by
  obtain ⟨⟨first, queue, coupled⟩, served⟩ := reached reaches
  rw [coupled.contents_eq]
  exact ⟨coupled.ran, served.pushed, served.popped⟩

/-- What is looked at in the run over two slots. -/
def ringView (state : RingState Nat) : List (PutRecord Nat) × List (TakeRecord Nat) × List Nat :=
  (state.puts, state.takes, state.contents twoSlots)

/-- Two elements were taken over, and the first of them is read, while two calls are running. -/
theorem fifo_in_any_order_two : ∃ last,
    (machine twoSlots).run (fresh fun _ => 0) twoMoves = some last ∧
      Fifo.pushed last.history = [7, 8] ∧ Fifo.popped last.history = [7] ∧
      Fifo.Run 2 last.history [8] := by
  have performed : ((machine twoSlots).run (fresh fun _ => 0) twoMoves).map
      (fun last => (ringView last, last.producer.sent, last.consumer.got)) =
        some (([⟨.writeBuff [7, 8, 9], 2, 2⟩], [⟨.readBuff 1, 2, [7], 1⟩], [8]), [], []) := by
    decide
  obtain ⟨last, ran, seen⟩ := Option.map_eq_some_iff.mp performed
  simp only [ringView, Prod.mk.injEq] at seen
  obtain ⟨⟨puts, takes, contents⟩, sent, got⟩ := seen
  obtain ⟨history, pushed, popped⟩ := fifo_in_any_order ⟨_, ran⟩
  rw [puts, sent] at pushed
  rw [takes, got] at popped
  rw [contents] at history
  exact ⟨last, ran, pushed, popped, history⟩

/-- **Nothing is lost between calls**: when no call is running, and the consumer only read elements,
those that it read and those between the indexes are the elements that were taken over. -/
theorem delivered_in_order {dataBuff : Nat → Elem}
    (reaches : (machine shape).Reaches (fresh dataBuff) state) (outside : state.producer = .idle)
    (done : state.consumer = .idle)
    (reading : ∀ record ∈ state.takes, record.take.reads ∨ record.count = 0) :
    state.puts.flatMap PutRecord.kept =
      state.takes.flatMap TakeRecord.buff ++ state.contents shape := by
  obtain ⟨⟨first, queue, coupled⟩, served⟩ := reached reaches
  have pushed := served.pushed
  have popped := served.popped
  have taken := served.taken
  rw [outside] at pushed
  rw [done] at popped taken
  have shown : ∀ records : List (TakeRecord Elem), (∀ record ∈ records, record ∈ state.takes) →
      (records.map TakeRecord.count).sum = (records.flatMap TakeRecord.buff).length := by
    intro records
    induction records with
    | nil => exact fun _ => rfl
    | cons record rest ih =>
      intro listed
      have all := (served.takes record (listed record List.mem_cons_self)).1
      have length : record.buff.length = record.count := by
        rcases reading record (listed record List.mem_cons_self) with reads | none
        · rw [all, if_pos reads]
        · rw [all, none, ite_self]
      rw [List.map_cons, List.sum_cons, List.flatMap_cons, List.length_append, length,
        ih fun other later => listed other (List.mem_cons_of_mem _ later)]
  have whole : Fifo.taken state.history = (Fifo.popped state.history).length := by
    rw [taken, popped, shown state.takes fun _ listed => listed]
    simp [Consumer.got]
  have conserved := coupled.ran.popped_append whole
  rw [pushed, popped] at conserved
  simpa [Producer.sent, Consumer.got, coupled.contents_eq] using conserved

/-- The run over two slots, until all calls have returned. -/
def twoReturned : List (Move Nat) :=
  twoMoves ++ List.replicate 2 .produce ++ List.replicate 2 .consume

/-- Both elements that were taken over first are read in order, and the third is left. -/
theorem delivered_in_order_two : ∃ last,
    (machine twoSlots).run (fresh fun _ => 0) twoReturned = some last ∧
      last.takes.flatMap TakeRecord.buff = [7, 8] ∧
      last.puts.flatMap PutRecord.kept = [7, 8] ++ last.contents twoSlots := by
  have performed : ((machine twoSlots).run (fresh fun _ => 0) twoReturned).map
      (fun last => (last.producer, last.consumer, last.takes)) =
        some (.idle, .idle, [⟨.readBuff 1, 2, [7], 1⟩, ⟨.removeInto, 1, [8], 1⟩]) := by
    decide
  obtain ⟨last, ran, seen⟩ := Option.map_eq_some_iff.mp performed
  simp only [Prod.mk.injEq] at seen
  obtain ⟨outside, done, takes⟩ := seen
  have delivered := delivered_in_order ⟨_, ran⟩ outside done (by rw [takes]; decide)
  rw [takes] at delivered
  exact ⟨last, ran, by rw [takes]; rfl, delivered⟩

/-- **Short counts are honest**: a call took over as many elements as there was room for when it
looked, or read as many as there were; with several rounds, all that it was asked for or until the
ring was full, or empty, when it looked. -/
theorem short_counts {dataBuff : Nat → Elem}
    (reaches : (machine shape).Reaches (fresh dataBuff) state) :
    (∀ record ∈ state.puts, record.Fair state.history) ∧
      ∀ record ∈ state.takes, record.Fair state.history := by
  obtain ⟨-, served⟩ := reached reaches
  exact ⟨served.puts, served.takes⟩

/-- The first call took over two of three elements, and the ring had room for two. -/
theorem short_counts_two : ∃ last,
    (machine twoSlots).run (fresh fun _ => 0) twoMoves = some last ∧
      PutRecord.Fair ⟨.writeBuff [7, 8, 9], 2, 2⟩ last.history := by
  have performed : ((machine twoSlots).run (fresh fun _ => 0) twoMoves).map (·.puts) =
      some [⟨.writeBuff [7, 8, 9], 2, 2⟩] := by
    decide
  obtain ⟨last, ran, puts⟩ := Option.map_eq_some_iff.mp performed
  refine ⟨last, ran, (short_counts ⟨_, ran⟩).1 _ ?_⟩
  rw [puts]
  exact List.mem_cons_self

end RingState

end McmqHost
