import Mathlib.Data.List.Basic
import Mathlib.Logic.Function.Basic
import McmqHost.Base.Bytes
import McmqHost.Base.Machine
import McmqHost.Basic

/-!
# Register reads

A read enters its buffer in `read_requests` under a new id, sends the id to the device, waits
until the receiving thread has completed the entry and then erases it. Any number of
threads do so at once. Each step below is one critical section of the link, the send, or a
message of the device. While the ids in use are different, the table is exactly the reads
that have not returned, so that each completion finds the read whose id it carries.
-/

namespace McmqHost

/-- `PCIeLinkMcmq::ReadRequest`, named by the call of `setup_read_request` that made it. -/
structure ReadRequest where
  /-- Which `std::make_unique<ReadRequest>()` this is. -/
  serial : Nat
  /-- `id`. -/
  id : Nat
  /-- `buf`: the read whose buffer it points to. -/
  buf : Nat
  /-- `buflen`. -/
  buflen : Nat
  /-- `len`. -/
  len : Nat
  /-- `completed`. -/
  completed : Bool
deriving DecidableEq, Repr

/-- `std::make_unique<ReadRequest>()`. -/
def ReadRequest.make (serial : Nat) : ReadRequest := ⟨serial, 0, 0, 0, 0, false⟩

/-- Where a thread stands in `read_from_device`. -/
inductive ReadStage
  /-- Its entry is made, and the request has still to be sent. -/
  | entered
  /-- The request is sent, and the thread waits. -/
  | sent
  /-- It has read `outlen` and has still to erase the entry. -/
  | measured (outlen : Nat)
  /-- It has returned `outlen`. -/
  | returned (outlen : Nat)
deriving DecidableEq, Repr

/-- One call of `read_from_device` and what became of it. -/
structure Read where
  /-- The `ReadRequest` that `setup_read_request` returned. -/
  serial : Nat
  /-- The id that the request message carries. -/
  id : Nat
  /-- The buffer at the call; its length is `buflen`. -/
  initial : List UInt8
  /-- The buffer now. -/
  buffer : List UInt8
  /-- The thread. -/
  stage : ReadStage
  /-- The payload of the completion of its request, once it has arrived. -/
  answer : Option (List UInt8)
deriving DecidableEq, Repr

/-- The members of `PCIeLinkMcmq` for reads, and all that happened to each read. -/
structure ReadLink where
  /-- `read_id_counter`. -/
  readIdCounter : Nat
  /-- `read_requests`. -/
  readRequests : Nat → Option ReadRequest
  /-- Calls of `read_from_device`, in order of `setup_read_request`. -/
  reads : List Read
  /-- The entries erased so far, in order. -/
  erased : List Nat

/-- What the threads and the device do; a number names a read. -/
inductive ReadInput
  /-- `setup_read_request` for a buffer. -/
  | setup (buffer : List UInt8)
  /-- `send_message` of the request. -/
  | send (index : Nat)
  /-- The completion of a request that was sent. -/
  | complete (index : Nat) (payload : List UInt8)
  /-- A completion whose id is not pending. -/
  | stray (body : List UInt8)
  /-- The wait ends, and the thread reads `outlen`. -/
  | wait (index : Nat)
  /-- The thread erases the entry. -/
  | erase (index : Nat)
deriving DecidableEq, Repr

/-- `::memcpy` to the front of a buffer. -/
def memcpy (buffer bytes : List UInt8) : List UInt8 := bytes ++ buffer.drop bytes.length

namespace ReadLink

/-- The link at its start; `read_id_counter` is not initialised. -/
def create (counter : Nat) : ReadLink where
  readIdCounter := u32 counter
  readRequests _ := none
  reads := []
  erased := []

/-- `PCIeLinkMcmq::setup_read_request`; `emplace` keeps an entry that the table already has. -/
def setupReadRequest (link : ReadLink) (buffer : List UInt8) : ReadLink :=
  let id := link.readIdCounter
  let entry := (link.readRequests id).getD (.make link.reads.length)
  let req := { entry with
    id := id, buf := link.reads.length, buflen := buffer.length, completed := false }
  { link with
    readIdCounter := u32 (id + 1)
    readRequests := Function.update link.readRequests id (some req)
    reads := link.reads ++ [⟨req.serial, id, buffer, buffer, .entered, none⟩] }

/-- `PCIeLinkMcmq::complete_read_request`. -/
def completeReadRequest (link : ReadLink) (id : Nat) (payload : List UInt8) : ReadLink :=
  match link.readRequests id with
  | none => link
  | some req =>
    let outlen := min payload.length req.buflen
    { link with
      readRequests := Function.update link.readRequests id
        (some { req with len := outlen, completed := true })
      reads := link.reads.modify req.buf fun read =>
        { read with buffer := memcpy read.buffer (payload.take outlen) } }

/-- The case for `READ_COMP` in `PCIeLinkMcmq::recv_thread`, given the rest of the message. -/
def receiveReadComp (link : ReadLink) (body : List UInt8) : Except Fault ReadLink :=
  if 4 ≤ body.length then pure (link.completeReadRequest (leValue (body.take 4)) (body.drop 4))
  else throw .assertion

/-- `read_requests.erase`. -/
def eraseReadRequest (link : ReadLink) (id : Nat) : ReadLink :=
  match link.readRequests id with
  | none => link
  | some req => { link with
      readRequests := Function.update link.readRequests id none
      erased := link.erased ++ [req.serial] }

/-- The entry behind the pointer of a read, while it exists. -/
def deref (link : ReadLink) (read : Read) : Option ReadRequest :=
  (link.readRequests read.id).filter fun req => req.serial = read.serial

/-- Note something about a read. -/
def note (link : ReadLink) (index : Nat) (change : Read → Read) : ReadLink :=
  { link with reads := link.reads.modify index change }

/-- A step of or for one read. -/
def stepAt (link : ReadLink) (index : Nat) (read : Read) : ReadInput → Option ReadLink
  | .send _ =>
    match read.stage with
    | .entered => some (link.note index fun read => { read with stage := .sent })
    | _ => none
  | .complete _ payload =>
    match read.stage, read.answer with
    | .entered, _ => none
    | _, some _ => none
    | _, none =>
      match link.receiveReadComp (leBytes 4 read.id ++ payload) with
      | .error _ => none
      | .ok after => some (after.note index fun read => { read with answer := some payload })
  | .wait _ =>
    match read.stage, link.deref read with
    | .sent, some req =>
      if req.completed then
        some (link.note index fun read => { read with stage := .measured req.len })
      else none
    | _, _ => none
  | .erase _ =>
    match read.stage, link.deref read with
    | .measured outlen, some req =>
      some ((link.eraseReadRequest req.id).note index fun read =>
        { read with stage := .returned outlen })
    | _, _ => none
  | _ => none

/-- One step of the threads or one message of the device. -/
def step (link : ReadLink) (input : ReadInput) : Option ReadLink :=
  match input with
  | .setup buffer => some (link.setupReadRequest buffer)
  | .stray body =>
    if 4 ≤ body.length ∧ link.readRequests (leValue (body.take 4)) = none then
      match link.receiveReadComp body with
      | .error _ => none
      | .ok after => some after
    else none
  | .send index | .complete index _ | .wait index | .erase index =>
    match link.reads[index]? with
    | none => none
    | some read => link.stepAt index read input

/-- The machine of the reading threads and the device. -/
def machine : Machine ReadLink ReadInput where
  step := step

end ReadLink

/-! ## What a read shows -/

namespace Read

/-- The read has not returned. -/
def pending (read : Read) : Bool :=
  match read.stage with
  | .returned _ => false
  | _ => true

/-- The length that a completion gives. -/
def outlen (read : Read) (payload : List UInt8) : Nat := min payload.length read.initial.length

/-- The entry of a read that has not returned. -/
def entry (read : Read) : ReadRequest where
  serial := read.serial
  id := read.id
  buf := read.serial
  buflen := read.initial.length
  len := (read.answer.map read.outlen).getD 0
  completed := read.answer.isSome

/-- What the thread knows and what the buffer holds follow from the completion. -/
structure Regular (read : Read) : Prop where
  /-- Nothing is completed before it is requested. -/
  unsent : read.stage = .entered → read.answer = none
  /-- The thread takes its length from the completion. -/
  measured : ∀ outlen, read.stage = .measured outlen ∨ read.stage = .returned outlen →
    ∃ payload, read.answer = some payload ∧ outlen = read.outlen payload
  /-- The buffer holds the front of the payload. -/
  buffer : read.buffer = memcpy read.initial
    ((read.answer.map fun payload => payload.take (read.outlen payload)).getD [])

end Read

namespace ReadLink

/-- The ids count the calls, the table is exactly the reads that have not returned, and the others were
erased once. -/
structure Tracked (counter : Nat) (link : ReadLink) : Prop where
  /-- The counter counts the calls. -/
  counts : link.readIdCounter = u32 (counter + link.reads.length)
  /-- So do the ids. -/
  ids : ∀ (index : Nat) (read : Read), link.reads[index]? = some read →
    read.serial = index ∧ read.id = u32 (counter + index)
  /-- The entries are those of the pending reads. -/
  entries : ∀ id req, link.readRequests id = some req ↔
    ∃ (index : Nat) (read : Read), link.reads[index]? = some read ∧ read.pending = true ∧ read.id = id ∧
      req = read.entry
  /-- Each read shows what was completed. -/
  regular : ∀ (index : Nat) (read : Read), link.reads[index]? = some read → read.Regular
  /-- Each read that has returned was erased once. -/
  erased : ∀ (index : Nat) (read : Read), link.reads[index]? = some read →
    link.erased.count index = if read.pending then 0 else 1
  /-- Nothing else was erased. -/
  others : ∀ index, link.reads.length ≤ index → link.erased.count index = 0

variable {counter : Nat} {link after : ReadLink} {index : Nat} {read : Read}

/-- At the start there is no read. -/
theorem Tracked.create (counter : Nat) : Tracked counter (create counter) where
  counts := rfl
  ids := by simp [ReadLink.create]
  entries := by simp [ReadLink.create]
  regular := by simp [ReadLink.create]
  erased := by simp [ReadLink.create]
  others := by simp [ReadLink.create]

/-- Fewer than 2^32 calls get different ids. -/
theorem Tracked.distinct (tracked : Tracked counter link) (few : link.reads.length ≤ 2 ^ 32)
    {other : Nat} {another : Read} (found : link.reads[index]? = some read)
    (foundOther : link.reads[other]? = some another) (same : read.id = another.id) :
    index = other := by
  have bound := (List.getElem?_eq_some_iff.mp found).1
  have boundOther := (List.getElem?_eq_some_iff.mp foundOther).1
  rw [(tracked.ids _ _ found).2, (tracked.ids _ _ foundOther).2] at same
  unfold u32 at same
  omega

/-- The entry of a pending read is in the table. -/
theorem Tracked.entry (tracked : Tracked counter link) (found : link.reads[index]? = some read)
    (pending : read.pending = true) : link.readRequests read.id = some read.entry :=
  (tracked.entries _ _).mpr ⟨index, read, found, pending, rfl, rfl⟩

/-- The pointer of a pending read leads to its entry. -/
theorem Tracked.points (tracked : Tracked counter link) (found : link.reads[index]? = some read)
    (pending : read.pending = true) : link.deref read = some read.entry := by
  rw [deref, tracked.entry found pending]
  simp [Read.entry]

/-- Changing an element that is there is setting it. -/
theorem modify_found {change : Read → Read} (found : link.reads[index]? = some read) :
    link.reads.modify index change = link.reads.set index (change read) := by
  rw [List.modify_eq_set_getElem?, found]
  rfl

/-- A step for a pending read changes its record and its entry alike, and erases the entry once the
read has returned. -/
theorem Tracked.change (tracked : Tracked counter link) (next : Read)
    (few : link.reads.length ≤ 2 ^ 32) (found : link.reads[index]? = some read)
    (pending : read.pending = true) (serial : next.serial = read.serial) (id : next.id = read.id)
    (regular : next.Regular) : Tracked counter { link with
      readRequests := Function.update link.readRequests read.id
        (if next.pending then some next.entry else none)
      reads := link.reads.set index next
      erased := if next.pending then link.erased else link.erased ++ [read.serial] } := by
  have inside := (List.getElem?_eq_some_iff.mp found).1
  have here : (link.reads.set index next)[index]? = some next := by
    rw [List.getElem?_set_self inside]
  have elsewhere : ∀ other, other ≠ index →
      (link.reads.set index next)[other]? = link.reads[other]? :=
    fun other differ => List.getElem?_set_ne (Ne.symm differ)
  have numbered := tracked.ids index read found
  have each : ∀ {Holds : Nat → Read → Prop}, Holds index next →
      (∀ other another, other ≠ index → link.reads[other]? = some another → Holds other another) →
      ∀ other another, (link.reads.set index next)[other]? = some another → Holds other another := by
    intro Holds mine rest other another foundOther
    by_cases same : other = index
    · subst same
      rw [here] at foundOther
      cases foundOther
      exact mine
    · rw [elsewhere other same] at foundOther
      exact rest other another same foundOther
  refine ⟨?_, ?_, ?_, ?_, ?_, ?_⟩
  · rw [List.length_set]
    exact tracked.counts
  · apply each
    · rw [serial, id]
      exact numbered
    · exact fun other another _ => tracked.ids other another
  · intro key req
    simp only
    by_cases mine : key = read.id
    · subst mine
      rw [Function.update_self]
      constructor
      · intro entered
        split at entered
        · rename_i stays
          cases entered
          exact ⟨index, next, here, stays, id, rfl⟩
        · cases entered
      · rintro ⟨other, another, foundOther, stays, same, rfl⟩
        by_cases this : other = index
        · subst this
          rw [here] at foundOther
          cases foundOther
          rw [if_pos stays]
        · rw [elsewhere other this] at foundOther
          exact absurd (tracked.distinct few foundOther found same) this
    · rw [Function.update_of_ne mine, tracked.entries]
      constructor
      · rintro ⟨other, another, foundOther, stays, same, rfl⟩
        have this : other ≠ index := by
          rintro rfl
          rw [found] at foundOther
          cases foundOther
          exact mine same.symm
        exact ⟨other, another, (elsewhere other this).trans foundOther, stays, same, rfl⟩
      · rintro ⟨other, another, foundOther, stays, same, rfl⟩
        have this : other ≠ index := by
          rintro rfl
          rw [here] at foundOther
          cases foundOther
          exact mine (same.symm.trans id)
        rw [elsewhere other this] at foundOther
        exact ⟨other, another, foundOther, stays, same, rfl⟩
  · apply each
    · exact regular
    · exact fun other another _ => tracked.regular other another
  · have before := tracked.erased index read found
    rw [pending, if_pos rfl] at before
    apply each
    · by_cases stays : next.pending = true
      · simp only [stays, if_true]
        exact before
      · simp only [Bool.not_eq_true] at stays
        simp [stays, numbered.1, before]
    · intro other another differ foundOther
      by_cases stays : next.pending = true
      · simp only [stays, if_true]
        exact tracked.erased other another foundOther
      · simp only [Bool.not_eq_true] at stays
        simp [stays, numbered.1, differ.symm, tracked.erased other another foundOther]
  · intro other beyond
    rw [List.length_set] at beyond
    by_cases stays : next.pending = true
    · simp only [stays, if_true]
      exact tracked.others other beyond
    · simp only [Bool.not_eq_true] at stays
      have differ : index ≠ other := by omega
      simp [stays, numbered.1, differ, tracked.others other beyond]

/-- A call adds a read and its entry. -/
theorem Tracked.setup (tracked : Tracked counter link) (few : link.reads.length < 2 ^ 32)
    (buffer : List UInt8) : Tracked counter (link.setupReadRequest buffer) := by
  have fresh : link.readRequests link.readIdCounter = none := by
    by_contra taken
    obtain ⟨req, entered⟩ := Option.ne_none_iff_exists'.mp taken
    obtain ⟨index, read, found, -, same, -⟩ := (tracked.entries _ _).mp entered
    have bound := (List.getElem?_eq_some_iff.mp found).1
    rw [(tracked.ids _ _ found).2, tracked.counts] at same
    unfold u32 at same
    omega
  let next : Read := ⟨link.reads.length, link.readIdCounter, buffer, buffer, .entered, none⟩
  have same : link.setupReadRequest buffer = { link with
      readIdCounter := u32 (link.readIdCounter + 1)
      readRequests := Function.update link.readRequests link.readIdCounter (some next.entry)
      reads := link.reads ++ [next] } := by
    simp only [setupReadRequest, fresh]
    rfl
  have split : ∀ {other : Nat} {another : Read}, (link.reads ++ [next])[other]? = some another →
      link.reads[other]? = some another ∨ (other = link.reads.length ∧ another = next) := by
    intro other another found
    by_cases before : other < link.reads.length
    · rw [List.getElem?_append_left before] at found
      exact Or.inl found
    · rw [List.getElem?_append_right (by omega)] at found
      rw [List.getElem?_singleton] at found
      split at found
      · exact Or.inr ⟨by omega, (Option.some.inj found).symm⟩
      · cases found
  have last : (link.reads ++ [next])[link.reads.length]? = some next := List.getElem?_concat_length
  have numbered : next.id = u32 (counter + link.reads.length) := tracked.counts
  rw [same]
  refine ⟨?_, ?_, ?_, ?_, ?_, ?_⟩
  · simp only [tracked.counts, List.length_append, List.length_singleton]
    unfold u32
    omega
  · intro other another found
    rcases split found with before | ⟨rfl, rfl⟩
    · exact tracked.ids other another before
    · exact ⟨rfl, numbered⟩
  · intro key req
    simp only
    by_cases mine : key = link.readIdCounter
    · subst mine
      rw [Function.update_self]
      constructor
      · intro entered
        cases entered
        exact ⟨_, next, last, rfl, rfl, rfl⟩
      · rintro ⟨other, another, found, pending, same, rfl⟩
        rcases split found with before | ⟨rfl, rfl⟩
        · have there := tracked.entry before pending
          rw [same, fresh] at there
          cases there
        · rfl
    · rw [Function.update_of_ne mine, tracked.entries]
      constructor
      · rintro ⟨other, another, found, pending, same, rfl⟩
        have inside := (List.getElem?_eq_some_iff.mp found).1
        exact ⟨other, another, (List.getElem?_append_left inside).trans found, pending, same, rfl⟩
      · rintro ⟨other, another, found, pending, same, rfl⟩
        rcases split found with before | ⟨rfl, rfl⟩
        · exact ⟨other, another, before, pending, same, rfl⟩
        · exact absurd same.symm mine
  · intro other another found
    rcases split found with before | ⟨rfl, rfl⟩
    · exact tracked.regular other another before
    · refine ⟨fun _ => rfl, ?_, rfl⟩
      rintro outlen (measured | returned)
      · cases measured
      · cases returned
  · intro other another found
    rcases split found with before | ⟨rfl, rfl⟩
    · exact tracked.erased other another before
    · exact tracked.others _ (le_refl _)
  · intro other beyond
    simp only [List.length_append, List.length_singleton] at beyond
    exact tracked.others other (Nat.le_of_succ_le beyond)

/-- A step that keeps the entry of a pending read changes only its record. -/
theorem Tracked.note {change : Read → Read} (tracked : Tracked counter link)
    (few : link.reads.length ≤ 2 ^ 32) (found : link.reads[index]? = some read)
    (pending : read.pending = true) (stays : (change read).pending = true)
    (entry : (change read).entry = read.entry) (regular : (change read).Regular) :
    Tracked counter (link.note index change) := by
  have serial : (change read).serial = read.serial := congrArg ReadRequest.serial entry
  have id : (change read).id = read.id := congrArg ReadRequest.id entry
  have changed := tracked.change _ few found pending serial id regular
  rw [if_pos stays, if_pos stays, entry, ← tracked.entry found pending,
    Function.update_eq_self] at changed
  rw [ReadLink.note, modify_found found]
  exact changed

/-- Sending the request keeps the entry. -/
theorem Tracked.send (tracked : Tracked counter link) (few : link.reads.length ≤ 2 ^ 32)
    (found : link.reads[index]? = some read) (entered : read.stage = .entered) :
    Tracked counter (link.note index fun read => { read with stage := .sent }) := by
  have pending : read.pending = true := by rw [Read.pending, entered]
  have regular := tracked.regular index read found
  apply tracked.note few found pending rfl rfl
  exact {
    unsent := fun sent => by cases sent
    measured := by rintro outlen (measured | returned) <;> contradiction
    buffer := regular.buffer }

/-- The message for a read leads to its entry. -/
theorem Tracked.receive (tracked : Tracked counter link)
    (found : link.reads[index]? = some read) (payload : List UInt8) :
    link.receiveReadComp (leBytes 4 read.id ++ payload) =
      .ok (link.completeReadRequest read.id payload) := by
  have narrow : read.id < 256 ^ 4 := by
    rw [(tracked.ids index read found).2]
    exact Nat.mod_lt _ (by decide)
  have length : (leBytes 4 read.id).length = 4 := length_leBytes 4 read.id
  have long : 4 ≤ (leBytes 4 read.id ++ payload).length := by
    rw [List.length_append, length]
    exact Nat.le_add_right _ _
  rw [receiveReadComp, if_pos long, List.take_left' length, List.drop_left' length,
    leValue_leBytes, Nat.mod_eq_of_lt narrow]
  rfl

/-- What `complete_read_request` does to a pending read. -/
theorem Tracked.completes (tracked : Tracked counter link)
    (found : link.reads[index]? = some read) (pending : read.pending = true)
    (payload : List UInt8) : link.completeReadRequest read.id payload = { link with
      readRequests := Function.update link.readRequests read.id
        (some { read.entry with len := read.outlen payload, completed := true })
      reads := link.reads.set index
        { read with buffer := memcpy read.buffer (payload.take (read.outlen payload)) } } := by
  have serial : read.entry.buf = index := (tracked.ids index read found).1
  simp only [completeReadRequest, tracked.entry found pending, serial, modify_found found]
  rfl

/-- A completion of a pending read that has none fills its buffer and completes its entry. -/
theorem Tracked.complete (tracked : Tracked counter link) (few : link.reads.length ≤ 2 ^ 32)
    (found : link.reads[index]? = some read) (sent : read.stage = .sent)
    (unanswered : read.answer = none) (payload : List UInt8) :
    Tracked counter ((link.completeReadRequest read.id payload).note index
      fun read => { read with answer := some payload }) := by
  have pending : read.pending = true := by rw [Read.pending, sent]
  have regular := tracked.regular index read found
  have whole : read.buffer = read.initial := by
    rw [regular.buffer, unanswered]
    rfl
  let next : Read := { read with
    buffer := memcpy read.buffer (payload.take (read.outlen payload)), answer := some payload }
  have nextRegular : next.Regular := by
    refine ⟨?_, ?_, ?_⟩
    · intro entered
      exact absurd (sent.symm.trans entered) (by simp)
    · rintro outlen (measured | returned)
      · exact absurd (sent.symm.trans measured) (by simp)
      · exact absurd (sent.symm.trans returned) (by simp)
    · simp only [next, whole]
      rfl
  have changed := tracked.change next few found pending rfl rfl nextRegular
  have stays : next.pending = true := pending
  rw [if_pos stays, if_pos stays] at changed
  have same : (link.completeReadRequest read.id payload).note index
      (fun read => { read with answer := some payload }) = { link with
        readRequests := Function.update link.readRequests read.id (some next.entry)
        reads := link.reads.set index next } := by
    have inside := (List.getElem?_eq_some_iff.mp found).1
    rw [tracked.completes found pending, ReadLink.note,
      modify_found (List.getElem?_set_self inside), List.set_set]
    rfl
  rw [same]
  exact changed

/-- A read whose entry is completed takes its length. -/
theorem Tracked.wait (tracked : Tracked counter link) (few : link.reads.length ≤ 2 ^ 32)
    (found : link.reads[index]? = some read) (sent : read.stage = .sent) {payload : List UInt8}
    (answered : read.answer = some payload) :
    Tracked counter (link.note index fun changed =>
      { changed with stage := .measured (read.outlen payload) }) := by
  have pending : read.pending = true := by rw [Read.pending, sent]
  have regular := tracked.regular index read found
  apply tracked.note few found pending rfl rfl
  refine ⟨?_, ?_, regular.buffer⟩
  · intro entered
    cases entered
  · rintro outlen (measured | returned)
    · cases measured
      exact ⟨payload, answered, rfl⟩
    · cases returned

/-- A read that has taken its length erases its entry and returns the length. -/
theorem Tracked.erase (tracked : Tracked counter link) (few : link.reads.length ≤ 2 ^ 32)
    (found : link.reads[index]? = some read) {outlen : Nat}
    (measured : read.stage = .measured outlen) :
    Tracked counter ((link.eraseReadRequest read.id).note index fun read =>
      { read with stage := .returned outlen }) := by
  have pending : read.pending = true := by rw [Read.pending, measured]
  have regular := tracked.regular index read found
  have nextRegular : ({ read with stage := .returned outlen } : Read).Regular := by
    refine ⟨?_, ?_, regular.buffer⟩
    · intro entered
      cases entered
    · rintro other (same | same)
      · cases same
      · cases same
        exact regular.measured outlen (Or.inl measured)
  have changed := tracked.change { read with stage := .returned outlen } few found pending rfl rfl nextRegular
  have same : (link.eraseReadRequest read.id).note index
      (fun read => { read with stage := .returned outlen }) = { link with
        readRequests := Function.update link.readRequests read.id none
        reads := link.reads.set index { read with stage := .returned outlen }
        erased := link.erased ++ [read.serial] } := by
    simp only [eraseReadRequest, tracked.entry found pending, ReadLink.note, modify_found found]
    rfl
  rw [same]
  exact changed

/-- A completion whose id is not pending changes nothing. -/
theorem receive_stray {body : List UInt8} (long : 4 ≤ body.length)
    (stray : link.readRequests (leValue (body.take 4)) = none) :
    link.receiveReadComp body = .ok link := by
  rw [receiveReadComp, if_pos long, completeReadRequest, stray]
  rfl

/-- What a step for one read requires and does, as long as the ids in use are different. -/
inductive ReadStep (link : ReadLink) (index : Nat) (read : Read) : ReadInput → ReadLink → Prop
  /-- The request is sent. -/
  | send : read.stage = .entered → ReadStep link index read (.send index)
      (link.note index fun read => { read with stage := .sent })
  /-- The completion arrives. -/
  | complete {payload : List UInt8} : read.stage = .sent → read.answer = none →
      ReadStep link index read (.complete index payload)
        ((link.completeReadRequest read.id payload).note index
          fun read => { read with answer := some payload })
  /-- The thread takes the length. -/
  | wait {payload : List UInt8} : read.stage = .sent → read.answer = some payload →
      ReadStep link index read (.wait index)
        (link.note index fun changed => { changed with stage := .measured (read.outlen payload) })
  /-- It erases the entry and returns. -/
  | erase {outlen : Nat} : read.stage = .measured outlen →
      ReadStep link index read (.erase index)
        ((link.eraseReadRequest read.id).note index
          fun read => { read with stage := .returned outlen })

/-- A step for a read is one of these. -/
theorem Tracked.readStep (tracked : Tracked counter link) (found : link.reads[index]? = some read)
    {input : ReadInput} (named : input = .send index ∨ (∃ payload, input = .complete index payload) ∨
      input = .wait index ∨ input = .erase index)
    (ok : link.stepAt index read input = some after) : ReadStep link index read input after := by
  have regular := tracked.regular index read found
  rcases named with rfl | ⟨payload, rfl⟩ | rfl | rfl
  · simp only [stepAt] at ok
    split at ok
    · rename_i entered
      cases ok
      exact .send entered
    · cases ok
  · simp only [stepAt, tracked.receive found payload] at ok
    split at ok
    · cases ok
    · cases ok
    · rename_i stage answer unanswered notEntered
      cases ok
      refine .complete ?_ unanswered
      cases stage : read.stage with
      | entered => exact absurd stage notEntered
      | sent => rfl
      | measured outlen | returned outlen =>
        obtain ⟨payload, answered, -⟩ := regular.measured outlen (by simp [stage])
        rw [unanswered] at answered
        cases answered
  · simp only [stepAt] at ok
    split at ok
    · rename_i req sent there
      have pending : read.pending = true := by rw [Read.pending, sent]
      rw [tracked.points found pending] at there
      obtain rfl := Option.some.inj there
      split at ok
      · rename_i completed
        obtain ⟨payload, answered⟩ := Option.isSome_iff_exists.mp completed
        have len : read.entry.len = read.outlen payload := by
          simp [Read.entry, answered]
        rw [len] at ok
        cases ok
        exact .wait sent answered
      · cases ok
    · cases ok
  · simp only [stepAt] at ok
    split at ok
    · rename_i outlen req measured there
      have pending : read.pending = true := by rw [Read.pending, measured]
      rw [tracked.points found pending] at there
      obtain rfl := Option.some.inj there
      cases ok
      exact .erase measured
    · cases ok

@[simp] theorem length_note {change : Read → Read} :
    (link.note index change).reads.length = link.reads.length := by
  simp [ReadLink.note]

@[simp] theorem length_completeReadRequest {id : Nat} {payload : List UInt8} :
    (link.completeReadRequest id payload).reads.length = link.reads.length := by
  unfold completeReadRequest
  split <;> simp

@[simp] theorem length_eraseReadRequest {id : Nat} :
    (link.eraseReadRequest id).reads.length = link.reads.length := by
  unfold eraseReadRequest
  split <;> rfl

/-- A step for a read keeps the number of reads. -/
theorem ReadStep.length {input : ReadInput} (taken : ReadStep link index read input after) :
    after.reads.length = link.reads.length := by
  cases taken with
  | send | wait => exact length_note
  | complete => rw [length_note, length_completeReadRequest]
  | erase => rw [length_note, length_eraseReadRequest]

/-- It keeps the table exact. -/
theorem Tracked.readStepKeeps {input : ReadInput} (tracked : Tracked counter link)
    (few : link.reads.length ≤ 2 ^ 32) (found : link.reads[index]? = some read)
    (taken : ReadStep link index read input after) : Tracked counter after := by
  cases taken with
  | send entered => exact tracked.send few found entered
  | complete sent unanswered => exact tracked.complete few found sent unanswered _
  | wait sent answered => exact tracked.wait few found sent answered
  | erase measured => exact tracked.erase few found measured

/-- A step is a call, a message that changes nothing, or a step for a read. -/
theorem Tracked.step_cases {input : ReadInput} (tracked : Tracked counter link)
    (ok : link.step input = some after) :
    (∃ buffer, input = .setup buffer ∧ after = link.setupReadRequest buffer) ∨ after = link ∨
      ∃ index read, link.reads[index]? = some read ∧ ReadStep link index read input after := by
  cases input with
  | setup buffer =>
    cases ok
    exact Or.inl ⟨buffer, rfl, rfl⟩
  | stray body =>
    right
    left
    simp only [ReadLink.step] at ok
    split at ok
    · rename_i stray
      rw [receive_stray stray.1 stray.2] at ok
      exact (Option.some.inj ok).symm
    · cases ok
  | send index =>
    simp only [ReadLink.step] at ok
    split at ok
    · cases ok
    · rename_i read found
      exact Or.inr (Or.inr ⟨index, read, found, tracked.readStep found (.inl rfl) ok⟩)
  | complete index payload =>
    simp only [ReadLink.step] at ok
    split at ok
    · cases ok
    · rename_i read found
      exact Or.inr (Or.inr ⟨index, read, found,
        tracked.readStep found (.inr (.inl ⟨payload, rfl⟩)) ok⟩)
  | wait index =>
    simp only [ReadLink.step] at ok
    split at ok
    · cases ok
    · rename_i read found
      exact Or.inr (Or.inr ⟨index, read, found,
        tracked.readStep found (.inr (.inr (.inl rfl))) ok⟩)
  | erase index =>
    simp only [ReadLink.step] at ok
    split at ok
    · cases ok
    · rename_i read found
      exact Or.inr (Or.inr ⟨index, read, found,
        tracked.readStep found (.inr (.inr (.inr rfl))) ok⟩)

/-- Every step keeps the table exact. -/
theorem Tracked.step {input : ReadInput} (tracked : Tracked counter link)
    (few : after.reads.length ≤ 2 ^ 32) (ok : link.step input = some after) :
    Tracked counter after := by
  rcases tracked.step_cases ok with ⟨buffer, rfl, rfl⟩ | rfl | ⟨index, read, found, taken⟩
  · apply tracked.setup
    simp only [setupReadRequest, List.length_append, List.length_singleton] at few
    omega
  · exact tracked
  · exact tracked.readStepKeeps (taken.length ▸ few) found taken

/-- A message adds no read. -/
theorem length_receive {body : List UInt8} (ok : link.receiveReadComp body = .ok after) :
    after.reads.length = link.reads.length := by
  unfold receiveReadComp at ok
  split at ok
  · cases ok
    exact length_completeReadRequest
  · cases ok

/-- A step for a read adds none, whatever the table holds. -/
theorem length_stepAt {input : ReadInput} (ok : link.stepAt index read input = some after) :
    after.reads.length = link.reads.length := by
  cases input with
  | setup | stray => cases ok
  | send =>
    simp only [stepAt] at ok
    split at ok
    · cases ok
      exact length_note
    · cases ok
  | complete other payload =>
    simp only [stepAt] at ok
    split at ok
    · cases ok
    · cases ok
    · split at ok
      · cases ok
      · rename_i received
        cases ok
        rw [length_note, length_receive received]
  | wait =>
    simp only [stepAt] at ok
    split at ok
    · split at ok
      · cases ok
        exact length_note
      · cases ok
    · cases ok
  | erase =>
    simp only [stepAt] at ok
    split at ok
    · cases ok
      rw [length_note, length_eraseReadRequest]
    · cases ok

/-- No step drops a read. -/
theorem length_step {input : ReadInput} (ok : link.step input = some after) :
    link.reads.length ≤ after.reads.length := by
  cases input with
  | setup buffer =>
    cases ok
    simp [setupReadRequest]
  | stray body =>
    simp only [ReadLink.step] at ok
    split at ok
    · rename_i stray
      rw [receive_stray stray.1 stray.2] at ok
      cases ok
      exact le_refl _
    · cases ok
  | send | complete | wait | erase =>
    simp only [ReadLink.step] at ok
    split at ok
    · cases ok
    · exact Nat.le_of_eq (length_stepAt ok).symm

/-- The table is exact in every reached state with at most 2^32 reads. -/
theorem tracked_of_reaches (reached : machine.Reaches (ReadLink.create counter) link)
    (few : link.reads.length ≤ 2 ^ 32) : Tracked counter link := by
  have preserved : ∀ before input after,
      (before.reads.length ≤ 2 ^ 32 → Tracked counter before) →
      machine.step before input = some after →
      after.reads.length ≤ 2 ^ 32 → Tracked counter after := by
    intro before input after tracked stepped few
    exact (tracked (Nat.le_trans (length_step stepped) few)).step few stepped
  exact reached.invariant _ preserved (fun _ => .create counter) few

/-! ## Matching -/

/-- Reads and completions are matched. -/
structure Matched (link : ReadLink) : Prop where
  /-- A read returns, and only after its completion, the length of the payload or of its buffer, whichever
  is less. -/
  lengths : ∀ read ∈ link.reads, ∀ outlen,
    read.stage = .measured outlen ∨ read.stage = .returned outlen →
    ∃ payload, read.answer = some payload ∧ outlen = min payload.length read.initial.length
  /-- The buffer of a completed read holds that much of the payload, and behind it what it held. -/
  filled : ∀ read ∈ link.reads, ∀ payload, read.answer = some payload →
    read.buffer = payload.take read.initial.length ++ read.initial.drop payload.length
  /-- Nothing is written past the buffer. -/
  bounded : ∀ read ∈ link.reads, read.buffer.length = read.initial.length
  /-- The buffer of any other read is as it was. -/
  untouched : ∀ read ∈ link.reads, read.answer = none → read.buffer = read.initial
  /-- A completion for a read touches no other read. -/
  apart : ∀ index payload after, link.step (.complete index payload) = some after →
    ∀ other, other ≠ index → after.reads[other]? = link.reads[other]?
  /-- A completion whose id is not pending changes nothing. -/
  strays : ∀ body, 4 ≤ body.length → link.readRequests (leValue (body.take 4)) = none →
    link.receiveReadComp body = .ok link
  /-- A read waits until its completion. -/
  waits : ∀ index read, link.reads[index]? = some read → read.answer = none →
    link.step (.wait index) = none
  /-- Then it goes on: it takes its length, erases its entry and returns. -/
  returns : ∀ index read, link.reads[index]? = some read → ∀ payload, read.answer = some payload →
    (read.stage = .sent → (link.step (.wait index)).isSome) ∧
    ∀ outlen, read.stage = .measured outlen → (link.step (.erase index)).isSome
  /-- An entry is in the table until its read has returned, -/
  kept : ∀ read ∈ link.reads, read.pending = true → link.readRequests read.id = some read.entry
  /-- and it leaves the table once, when its read has taken its length. -/
  erasedOnce : ∀ index read, link.reads[index]? = some read →
    link.erased.count index = if read.pending then 0 else 1

/-- The front of a payload over a buffer. -/
theorem memcpy_front (buffer payload : List UInt8) :
    memcpy buffer (payload.take (min payload.length buffer.length)) =
      payload.take buffer.length ++ buffer.drop payload.length := by
  rw [memcpy, List.length_take]
  by_cases short : payload.length ≤ buffer.length
  · rw [Nat.min_eq_left short, Nat.min_self, List.take_length, List.take_of_length_le short]
  · have long : buffer.length ≤ payload.length := Nat.le_of_not_le short
    rw [Nat.min_eq_right long, Nat.min_eq_left long, List.drop_length,
      List.drop_of_length_le long]

/-- A completion changes the read that it is for. -/
theorem Tracked.apart (tracked : Tracked counter link) {payload : List UInt8}
    (ok : link.step (.complete index payload) = some after) {other : Nat} (differ : other ≠ index) :
    after.reads[other]? = link.reads[other]? := by
  simp only [ReadLink.step] at ok
  split at ok
  · cases ok
  · rename_i read found
    have taken := tracked.readStep found (.inr (.inl ⟨payload, rfl⟩)) ok
    cases taken with
    | complete sent unanswered =>
      have pending : read.pending = true := by rw [Read.pending, sent]
      rw [tracked.completes found pending]
      simp only [ReadLink.note]
      rw [List.getElem?_modify_ne _ _ (Ne.symm differ), List.getElem?_set_ne (Ne.symm differ)]

/-- A read without a completion does not go on. -/
theorem Tracked.waits (tracked : Tracked counter link) (found : link.reads[index]? = some read)
    (unanswered : read.answer = none) : link.step (.wait index) = none := by
  cases stepped : link.step (.wait index) with
  | none => rfl
  | some after =>
    simp only [ReadLink.step, found] at stepped
    cases tracked.readStep found (.inr (.inr (.inl rfl))) stepped with
    | wait sent answered =>
      rw [unanswered] at answered
      cases answered

/-- A completed read goes on to its return. -/
theorem Tracked.returns (tracked : Tracked counter link) (found : link.reads[index]? = some read)
    {payload : List UInt8} (answered : read.answer = some payload) :
    (read.stage = .sent → (link.step (.wait index)).isSome) ∧
      ∀ outlen, read.stage = .measured outlen → (link.step (.erase index)).isSome := by
  constructor
  · intro sent
    have pending : read.pending = true := by rw [Read.pending, sent]
    simp [ReadLink.step, found, stepAt, sent, tracked.points found pending, Read.entry, answered]
  · intro outlen measured
    have pending : read.pending = true := by rw [Read.pending, measured]
    simp [ReadLink.step, found, stepAt, measured, tracked.points found pending]

/-- The promises follow from the exact table. -/
theorem Tracked.matched (tracked : Tracked counter link) : link.Matched := by
  have regular : ∀ read ∈ link.reads, read.Regular := by
    intro read listed
    obtain ⟨index, found⟩ := List.getElem?_of_mem listed
    exact tracked.regular index read found
  have filled : ∀ read ∈ link.reads, ∀ payload, read.answer = some payload →
      read.buffer = payload.take read.initial.length ++ read.initial.drop payload.length := by
    intro read listed payload answered
    rw [(regular read listed).buffer, answered]
    exact memcpy_front read.initial payload
  have untouched : ∀ read ∈ link.reads, read.answer = none → read.buffer = read.initial := by
    intro read listed unanswered
    rw [(regular read listed).buffer, unanswered]
    rfl
  refine ⟨?_, filled, ?_, untouched, ?_, ?_, ?_, ?_, ?_, tracked.erased⟩
  · intro read listed outlen measured
    exact (regular read listed).measured outlen measured
  · intro read listed
    cases answer : read.answer with
    | none => rw [untouched read listed answer]
    | some payload =>
      rw [filled read listed payload answer, List.length_append, List.length_take,
        List.length_drop]
      omega
  · intro index payload after ok other differ
    exact tracked.apart ok differ
  · intro body long stray
    exact receive_stray long stray
  · intro index read found unanswered
    exact tracked.waits found unanswered
  · intro index read found payload answered
    exact tracked.returns found answered
  · intro read listed pending
    obtain ⟨index, found⟩ := List.getElem?_of_mem listed
    exact tracked.entry found pending

/-- Two reads are completed in the other order, with an unknown completion between them; the payload of
the first is longer than its buffer. -/
def twoReads : List ReadInput :=
  [.setup [0, 0], .send 0, .setup [7, 7, 7], .send 1, .complete 1 [5], .stray [9, 0, 0, 0, 1], .wait 1,
    .complete 0 [1, 2, 3], .wait 0, .erase 1, .erase 0]

end ReadLink

end McmqHost
