import McmqHost.Base.Machine
import McmqHost.Link.Receive

/-!
# Results of the simulation

`report` clears the result buffer, asks the device and waits; the device answers with `RESULT`
messages, the first of them with the length of the whole result in front. Whether a message is a
first one is told from the buffer, which is empty before it. A message without bytes is therefore
taken for a first one when it comes in front of its result, or after the result it ends.
-/

namespace McmqHost

/-- The messages of a result: its length is in front of the first part. -/
def resultMessages (result : List UInt8) : List (List UInt8) → List (List UInt8)
  | [] => []
  | first :: later => (beBytes 2 result.length ++ first) :: later

/-- The receiving thread, the thread that calls `report`, and the device. -/
structure Reporting where
  /-- The receiving thread. -/
  receiver : Receiver
  /-- A call of `report` waits. -/
  waiting : Bool
  /-- `RESULT` messages that were sent and have not been handled. -/
  owed : List (List UInt8)
  /-- The results that the device was asked for, in order. -/
  results : List (List UInt8)
  /-- The buffers that `report` parsed, in order. -/
  parsed : List (List UInt8)
  /-- How the receiving thread ended, if it did. -/
  fault : Option Fault

/-- What the threads and the device do. -/
inductive ReportInput
  /-- `report` asks for a result, which the device will send in these parts. -/
  | report (result : List UInt8) (parts : List (List UInt8))
  /-- The next `RESULT` message is handled. -/
  | handle
  /-- A message of another kind is handled. -/
  | other (frame : DeviceFrame)
  /-- `report` finds the result ready, parses it and returns. -/
  | parse
deriving DecidableEq, Repr

/-- The parts make up a result that its length field can describe, and the first of them is not empty
unless the result is. -/
def SplitOf (result : List UInt8) (parts : List (List UInt8)) : Prop :=
  result.length ≤ 65535 ∧ parts.flatten = result ∧ parts ≠ [] ∧
    (result ≠ [] → parts.head? ≠ some [])

instance (result : List UInt8) (parts : List (List UInt8)) : Decidable (SplitOf result parts) :=
  inferInstanceAs (Decidable (_ ∧ _ ∧ _ ∧ _))

/-- The head of `PCIeLinkMcmq::report`. -/
def Receiver.clearResult (receiver : Receiver) : Receiver :=
  { receiver with resultBuf := [], resultLen := 0, resultReady := false }

/-- A `RESULT` message. -/
def resultFrame (rest : List UInt8) : DeviceFrame := ⟨7, rest⟩

namespace Reporting

/-- A link whose result members may hold anything. -/
def create (receiver : Receiver) : Reporting := ⟨receiver, false, [], [], [], none⟩

/-- One step of a thread or of the device. -/
def step (link : Reporting) (input : ReportInput) : Option Reporting :=
  if link.fault.isSome then none
  else
    match input with
    | .report result parts =>
      if link.waiting = false ∧ SplitOf result parts then
        some { link with
          receiver := link.receiver.clearResult
          waiting := true
          owed := link.owed ++ resultMessages result parts
          results := link.results ++ [result] }
      else none
    | .handle =>
      match link.owed with
      | [] => none
      | message :: later =>
        match link.receiver.receive (resultFrame message) with
        | .error fault => some { link with fault := some fault }
        | .ok next => some { link with receiver := next.note (resultFrame message), owed := later }
    | .other frame =>
      -- a read completion or an interrupt, well formed for its type
      if frame.type = 3 ∨ frame.type = 4 then
        match link.receiver.receive frame with
        | .error _ => none
        | .ok next => some { link with receiver := next.note frame }
      else none
    | .parse =>
      if link.waiting = true ∧ link.receiver.resultReady = true then
        some { link with waiting := false, parsed := link.parsed ++ [link.receiver.resultBuf] }
      else none

/-- The machine of the link for results. -/
def machine : Machine Reporting ReportInput := ⟨step⟩

end Reporting

/-- The last part is not empty, or it is the only part of an empty result. -/
def ReportInput.Ends : ReportInput → Prop
  | .report result parts =>
    (result ≠ [] → parts.getLast? ≠ some []) ∧ (result = [] → parts.length = 1)
  | _ => True

/-! ## One message -/

namespace Receiver

variable {receiver next : Receiver}

/-- The first message of a result sets the length that the others are measured by. -/
theorem receive_first {result first : List UInt8} (cleared : receiver.resultBuf = [])
    (unready : receiver.resultReady = false) (described : result.length ≤ 65535)
    (received : receiver.receive (resultFrame (beBytes 2 result.length ++ first)) = .ok next) :
    next.resultBuf = first ∧ next.resultLen = result.length ∧
      next.resultReady = decide (first.length = result.length) := by
  have front : (beBytes 2 result.length ++ first).take 2 = beBytes 2 result.length :=
    List.take_left' (length_beBytes 2 _)
  have back : (beBytes 2 result.length ++ first).drop 2 = first :=
    List.drop_left' (length_beBytes 2 _)
  have stated : beValue (beBytes 2 result.length) = result.length :=
    beValue_beBytes_of_lt (Nat.lt_succ_of_le described)
  have case : receiver.receive (resultFrame (beBytes 2 result.length ++ first)) =
      receiver.receiveResult (beBytes 2 result.length ++ first) := rfl
  rw [case, receiveResult, cleared, List.isEmpty_nil, if_pos rfl,
    if_pos (by simp), front, back, stated] at received
  cases received
  simp [appendResult, unready]

/-- The first message of a result is accepted. -/
theorem receive_first_ok (receiver : Receiver) (result first : List UInt8) :
    ∃ next, receiver.receive (resultFrame (beBytes 2 result.length ++ first)) = .ok next := by
  rw [receive_ok_iff]
  simp [resultFrame]

/-- A further message is appended. -/
theorem receive_further {bytes : List UInt8} (begun : receiver.resultBuf ≠ []) :
    receiver.receive (resultFrame bytes) = .ok (receiver.appendResult bytes) := by
  have case : receiver.receive (resultFrame bytes) = receiver.receiveResult bytes := rfl
  have filled : receiver.resultBuf.isEmpty = false := by
    simpa using begun
  rw [case, receiveResult, filled]
  rfl

/-- Read completions and interrupts leave the result alone. -/
theorem receive_other {frame : DeviceFrame} (kind : frame.type = 3 ∨ frame.type = 4)
    (received : receiver.receive frame = .ok next) :
    next.resultBuf = receiver.resultBuf ∧ next.resultLen = receiver.resultLen ∧
      next.resultReady = receiver.resultReady := by
  unfold receive at received
  split at received
  · obtain ⟨reads, -, same⟩ := bind_ok.mp received
    cases same
    exact ⟨rfl, rfl, rfl⟩
  · rename_i incomplete
    have interrupt : frame.type = 4 := kind.resolve_left incomplete
    rw [if_pos interrupt] at received
    split at received
    · cases received
      exact ⟨rfl, rfl, rfl⟩
    · contradiction

end Receiver

/-! ## One result -/

/-- How far the receiving thread is with a result whose other messages are owed. -/
inductive Collecting (receiver : Receiver) (owed : List (List UInt8)) (result : List UInt8) : Prop
  /-- No message has been handled. -/
  | fresh (parts : List (List UInt8)) (cleared : receiver.resultBuf = [])
      (unready : receiver.resultReady = false) (split : SplitOf result parts)
      (ends : (ReportInput.report result parts).Ends) (messages : owed = resultMessages result parts)
  /-- Some bytes are in the buffer, and the last message has more. -/
  | begun (filled : receiver.resultBuf ≠ []) (length : receiver.resultLen = result.length)
      (unready : receiver.resultReady = false) (split : receiver.resultBuf ++ owed.flatten = result)
      (open_ : owed ≠ []) (last : owed.getLast? ≠ some [])
  /-- The buffer is the result. -/
  | whole (none_owed : owed = []) (same : receiver.resultBuf = result)
      (ready : receiver.resultReady = true)

/-- Parts of which the last is not empty have bytes. -/
theorem flatten_length_pos {parts : List (List UInt8)} (some_parts : parts ≠ [])
    (last : parts.getLast? ≠ some []) : 0 < parts.flatten.length := by
  obtain ⟨front, final, rfl⟩ := (List.eq_nil_or_concat parts).resolve_left some_parts
  have filled : final ≠ [] := by
    intro empty
    rw [empty] at last
    simp at last
  have positive := List.length_pos_of_ne_nil filled
  simp only [List.concat_eq_append, List.flatten_append, List.flatten_cons, List.flatten_nil,
    List.append_nil, List.length_append]
  omega

namespace Collecting

variable {receiver next : Receiver} {message result : List UInt8} {owed later : List (List UInt8)}

/-- While a message is owed, the next one is accepted and brings the result further. -/
theorem handle (collecting : Collecting receiver (message :: later) result) :
    ∃ next, receiver.receive (resultFrame message) = .ok next ∧
      Collecting (next.note (resultFrame message)) later result := by
  cases collecting with
  | fresh parts cleared unready split ends messages =>
    obtain ⟨described, joined, some_parts, firstFilled⟩ := split
    obtain ⟨lastFilled, single⟩ := ends
    cases parts with
    | nil => contradiction
    | cons first rest =>
      obtain ⟨rfl, rfl⟩ := List.cons.inj messages
      obtain ⟨next, received⟩ := Receiver.receive_first_ok receiver result first
      obtain ⟨buffer, length, ready⟩ :=
        Receiver.receive_first cleared unready described received
      refine ⟨next, received, ?_⟩
      rw [List.flatten_cons] at joined
      cases later with
      | nil =>
        rw [List.flatten_nil, List.append_nil] at joined
        apply Collecting.whole rfl
        · exact buffer.trans joined
        · rw [joined, decide_eq_true rfl] at ready
          exact ready
      | cons second rest =>
        have nonempty : result ≠ [] := by
          intro empty
          have one := single empty
          simp at one
        have last : (second :: rest).getLast? ≠ some [] := by
          have whole := lastFilled nonempty
          rwa [List.getLast?_cons_cons] at whole
        have more := flatten_length_pos (List.cons_ne_nil second rest) last
        have shorter : first.length ≠ result.length := by
          rw [← joined, List.length_append]
          omega
        apply Collecting.begun
        · intro empty
          exact firstFilled nonempty (by rw [← buffer.symm.trans empty]; rfl)
        · exact length
        · rw [decide_eq_false shorter] at ready
          exact ready
        · rw [← joined, ← buffer]
          rfl
        · exact List.cons_ne_nil second rest
        · exact last
  | begun filled length unready split open_ last =>
    refine ⟨_, Receiver.receive_further filled, ?_⟩
    rw [List.flatten_cons, ← List.append_assoc] at split
    cases later with
    | nil =>
      rw [List.flatten_nil, List.append_nil] at split
      apply Collecting.whole rfl split
      have all : (receiver.resultBuf ++ message).length = receiver.resultLen := by
        rw [split, length]
      simp only [Receiver.note, Receiver.appendResult, decide_eq_true all, Bool.or_true]
    | cons second rest =>
      rw [List.getLast?_cons_cons] at last
      have more := flatten_length_pos (List.cons_ne_nil second rest) last
      have shorter : (receiver.resultBuf ++ message).length ≠ receiver.resultLen := by
        have lengths := congrArg List.length split
        rw [List.length_append] at lengths
        omega
      apply Collecting.begun
      · simp [Receiver.note, Receiver.appendResult, filled]
      · exact length
      · simp only [Receiver.note, Receiver.appendResult, unready, decide_eq_false shorter,
          Bool.or_false]
      · exact split
      · exact List.cons_ne_nil second rest
      · exact last
  | whole none_owed same ready => contradiction

/-- Other messages do not matter to a result. -/
theorem other {frame : DeviceFrame} (collecting : Collecting receiver owed result)
    (kind : frame.type = 3 ∨ frame.type = 4) (received : receiver.receive frame = .ok next) :
    Collecting (next.note frame) owed result := by
  obtain ⟨buffer, length, ready⟩ := Receiver.receive_other kind received
  cases collecting with
  | fresh parts cleared unready split ends messages =>
    exact .fresh parts (buffer.trans cleared) (ready.trans unready) split ends messages
  | begun filled measured unready split open_ last =>
    rw [← buffer] at filled split
    exact .begun filled (length.trans measured) (ready.trans unready) split open_ last
  | whole none_owed same done => exact .whole none_owed (buffer.trans same) (ready.trans done)

/-- The result is ready exactly when nothing of it is owed. -/
theorem ready_iff (collecting : Collecting receiver owed result) :
    receiver.resultReady = true ↔ owed = [] := by
  cases collecting with
  | fresh parts cleared unready split ends messages =>
    obtain ⟨-, -, some_parts, -⟩ := split
    cases parts with
    | nil => contradiction
    | cons first rest => simp [unready, messages, resultMessages]
  | begun filled length unready split open_ last => simp [unready, open_]
  | whole none_owed same ready => simp [none_owed, ready]

/-- A ready buffer is the result. -/
theorem same_of_ready (collecting : Collecting receiver owed result)
    (ready : receiver.resultReady = true) : receiver.resultBuf = result := by
  cases collecting with
  | fresh parts cleared unready => rw [unready] at ready; contradiction
  | begun filled length unready => rw [unready] at ready; contradiction
  | whole none_owed same => exact same

end Collecting

/-! ## Every run -/

namespace Reporting

variable {link after : Reporting}

/-- The link is between results or within one. -/
structure Kept (link : Reporting) : Prop where
  /-- The receiving thread runs. -/
  healthy : link.fault = none
  /-- Between results, all of them were parsed. -/
  idle : link.waiting = false → link.owed = [] ∧ link.results = link.parsed
  /-- Within a result, those before it were parsed. -/
  busy : link.waiting = true → ∃ result, link.results = link.parsed ++ [result] ∧
    Collecting link.receiver link.owed result

theorem Kept.create (receiver : Receiver) : Kept (create receiver) where
  healthy := rfl
  idle := fun _ => ⟨rfl, rfl⟩
  busy := fun waits => by contradiction

/-- Every step whose result ends with a part that is not empty keeps the link so. -/
theorem Kept.step {input : ReportInput} (kept : Kept link) (ends : input.Ends)
    (stepped : link.step input = some after) : Kept after := by
  unfold Reporting.step at stepped
  rw [kept.healthy, Option.isSome_none, if_neg Bool.false_ne_true] at stepped
  cases input with
  | report result parts =>
    obtain ⟨⟨free, split⟩, same⟩ := Option.ite_none_right_eq_some.mp stepped
    obtain ⟨none_owed, settled⟩ := kept.idle free
    cases same
    exact {
      healthy := rfl
      idle := fun idle => by contradiction
      busy := fun _ => ⟨result, by rw [settled], by
        rw [none_owed]
        exact .fresh parts rfl rfl split ends rfl⟩ }
  | handle =>
    dsimp only at stepped
    cases owedEq : link.owed with
    | nil =>
      rw [owedEq] at stepped
      contradiction
    | cons message later =>
      rw [owedEq] at stepped
      have waits : link.waiting = true := by
        by_contra free
        have none_owed := (kept.idle (Bool.eq_false_iff.mpr free)).1
        rw [owedEq] at none_owed
        contradiction
      obtain ⟨result, asked, collecting⟩ := kept.busy waits
      rw [owedEq] at collecting
      obtain ⟨next, received, further⟩ := collecting.handle
      dsimp only at stepped
      rw [received] at stepped
      cases stepped
      exact {
        healthy := rfl
        idle := fun idle => absurd (waits.symm.trans idle) (by decide)
        busy := fun _ => ⟨result, asked, further⟩ }
  | other frame =>
    obtain ⟨kind, stepped⟩ := Option.ite_none_right_eq_some.mp stepped
    cases received : link.receiver.receive frame with
    | error fault =>
      rw [received] at stepped
      contradiction
    | ok next =>
      rw [received] at stepped
      cases stepped
      exact {
        healthy := rfl
        idle := kept.idle
        busy := fun waits => by
          obtain ⟨result, asked, collecting⟩ := kept.busy waits
          exact ⟨result, asked, collecting.other kind received⟩ }
  | parse =>
    obtain ⟨⟨waits, ready⟩, same⟩ := Option.ite_none_right_eq_some.mp stepped
    obtain ⟨result, asked, collecting⟩ := kept.busy waits
    cases same
    exact {
      healthy := rfl
      idle := fun _ => ⟨collecting.ready_iff.mp ready, by
        rw [asked, collecting.same_of_ready ready]⟩
      busy := fun waitsStill => by contradiction }

/-- What holds of results that are reassembled. -/
structure Reassembled (link : Reporting) : Prop where
  /-- The receiving thread runs. -/
  healthy : link.fault = none
  /-- While `report` waits, the result is ready exactly when no message of it is owed. -/
  ready_iff : link.waiting = true → (link.receiver.resultReady = true ↔ link.owed = [])
  /-- A ready buffer is the result that was asked for last. -/
  ready_result : link.waiting = true → link.receiver.resultReady = true →
    link.results = link.parsed ++ [link.receiver.resultBuf]
  /-- Every earlier result was parsed as it is, and all were when no call waits. -/
  parsed : ∃ open_, link.results = link.parsed ++ open_ ∧
    open_.length = if link.waiting then 1 else 0

/-- In every run, whatever the other messages between them, results whose last part is not empty, or
which are empty and sent in one part, are reassembled. -/
theorem reassembled {receiver : Receiver} {inputs : List ReportInput} {last : Reporting}
    (ends : ∀ input ∈ inputs, input.Ends)
    (ran : machine.run (create receiver) inputs = some last) : Reassembled last := by
  have guarded : ∀ before input after, machine.Takes (create receiver) inputs before input after →
      input.Ends := by
    rintro before input after ⟨past, future, rfl, -, -⟩
    exact ends input (by simp)
  have preserved : ∀ before input after, Kept before → input.Ends →
      machine.step before input = some after → Kept after :=
    fun before input after kept whole stepped => kept.step whole stepped
  have kept := Machine.run_guarded Kept (fun _ input _ => input.Ends) preserved (.create receiver)
    guarded ran
  exact {
    healthy := kept.healthy
    ready_iff := fun waits => by
      obtain ⟨result, -, collecting⟩ := kept.busy waits
      exact collecting.ready_iff
    ready_result := fun waits ready => by
      obtain ⟨result, asked, collecting⟩ := kept.busy waits
      rw [collecting.same_of_ready ready]
      exact asked
    parsed := by
      cases waitsEq : last.waiting with
      | false => exact ⟨[], by rw [(kept.idle waitsEq).2, List.append_nil], rfl⟩
      | true =>
        obtain ⟨result, asked, -⟩ := kept.busy waitsEq
        exact ⟨[result], asked, rfl⟩ }

/-- Two results, the first in two parts with an interrupt between them. -/
def twoReports : List ReportInput :=
  [.report [1, 2, 3] [[1, 2], [3]], .handle, .other ⟨4, [0, 1]⟩, .handle, .parse, .report [] [[]],
    .handle]

/-- They are reassembled. -/
theorem reassembled_two : ∃ last, machine.run (create .create) twoReports = some last ∧
    last.parsed = [[1, 2, 3]] ∧ Reassembled last := by
  have performed : ∃ last, machine.run (create .create) twoReports = some last ∧
      last.parsed = [[1, 2, 3]] := ⟨_, rfl, rfl⟩
  obtain ⟨last, ran, parsed⟩ := performed
  have ends : ∀ input ∈ twoReports, input.Ends := by simp [twoReports, ReportInput.Ends]
  exact ⟨last, ran, parsed, reassembled ends ran⟩

/-- A part without bytes ends the receiving thread when it follows its result: at once when the result
is empty, else when the next report has cleared the buffer. -/
theorem empty_part_aborts :
    (∃ last, machine.run (create .create) [.report [] [[], []], .handle, .handle] = some last ∧
      last.fault = some .assertion) ∧
    ∃ last, machine.run (create .create) [.report [1] [[1], []], .handle, .parse,
      .report [2] [[2]], .handle] = some last ∧ last.fault = some .assertion :=
  ⟨⟨_, rfl, rfl⟩, _, rfl, rfl⟩

end Reporting

end McmqHost
