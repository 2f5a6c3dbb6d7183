import McmqHost.Base.Frames
import McmqHost.Link.Reads

/-!
# The receiving thread

Each wake-up of `recv_thread` puts one chunk of the socket's bytes into a ring buffer and handles
the frames that are whole there. A frame whose length has been taken off the ring while its
body is not whole is remembered in `last_len`; the variable is declared inside the outer loop,
so the next wake-up has forgotten it and takes the body for the next frame.
-/

namespace McmqHost

/-- The capacity of `ringbuf`. -/
def ringCapacity : Nat := 16384

/-- A message from the device: a type and what comes after it. -/
structure DeviceFrame where
  /-- `type`. -/
  type : UInt16
  /-- The rest of the payload. -/
  rest : List UInt8
deriving DecidableEq, Repr

namespace DeviceFrame

/-- The payload of a frame. -/
def body (frame : DeviceFrame) : List UInt8 := beBytes 2 frame.type.toNat ++ frame.rest

/-- The type and the rest of a payload of at least two bytes. -/
def ofBody (payload : List UInt8) : DeviceFrame :=
  ⟨UInt16.ofNat (beValue (payload.take 2)), payload.drop 2⟩

@[simp] theorem length_body (frame : DeviceFrame) : frame.body.length = 2 + frame.rest.length := by
  simp [body]

@[simp] theorem ofBody_body (frame : DeviceFrame) : ofBody frame.body = frame := by
  have type : beValue (beBytes 2 frame.type.toNat) = frame.type.toNat :=
    beValue_beBytes_of_lt frame.type.toNat_lt
  have length : (beBytes 2 frame.type.toNat).length = 2 := length_beBytes 2 frame.type.toNat
  simp [ofBody, body, List.take_left' length, List.drop_left' length, type]

/-- No payload of two bytes or more changes its length. -/
theorem length_body_ofBody {payload : List UInt8} (typed : 2 ≤ payload.length) :
    (ofBody payload).body.length = payload.length := by
  rw [length_body, ofBody, List.length_drop]
  omega

end DeviceFrame

/-- The members of `PCIeLinkMcmq` that the receiving thread uses, with the frames that it has
handled. -/
structure Receiver where
  /-- `read_requests` and the reads that wait for them. -/
  reads : ReadLink
  /-- `irq_handler` is set. -/
  irqHandler : Bool
  /-- The vectors that `irq_handler` was called with, in order. -/
  vectors : List Nat
  /-- `device_ready`. -/
  deviceReady : Bool
  /-- `result_buf`. -/
  resultBuf : List UInt8
  /-- `result_len`. -/
  resultLen : Nat
  /-- `result_ready`. -/
  resultReady : Bool
  /-- Every frame handled so far, in order. -/
  dispatched : List DeviceFrame

namespace Receiver

/-- The end of the case for `RESULT`: the bytes are appended, and the result may be whole. -/
def appendResult (receiver : Receiver) (bytes : List UInt8) : Receiver :=
  { receiver with
    resultBuf := receiver.resultBuf ++ bytes
    resultReady := receiver.resultReady ||
      decide ((receiver.resultBuf ++ bytes).length = receiver.resultLen) }

/-- The case for `RESULT`: the first message after the buffer was cleared has the length in front. -/
def receiveResult (receiver : Receiver) (rest : List UInt8) : Except Fault Receiver :=
  if receiver.resultBuf.isEmpty then
    if 2 ≤ rest.length then
      pure ({ receiver with resultLen := beValue (rest.take 2) }.appendResult (rest.drop 2))
    else throw .assertion
  else pure (receiver.appendResult rest)

/-- The `switch` of `PCIeLinkMcmq::recv_thread` on the type of a message. -/
def receive (receiver : Receiver) (frame : DeviceFrame) : Except Fault Receiver :=
  if frame.type = 3 then do
    let reads ← receiver.reads.receiveReadComp frame.rest
    pure { receiver with reads := reads }
  else if frame.type = 4 then
    if frame.rest.length = 2 then
      pure { receiver with
        vectors := if receiver.irqHandler then receiver.vectors ++ [beValue frame.rest]
          else receiver.vectors }
    else throw .assertion
  else if frame.type = 5 then pure { receiver with deviceReady := true }
  else if frame.type = 7 then receiver.receiveResult frame.rest
  -- any other type is logged as bad
  else pure receiver

/-- Note a handled frame. -/
def note (receiver : Receiver) (frame : DeviceFrame) : Receiver :=
  { receiver with dispatched := receiver.dispatched ++ [frame] }

/-- What the loop does with the payload of a frame. -/
def dispatch (receiver : Receiver) (payload : List UInt8) : Except Fault Receiver :=
  if 2 ≤ payload.length then do
    let next ← receiver.receive (.ofBody payload)
    pure (next.note (.ofBody payload))
  else throw .assertion

/-- The inner loop of `PCIeLinkMcmq::recv_thread`, from what the ring holds and `last_len` to
what the ring holds at its end. -/
def drain (receiver : Receiver) (ring : List UInt8) (lastLen : Option Nat) :
    Except Fault (Receiver × List UInt8) :=
  match lastLen with
  | none =>
    if 2 < ring.length then
      let len := beValue (ring.take 2)
      if (ring.drop 2).length < len then drain receiver (ring.drop 2) (some len)
      else do
        let next ← receiver.dispatch ((ring.drop 2).take len)
        drain next ((ring.drop 2).drop len) none
    else pure (receiver, ring)
  | some len =>
    if len ≤ ring.length then do
      let next ← receiver.dispatch (ring.take len)
      drain next (ring.drop len) none
    else pure (receiver, ring)
termination_by 2 * ring.length + (if lastLen.isSome then 1 else 0)
decreasing_by
  all_goals simp only [List.length_drop, Option.isSome_some, Option.isSome_none, if_true,
    Bool.false_eq_true, if_false]
  all_goals omega

/-- `Ringbuffer::writeBuff`, which stores what fits. -/
def writeBuff (ring bytes : List UInt8) : List UInt8 :=
  ring ++ bytes.take (ringCapacity - ring.length)

/-- One wake-up of `PCIeLinkMcmq::recv_thread` with a chunk of bytes; `last_len` begins empty. -/
def wakeUp (receiver : Receiver) (ring chunk : List UInt8) :
    Except Fault (Receiver × List UInt8) := receiver.drain (writeBuff ring chunk) none

/-- A wake-up for each chunk. -/
def wakeUps (receiver : Receiver) (ring : List UInt8) :
    List (List UInt8) → Except Fault (Receiver × List UInt8)
  | [] => pure (receiver, ring)
  | chunk :: chunks => do
    let (next, left) ← receiver.wakeUp ring chunk
    next.wakeUps left chunks

/-- The handlers accept these frames one after the other: each body is well formed for its type. -/
def Readable (receiver : Receiver) : List DeviceFrame → Prop
  | [] => True
  | frame :: frames => ∃ next, receiver.receive frame = .ok next ∧ (next.note frame).Readable frames

/-- The handlers accept a body exactly when it is well formed for its type: an id in a read
completion, just the vector in an interrupt, the length in the first message of a result. -/
theorem receive_ok_iff (receiver : Receiver) (frame : DeviceFrame) :
    (∃ next, receiver.receive frame = .ok next) ↔
      (frame.type = 3 → 4 ≤ frame.rest.length) ∧ (frame.type = 4 → frame.rest.length = 2) ∧
        (frame.type = 7 → receiver.resultBuf = [] → 2 ≤ frame.rest.length) := by
  unfold receive ReadLink.receiveReadComp receiveResult
  by_cases completion : frame.type = 3
  · by_cases long : 4 ≤ frame.rest.length <;>
      simp [completion, long, bind, Except.bind, pure, Except.pure, throw, throwThe,
        MonadExceptOf.throw]
  · by_cases interrupt : frame.type = 4
    · by_cases two : frame.rest.length = 2 <;>
        simp [interrupt, two, pure, Except.pure, throw, throwThe, MonadExceptOf.throw]
    · by_cases ready : frame.type = 5
      · simp [ready, pure, Except.pure]
      · by_cases result : frame.type = 7
        · by_cases first : receiver.resultBuf = [] <;> by_cases long : 2 ≤ frame.rest.length <;>
            simp [result, first, long, pure, Except.pure, throw, throwThe, MonadExceptOf.throw]
        · simp [completion, interrupt, ready, result, pure, Except.pure]

/-! ## The loop on whole and on partial frames -/

variable {receiver : Receiver}

/-- A body of at least two bytes is handled as its frame. -/
theorem dispatch_body {frame : DeviceFrame} {next : Receiver}
    (received : receiver.receive frame = .ok next) :
    receiver.dispatch frame.body = .ok (next.note frame) := by
  unfold dispatch
  rw [if_pos (by rw [DeviceFrame.length_body]; omega), DeviceFrame.ofBody_body]
  exact bind_ok.mpr ⟨next, received, rfl⟩

/-- Two bytes are not enough to look at. -/
theorem drain_short {ring : List UInt8} (short : ring.length ≤ 2) :
    receiver.drain ring none = .ok (receiver, ring) := by
  unfold drain
  exact if_neg (Nat.not_lt.mpr short)

/-- A whole frame is taken off and handled. -/
theorem drain_frame {body rest : List UInt8} {next : Receiver} (typed : 2 ≤ body.length)
    (fits : body.length < 2 ^ 16) (handled : receiver.dispatch body = .ok next) :
    receiver.drain (Frames.frame body ++ rest) none = next.drain rest none := by
  have stated : beValue ((Frames.frame body ++ rest).take 2) = body.length := by
    rw [Frames.take_frame]
    exact beValue_beBytes_of_lt fits
  conv_lhs => unfold drain
  rw [if_pos (by rw [List.length_append, Frames.length_frame]; omega)]
  dsimp only
  rw [stated, Frames.drop_frame, if_neg (by rw [List.length_append]; omega), List.take_left,
    List.drop_left, handled]
  rfl

/-- Of a frame that is not whole, the length is taken off and forgotten. -/
theorem drain_part {body part : List UInt8} {rest : List UInt8} (fits : body.length < 2 ^ 16)
    (split : part ++ rest = Frames.frame body) (begun : 2 < part.length)
    (unfinished : part.length < (Frames.frame body).length) :
    receiver.drain part none = .ok (receiver, part.drop 2) := by
  have stated : beValue (part.take 2) = body.length := by
    have front : part.take 2 = (Frames.frame body ++ []).take 2 := by
      rw [List.append_nil, ← split, List.take_append_of_le_length (Nat.le_of_lt begun)]
    rw [front, Frames.take_frame]
    exact beValue_beBytes_of_lt fits
  rw [Frames.length_frame] at unfinished
  have missing : (part.drop 2).length < body.length := by
    rw [List.length_drop]
    omega
  conv_lhs => unfold drain
  rw [if_pos begun]
  dsimp only
  rw [stated, if_pos missing]
  unfold drain
  exact if_neg (Nat.not_le.mpr missing)

/-- The handlers leave the record alone. -/
theorem receive_dispatched {frame : DeviceFrame} {next : Receiver}
    (received : receiver.receive frame = .ok next) : next.dispatched = receiver.dispatched := by
  unfold receive at received
  split at received
  · obtain ⟨reads, -, same⟩ := bind_ok.mp received
    cases same
    rfl
  · split at received
    · split at received
      · cases received
        rfl
      · contradiction
    · split at received
      · cases received
        rfl
      · split at received
        · unfold receiveResult at received
          split at received
          · split at received
            · cases received
              rfl
            · contradiction
          · cases received
            rfl
        · cases received
          rfl

/-- A payload that is handled is recorded as one frame of its length. -/
theorem dispatch_ok {payload : List UInt8} {next : Receiver}
    (handled : receiver.dispatch payload = .ok next) :
    ∃ frame, frame.body.length = payload.length ∧
      next.dispatched = receiver.dispatched ++ [frame] := by
  unfold dispatch at handled
  split at handled
  · rename_i typed
    obtain ⟨middle, received, noted⟩ := bind_ok.mp handled
    cases noted
    refine ⟨.ofBody payload, DeviceFrame.length_body_ofBody typed, ?_⟩
    rw [note, receive_dispatched received]
  · contradiction

/-- The bytes of frames on the stream. -/
def bytesOf (frames : List DeviceFrame) : List UInt8 := Frames.stream (frames.map DeviceFrame.body)

/-- The loop takes two bytes more off the ring than it hands on for each frame. -/
theorem drain_consumes {bound : Nat} {ring left : List UInt8} {lastLen : Option Nat} {last : Receiver}
    (enough : 2 * ring.length + (if lastLen.isSome then 1 else 0) ≤ bound)
    (ran : receiver.drain ring lastLen = .ok (last, left)) :
    ∃ taken, last.dispatched = receiver.dispatched ++ taken ∧
      (bytesOf taken).length + left.length ≤ ring.length + (if lastLen.isSome then 2 else 0) := by
  induction bound generalizing receiver ring lastLen with
  | zero =>
    cases lastLen with
    | none =>
      have empty : ring.length = 0 := by
        simp only [Option.isSome_none, Bool.false_eq_true, if_false] at enough
        omega
      rw [drain_short (by omega)] at ran
      cases ran
      exact ⟨[], by simp, by simp [bytesOf]⟩
    | some len =>
      simp only [Option.isSome_some, if_true] at enough
      omega
  | succ bound ih =>
    have stop : ∀ pending : Option Nat, (Except.ok (receiver, ring) : Except Fault _) = .ok (last, left) →
        ∃ taken, last.dispatched = receiver.dispatched ++ taken ∧
          (bytesOf taken).length + left.length ≤
            ring.length + (if pending.isSome then 2 else 0) := by
      intro pending same
      cases same
      exact ⟨[], by simp, by simp [bytesOf]⟩
    have go : ∀ {payload : List UInt8} {rest : List UInt8} {next : Receiver},
        receiver.dispatch payload = .ok next → next.drain rest none = .ok (last, left) →
        2 * rest.length ≤ bound → ∃ taken, last.dispatched = receiver.dispatched ++ taken ∧
          (bytesOf taken).length + left.length ≤ 2 + payload.length + rest.length := by
      intro payload rest next handled continued smaller
      obtain ⟨frame, length, noted⟩ := dispatch_ok handled
      obtain ⟨taken, extended, account⟩ := ih (by simpa using smaller) continued
      refine ⟨frame :: taken, by rw [extended, noted, List.append_assoc]; rfl, ?_⟩
      simp only [Option.isSome_none, Bool.false_eq_true, if_false] at account
      unfold bytesOf at account ⊢
      rw [List.map_cons, Frames.length_stream_cons, length]
      omega
    unfold drain at ran
    cases lastLen with
    | none =>
      simp only [Option.isSome_none, Bool.false_eq_true, if_false] at enough ⊢
      dsimp only at ran
      split at ran
      · rename_i readable
        split at ran
        · rename_i missing
          obtain ⟨taken, extended, account⟩ := ih (by simp; omega) ran
          refine ⟨taken, extended, ?_⟩
          simp only [Option.isSome_some, if_true, List.length_drop] at account
          omega
        · obtain ⟨next, handled, continued⟩ := bind_ok.mp ran
          obtain ⟨taken, extended, account⟩ := go handled continued (by simp; omega)
          refine ⟨taken, extended, ?_⟩
          simp only [List.length_take, List.length_drop] at account
          omega
      · exact stop none ran
    | some len =>
      simp only [Option.isSome_some, if_true] at enough ⊢
      dsimp only at ran
      split at ran
      · obtain ⟨next, handled, continued⟩ := bind_ok.mp ran
        obtain ⟨taken, extended, account⟩ := go handled continued (by simp; omega)
        refine ⟨taken, extended, ?_⟩
        simp only [List.length_take, List.length_drop] at account
        omega
      · exact stop (some len) ran

/-- No wake-up hands on more than has come. -/
theorem wakeUps_consumes {chunks : List (List UInt8)} {ring left : List UInt8} {last : Receiver}
    (ran : receiver.wakeUps ring chunks = .ok (last, left)) :
    ∃ taken, last.dispatched = receiver.dispatched ++ taken ∧
      (bytesOf taken).length ≤ ring.length + chunks.flatten.length := by
  induction chunks generalizing receiver ring with
  | nil =>
    cases ran
    exact ⟨[], by simp, by simp [bytesOf]⟩
  | cons chunk chunks ih =>
    obtain ⟨⟨next, middle⟩, woke, ran⟩ := bind_ok.mp ran
    obtain ⟨first, firstEq, firstAccount⟩ := drain_consumes (Nat.le_refl _) woke
    obtain ⟨more, moreEq, moreAccount⟩ := ih ran
    refine ⟨first ++ more, by rw [moreEq, firstEq, List.append_assoc], ?_⟩
    simp only [Option.isSome_none, Bool.false_eq_true, if_false, writeBuff, List.length_append,
      List.length_take] at firstAccount
    unfold bytesOf at firstAccount moreAccount ⊢
    rw [List.map_append, Frames.stream_append, List.length_append, List.flatten_cons,
      List.length_append]
    omega

/-! ## Every way of cutting a stream -/

/-- Frames whose length fits its two bytes. -/
def Sized (frames : List DeviceFrame) : Prop := ∀ frame ∈ frames, frame.body.length < 2 ^ 16

/-- Whole frames in the ring are handled, and the thread then looks at what is behind them. -/
theorem drain_stream {frames later : List DeviceFrame} (part : List UInt8)
    (readable : receiver.Readable (frames ++ later)) (sized : Sized frames) :
    ∃ next : Receiver, next.Readable later ∧ next.dispatched = receiver.dispatched ++ frames ∧
      receiver.drain (bytesOf frames ++ part) none = next.drain part none := by
  induction frames generalizing receiver with
  | nil => exact ⟨receiver, readable, by simp, rfl⟩
  | cons frame frames ih =>
    obtain ⟨middle, received, readable⟩ := readable
    obtain ⟨next, after, noted, drained⟩ :=
      ih readable fun other listed => sized other (List.mem_cons_of_mem frame listed)
    refine ⟨next, after, ?_, ?_⟩
    · rw [noted, note, receive_dispatched received, List.append_assoc]
      rfl
    · rw [← drained]
      unfold bytesOf
      rw [List.map_cons, Frames.stream_cons, List.append_assoc]
      apply drain_frame
      · rw [DeviceFrame.length_body]
        omega
      · exact sized frame List.mem_cons_self
      · exact dispatch_body received

/-- All the frames that `chunks` should bring are handled, each once and in order. -/
def Dispatches (receiver : Receiver) (ring : List UInt8) (chunks : List (List UInt8))
    (frames : List DeviceFrame) : Prop :=
  ∃ last left, receiver.wakeUps ring chunks = .ok (last, left) ∧
    last.dispatched = receiver.dispatched ++ frames

/-- A thread that has lost bytes cannot handle all frames. -/
theorem not_dispatches {ring : List UInt8} {chunks : List (List UInt8)} {frames : List DeviceFrame}
    (lost : ring.length + chunks.flatten.length < (bytesOf frames).length) :
    ¬receiver.Dispatches ring chunks frames := by
  rintro ⟨last, left, ran, all⟩
  obtain ⟨taken, extended, account⟩ := wakeUps_consumes ran
  have same : frames = taken := List.append_cancel_left (all.symm.trans extended)
  rw [same] at lost
  omega

/-- Every chunk ends at most two bytes into a frame. -/
def EndsAtFrames (frames : List DeviceFrame) (before : Nat) (chunks : List (List UInt8)) : Prop :=
  ∀ past, past <+: chunks →
    Frames.AtFrame (frames.map DeviceFrame.body) (before + past.flatten.length)

/-- Frames behind which a chunk ends. -/
theorem endsAtFrames_cons {whole later : List DeviceFrame} {before : Nat} {part chunk : List UInt8}
    {chunks : List (List UInt8)} (early : before ≤ 2)
    (cut : before + chunk.length = (bytesOf whole).length + part.length) :
    EndsAtFrames (whole ++ later) before (chunk :: chunks) ↔
      EndsAtFrames later part.length chunks := by
  have nonempty : ∀ body ∈ whole.map DeviceFrame.body, 0 < body.length := by
    intro body listed
    obtain ⟨frame, -, rfl⟩ := List.mem_map.mp listed
    rw [DeviceFrame.length_body]
    omega
  have shift : ∀ past : List (List UInt8),
      Frames.AtFrame ((whole ++ later).map DeviceFrame.body) (before + (chunk :: past).flatten.length) ↔
        Frames.AtFrame (later.map DeviceFrame.body) (part.length + past.flatten.length) := by
    intro past
    have position : before + (chunk :: past).flatten.length =
        (Frames.stream (whole.map DeviceFrame.body)).length + (part.length + past.flatten.length) := by
      unfold bytesOf at cut
      rw [List.flatten_cons, List.length_append]
      omega
    rw [List.map_append, position, Frames.atFrame_append nonempty]
  constructor
  · intro ends past front
    exact (shift past).mp (ends (chunk :: past) (List.cons_prefix_cons.mpr ⟨rfl, front⟩))
  · intro ends past front
    cases past with
    | nil => exact ⟨[], List.nil_prefix, Nat.zero_le _, by simpa using early⟩
    | cons first past =>
      obtain ⟨same, tail⟩ := List.cons_prefix_cons.mp front
      rw [same]
      exact (shift past).mpr (ends past tail)

/-- From a ring with at most two bytes of the next frame, all frames are handled exactly when every
chunk ends at most two bytes into a frame. -/
theorem dispatches_iff {frames : List DeviceFrame} {ring : List UInt8} {chunks : List (List UInt8)}
    (readable : receiver.Readable frames) (sized : Sized frames) (short : ring.length ≤ 2)
    (small : ∀ chunk ∈ chunks, chunk.length ≤ 4096)
    (cut : ring ++ chunks.flatten = bytesOf frames) :
    receiver.Dispatches ring chunks frames ↔ EndsAtFrames frames ring.length chunks := by
  induction chunks generalizing receiver frames ring with
  | nil =>
    have none_left : frames = [] := by
      cases frames with
      | nil => rfl
      | cons frame frames =>
        have lengths := congrArg List.length cut
        unfold bytesOf at lengths
        rw [List.map_cons, Frames.length_stream_cons, DeviceFrame.length_body, List.flatten_nil,
          List.append_nil] at lengths
        omega
    subst none_left
    constructor
    · intro _ past front
      rw [List.prefix_nil.mp front]
      exact ⟨[], List.nil_prefix, Nat.zero_le _, by simpa using short⟩
    · intro _
      exact ⟨receiver, ring, rfl, by simp⟩
  | cons chunk chunks ih =>
    rw [List.flatten_cons, ← List.append_assoc] at cut
    obtain ⟨wholeBodies, laterBodies, part, split, front, rest, next⟩ := Frames.stream_split cut
    obtain ⟨whole, later, rfl, rfl, rfl⟩ := List.map_eq_append_iff.mp split
    have stored : writeBuff ring chunk = bytesOf whole ++ part := by
      unfold writeBuff
      have room : chunk.length ≤ ringCapacity - ring.length := by
        have size := small chunk List.mem_cons_self
        unfold ringCapacity
        omega
      rw [List.take_of_length_le room]
      exact front
    have sizedWhole : Sized whole := fun frame listed => sized frame (List.mem_append_left later listed)
    have sizedLater : Sized later := fun frame listed => sized frame (List.mem_append_right whole listed)
    obtain ⟨middle, readableLater, noted, drained⟩ := drain_stream part readable sizedWhole
    have length : ring.length + chunk.length = (bytesOf whole).length + part.length := by
      have lengths := congrArg List.length front
      rwa [List.length_append, List.length_append] at lengths
    rw [endsAtFrames_cons short length]
    have continued : ∀ {left : List UInt8}, middle.drain part none = .ok (middle, left) →
        (receiver.Dispatches ring (chunk :: chunks) (whole ++ later) ↔
          middle.Dispatches left chunks later) := by
      intro left stopped
      have woke : receiver.wakeUp ring chunk = .ok (middle, left) := by
        rw [wakeUp, stored, drained, stopped]
      have same : receiver.wakeUps ring (chunk :: chunks) = middle.wakeUps left chunks := by
        rw [wakeUps, woke]
        rfl
      unfold Dispatches
      rw [same, noted, List.append_assoc]
    by_cases begun : 2 < part.length
    · obtain none_left | ⟨body, bodies, laterEq, inside⟩ := next
      · rw [none_left] at rest
        obtain ⟨rfl, -⟩ := List.append_eq_nil_iff.mp rest
        contradiction
      · obtain ⟨frame, frames, rfl, rfl, rfl⟩ := List.map_eq_cons_iff.mp laterEq
        have fits := sizedLater frame List.mem_cons_self
        have arrived : part <+: Frames.frame frame.body := by
          apply List.prefix_of_prefix_length_le _ _ (Nat.le_of_lt inside)
          · exact part ++ chunks.flatten
          · exact List.prefix_append part chunks.flatten
          · rw [rest]
            exact List.prefix_append _ _
        obtain ⟨missing, completed⟩ := arrived
        rw [continued (drain_part fits completed begun inside)]
        -- the length is lost, so the bytes that are left cannot make up the frames that are
        have lost : (part.drop 2).length + chunks.flatten.length <
            (bytesOf (frame :: frames)).length := by
          have lengths := congrArg List.length rest
          rw [List.length_append] at lengths
          unfold bytesOf
          rw [← lengths, List.length_drop]
          omega
        constructor
        · intro dispatches
          exact absurd dispatches (not_dispatches lost)
        · intro ends
          have atFrame := ends [] List.nil_prefix
          rw [List.map_cons, List.flatten_nil, List.length_nil, Nat.add_zero,
            Frames.atFrame_inside inside] at atFrame
          exact absurd atFrame (Nat.not_le.mpr begun)
    · rw [continued (drain_short (Nat.le_of_not_lt begun))]
      exact ih readableLater sizedLater (Nat.le_of_not_lt begun)
        (fun other listed => small other (List.mem_cons_of_mem chunk listed)) rest

/-- Every frame is handled, once and in order, exactly when each chunk ends at most two bytes into a
frame. -/
theorem framed_iff {frames : List DeviceFrame} (readable : receiver.Readable frames)
    (sized : ∀ frame ∈ frames, frame.body.length ≤ 65535) {chunks : List (List UInt8)}
    (small : ∀ chunk ∈ chunks, 1 ≤ chunk.length ∧ chunk.length ≤ 4096)
    (cut : chunks.flatten = Frames.stream (frames.map DeviceFrame.body)) :
    (∃ last left, receiver.wakeUps [] chunks = .ok (last, left) ∧
      last.dispatched = receiver.dispatched ++ frames) ↔
    ∀ past, past <+: chunks → Frames.AtFrame (frames.map DeviceFrame.body) past.flatten.length := by
  have fits : Sized frames := fun frame listed => Nat.lt_succ_of_le (sized frame listed)
  have bounded : ∀ chunk ∈ chunks, chunk.length ≤ 4096 := fun chunk listed => (small chunk listed).2
  have start : ([] : List UInt8).length ≤ 2 := Nat.zero_le 2
  have settled := dispatches_iff readable fits start bounded cut
  unfold Dispatches EndsAtFrames at settled
  simpa only [List.length_nil, Nat.zero_add] using settled

/-- A receiving thread at its start. -/
def create : Receiver where
  reads := .create 0
  irqHandler := false
  vectors := []
  deviceReady := false
  resultBuf := []
  resultLen := 0
  resultReady := false
  dispatched := []

/-- The message that the device is ready. -/
def readyFrame : DeviceFrame := ⟨5, []⟩

/-- That message, an interrupt of vector 9 and a result of one byte. -/
def threeFrames : List DeviceFrame := [readyFrame, ⟨4, [0, 9]⟩, ⟨7, [0, 1, 42]⟩]

/-- Their bytes, cut behind the first byte of the second message and behind the length of the third. -/
def threeChunks : List (List UInt8) := [[0, 2, 0, 5, 0], [4, 0, 4, 0, 9, 0, 5], [0, 7, 0, 1, 42]]

theorem readable_threeFrames : create.Readable threeFrames := ⟨_, rfl, _, rfl, _, rfl, trivial⟩

/-- Messages cut at most two bytes into a frame are handled, once and in order. -/
theorem framed_iff_three : ∃ last left, create.wakeUps [] threeChunks = .ok (last, left) ∧
    last.dispatched = threeFrames := by
  refine (framed_iff readable_threeFrames (by decide) (by decide) (by decide)).mpr ?_
  intro past front
  have few : past.length ≤ 3 := front.length_le
  rw [List.prefix_iff_eq_take.mp front]
  generalize past.length = count at few
  obtain rfl | rfl | rfl | rfl : count = 0 ∨ count = 1 ∨ count = 2 ∨ count = 3 := by omega
  · exact ⟨[], List.nil_prefix, by decide, by decide⟩
  · exact ⟨_, List.take_prefix 1 _, by decide, by decide⟩
  · exact ⟨_, List.take_prefix 2 _, by decide, by decide⟩
  · exact ⟨_, List.prefix_refl _, by decide, by decide⟩

/-- The first message in two chunks, cut behind its third byte, is not handled. -/
theorem cut_lost : [[0, 2, 0], [5]].flatten = Frames.stream ([readyFrame].map DeviceFrame.body) ∧
    ∃ last left, create.wakeUps [] [[0, 2, 0], [5]] = .ok (last, left) ∧ last.dispatched = [] ∧
      last.deviceReady = false := by
  refine ⟨by decide, create, [0, 5], ?_, rfl, rfl⟩
  have first : create.wakeUp [] [0, 2, 0] = .ok (create, [0]) :=
    drain_part (show readyFrame.body.length < 2 ^ 16 by decide)
      (show [0, 2, 0] ++ [5] = Frames.frame readyFrame.body by decide) (by decide) (by decide)
  have second : create.wakeUp [0] [5] = .ok (create, [0, 5]) := drain_short (by decide)
  exact bind_ok.mpr ⟨_, first, bind_ok.mpr ⟨_, second, rfl⟩⟩

end Receiver

end McmqHost
