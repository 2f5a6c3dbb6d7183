import McmqHost.Basic
import McmqHost.Base.Frames
import McmqHost.Driver.Queue

/-!
# Messages to the device

`send_message` puts a header of twelve bytes before the payload and hands both to the socket in
one call; `send_config` does the same with two bytes before the serialized configuration.
The functions are as the source computes them, on a little-endian host. Of the address the header keeps
the low 32 bits: the high half is moved up by 32 bits and then stored to a `uint32_t`, which holds
nothing of it. A length that does not fit the 16 bits of its field is stored modulo $2^{16}$.
-/

namespace McmqHost

/-- `PCIeLinkMcmq::MessageType`. -/
inductive MessageType
  /-- `READ_REQ`. -/
  | readReq
  /-- `WRITE_REQ`. -/
  | writeReq
  /-- `READ_COMP`. -/
  | readComp
  /-- `IRQ`. -/
  | irq
  /-- `DEV_READY`. -/
  | devReady
  /-- `REPORT`. -/
  | report
  /-- `RESULT`. -/
  | result
deriving DecidableEq, Repr

namespace MessageType

/-- The enumerator's value. -/
def code : MessageType → Nat
  | readReq => 1
  | writeReq => 2
  | readComp => 3
  | irq => 4
  | devReady => 5
  | report => 6
  | result => 7

/-- The enumerator of a value. -/
def ofCode : Nat → Option MessageType
  | 1 => some readReq
  | 2 => some writeReq
  | 3 => some readComp
  | 4 => some irq
  | 5 => some devReady
  | 6 => some report
  | 7 => some result
  | _ => none

@[simp] theorem ofCode_code (type : MessageType) : ofCode type.code = some type := by
  cases type <;> rfl

theorem code_lt (type : MessageType) : type.code < 2 ^ 16 := by
  cases type <;> decide

end MessageType

/-- The arguments of a call of `send_message`. -/
structure LinkMessage where
  /-- `type`. -/
  type : MessageType
  /-- `addr`. -/
  addr : UInt64
  /-- The `len` bytes at `buf`; a null `buf` comes with `len = 0`. -/
  payload : List UInt8
deriving DecidableEq, Repr

/-- How a call that sends ends when it does not return. -/
inductive SendFault
  /-- The exception of `std::vector::resize`. -/
  | lengthError
  /-- The `std::runtime_error` of a short or failed `send`. -/
  | runtimeError
deriving DecidableEq, Repr

/-- `htons`, which swaps the bytes of a `uint16_t`. -/
def htons (value : Nat) : Nat := leValue (leBytes 2 value).reverse

/-- `htonl`, which swaps the bytes of a `uint32_t`. -/
def htonl (value : Nat) : Nat := leValue (leBytes 4 value).reverse

/-- Hand `msg` to the socket. `accepted` is what `send` answers: an error, or a number of bytes, which the
caller keeps as an `int` and compares with the size as a `size_t`. -/
def sendAll (stream msg : List UInt8) (accepted : Option Nat) : Except SendFault (List UInt8) :=
  if 2 ^ 63 ≤ msg.length then .error .lengthError
  else
    match accepted with
    | none => .error .runtimeError
    | some count =>
      if toInt (u32 count) % 2 ^ 64 = (msg.length : Int) then .ok (stream ++ msg.take count)
      else .error .runtimeError

/-- The `msg` of `send_message`. -/
def LinkMessage.bytes (message : LinkMessage) : List UInt8 :=
  let msgLen := 2 + 8 + message.payload.length
  let high := htonl (message.addr.toNat / 2 ^ 32 % 2 ^ 32)
  leBytes 2 (htons (u16 msgLen)) ++ leBytes 2 (htons (u16 message.type.code)) ++
    leBytes 4 (u32 (u64 (high * 2 ^ 32))) ++ leBytes 4 (htonl (message.addr.toNat % 2 ^ 32)) ++
    message.payload

/-- `PCIeLinkMcmq::send_message`, after which the socket has taken `stream` in all. -/
def sendMessage (stream : List UInt8) (message : LinkMessage) (accepted : Option Nat) :
    Except SendFault (List UInt8) := sendAll stream message.bytes accepted

/-- The `msg` of `send_config`; `ByteSizeLong` is the length of the serialized configuration. -/
def configBytes (config : List UInt8) : List UInt8 := leBytes 2 (htons (u16 config.length)) ++ config

/-- `PCIeLinkMcmq::send_config`. -/
def sendConfig (stream config : List UInt8) (accepted : Option Nat) : Except SendFault (List UInt8) :=
  sendAll stream (configBytes config) accepted

/-- Calls of `send_message` one after the other, each with the socket's answer. -/
def sendMessages (stream : List UInt8) : List (LinkMessage × Option Nat) → Except SendFault (List UInt8)
  | [] => .ok stream
  | (message, accepted) :: rest => do
    let stream ← sendMessage stream message accepted
    sendMessages stream rest

/-- The reader's view of a frame: a type, an address and the payload. -/
def readMessage (body : List UInt8) : Option LinkMessage :=
  if body.length < 10 then none
  else
    (MessageType.ofCode (beValue (body.take 2))).map fun type =>
      { type, addr := UInt64.ofNat (beValue ((body.drop 2).take 8)), payload := body.drop 10 }

/-- Read a stream of messages frame by frame. -/
def readMessages (stream : List UInt8) : Option (List LinkMessage) :=
  (Frames.readFrames stream).bind fun bodies => bodies.mapM readMessage

theorem leBytes_htons (value : Nat) : leBytes 2 (htons (u16 value)) = beBytes 2 value := by
  have swapped := leBytes_leValue (leBytes 2 (u16 value)).reverse
  rw [List.length_reverse, length_leBytes] at swapped
  rw [htons, swapped]
  exact beBytes_mod 2 value

theorem leBytes_htonl (value : Nat) : leBytes 4 (htonl (value % 2 ^ 32)) = beBytes 4 value := by
  have swapped := leBytes_leValue (leBytes 4 (value % 2 ^ 32)).reverse
  rw [List.length_reverse, length_leBytes] at swapped
  rw [htonl, swapped]
  exact beBytes_mod 4 value

/-- What is moved up by 32 bits leaves nothing in a `uint32_t`. -/
theorem u32_shifted (value : Nat) : u32 (u64 (value * 2 ^ 32)) = 0 := by
  unfold u32 u64
  omega

namespace LinkMessage

/-- What the frame of a message holds. -/
def body (message : LinkMessage) : List UInt8 :=
  beBytes 2 message.type.code ++ beBytes 8 (message.addr.toNat % 2 ^ 32) ++ message.payload

/-- The header can describe the message. -/
def Fits (message : LinkMessage) : Prop :=
  message.addr.toNat < 2 ^ 32 ∧ message.payload.length ≤ 65525

@[simp] theorem length_body (message : LinkMessage) :
    message.body.length = 10 + message.payload.length := by
  simp [body]
  omega

/-- The upper half of the address is stored as zero, the rest in network order. -/
theorem bytes_frame (message : LinkMessage) : message.bytes = Frames.frame message.body := by
  have address : beBytes 8 (message.addr.toNat % 2 ^ 32) =
      leBytes 4 0 ++ beBytes 4 message.addr.toNat := by
    have upper : message.addr.toNat % 2 ^ 32 / 256 ^ 4 = 0 := by omega
    have lower : beBytes 4 (message.addr.toNat % 2 ^ 32) = beBytes 4 message.addr.toNat :=
      beBytes_mod 4 message.addr.toNat
    rw [← lower, show leBytes 4 0 = beBytes 4 0 from rfl, ← upper]
    exact beBytes_add 4 4 (message.addr.toNat % 2 ^ 32)
  have length : 2 + 8 + message.payload.length = message.body.length := by
    rw [length_body]
  unfold bytes Frames.frame
  simp only [u32_shifted, leBytes_htons, leBytes_htonl, length, List.append_assoc]
  simp only [body, address, List.append_assoc]

@[simp] theorem length_bytes (message : LinkMessage) :
    message.bytes.length = 12 + message.payload.length := by
  rw [bytes_frame, Frames.length_frame, length_body]
  omega

/-- A body reads back but for the upper half of the address. -/
theorem readMessage_body (message : LinkMessage) :
    readMessage message.body =
      some { message with addr := UInt64.ofNat (message.addr.toNat % 2 ^ 32) } := by
  have first : message.body.take 2 = beBytes 2 message.type.code := by
    rw [body, List.append_assoc]
    exact List.take_left' (length_beBytes 2 _)
  have second : (message.body.drop 2).take 8 = beBytes 8 (message.addr.toNat % 2 ^ 32) := by
    rw [body, List.append_assoc, List.drop_left' (length_beBytes 2 _)]
    exact List.take_left' (length_beBytes 8 _)
  have third : message.body.drop 10 = message.payload := by
    rw [body]
    exact List.drop_left' (by simp)
  have type : beValue (beBytes 2 message.type.code) = message.type.code :=
    beValue_beBytes_of_lt (MessageType.code_lt message.type)
  have addr : beValue (beBytes 8 (message.addr.toNat % 2 ^ 32)) = message.addr.toNat % 2 ^ 32 :=
    beValue_beBytes_of_lt (lt_of_lt_of_le (Nat.mod_lt _ (by decide)) (by decide))
  unfold readMessage
  rw [if_neg (by rw [length_body]; omega), first, second, third, type, addr]
  simp

end LinkMessage

/-- A body gives all but ten of its bytes to the payload. -/
theorem readMessage_length {body : List UInt8} {message : LinkMessage}
    (read : readMessage body = some message) : body.length = 10 + message.payload.length := by
  unfold readMessage at read
  split at read
  · contradiction
  · obtain ⟨type, -, rfl⟩ := Option.map_eq_some_iff.mp read
    simp only [List.length_drop]
    omega

/-- The first message is read, then the rest. -/
theorem readMessages_of_read {stream body rest : List UInt8}
    (read : Frames.readFrame stream = some (body, rest)) :
    readMessages stream =
      (readMessage body).bind fun message => (readMessages rest).map (message :: ·) := by
  unfold readMessages
  rw [Frames.readFrames_of_read read]
  cases Frames.readFrames rest with
  | none => simp
  | some bodies =>
    simp only [Option.map_some, Option.bind_some, List.mapM_cons]
    cases readMessage body with
    | none => rfl
    | some message =>
      cases List.mapM readMessage bodies <;> rfl

namespace LinkMessage

/-- A frame whose length was cut off ends before its payload does. -/
theorem readMessages_cut {message : LinkMessage} (long : 65525 < message.payload.length)
    (rest : List UInt8) (messages : List LinkMessage) :
    readMessages (message.bytes ++ rest) ≠ some (message :: messages) := by
  have cut : 2 ^ 16 ≤ message.body.length := by
    rw [length_body]
    omega
  obtain ⟨part, after, read, shorter⟩ := Frames.readFrame_cut cut rest
  rw [bytes_frame, readMessages_of_read read]
  intro decoded
  obtain ⟨first, parsed, joined⟩ := Option.bind_eq_some_iff.mp decoded
  obtain ⟨later, -, same⟩ := Option.map_eq_some_iff.mp joined
  have whole : first = message := (List.cons.inj same).1
  have lengths := readMessage_length parsed
  rw [whole, ← length_body message] at lengths
  omega

/-- A frame whose length fits loses at most the upper half of the address. -/
theorem readMessages_cons {message : LinkMessage} (short : message.payload.length ≤ 65525)
    (rest : List UInt8) :
    readMessages (message.bytes ++ rest) =
      (readMessages rest).map
        ({ message with addr := UInt64.ofNat (message.addr.toNat % 2 ^ 32) } :: ·) := by
  have fits : message.body.length < 2 ^ 16 := by
    rw [length_body]
    omega
  rw [bytes_frame, readMessages_of_read (Frames.readFrame_frame fits rest), readMessage_body]
  rfl

@[simp] theorem readMessages_nil : readMessages [] = some [] := by
  simp [readMessages]

/-- The message is its own low half exactly when its address has no upper one. -/
theorem low_eq_iff (message : LinkMessage) :
    { message with addr := UInt64.ofNat (message.addr.toNat % 2 ^ 32) } = message ↔
      message.addr.toNat < 2 ^ 32 := by
  have small := message.addr.toNat_lt
  have stored : (UInt64.ofNat (message.addr.toNat % 2 ^ 32)).toNat = message.addr.toNat % 2 ^ 32 := by
    rw [UInt64.toNat_ofNat', Nat.mod_eq_of_lt]
    omega
  constructor
  · intro same
    have address : UInt64.ofNat (message.addr.toNat % 2 ^ 32) = message.addr :=
      congrArg LinkMessage.addr same
    rw [address] at stored
    rw [stored]
    exact Nat.mod_lt _ (by decide)
  · intro below
    rw [Nat.mod_eq_of_lt below, UInt64.ofNat_toNat]

/-- Messages decode to themselves exactly when the header can describe each of them. -/
theorem readMessages_iff (messages : List LinkMessage) :
    readMessages (messages.flatMap bytes) = some messages ↔ ∀ message ∈ messages, message.Fits := by
  induction messages with
  | nil => simp
  | cons message messages ih =>
    rw [List.flatMap_cons, List.forall_mem_cons]
    by_cases short : message.payload.length ≤ 65525
    · rw [readMessages_cons short, ← ih, Fits, ← low_eq_iff message]
      cases readMessages (messages.flatMap bytes) with
      | none => simp
      | some later => simp [short]
    · have cut := readMessages_cut (Nat.lt_of_not_le short) (messages.flatMap bytes) messages
      have unfit : ¬message.Fits := fun fits => short fits.2
      simp [cut, unfit]

end LinkMessage

/-- The body of a configuration reads back exactly when its length fits. -/
theorem readFrames_config_iff (config : List UInt8) :
    Frames.readFrames (configBytes config) = some [config] ↔ config.length ≤ 65535 := by
  have framed : configBytes config = Frames.frame config := by
    rw [configBytes, leBytes_htons, Frames.frame]
  rw [framed]
  constructor
  · intro decoded
    by_contra long
    obtain ⟨part, after, read, shorter⟩ :=
      Frames.readFrame_cut (Nat.lt_of_not_le long : 2 ^ 16 ≤ config.length) []
    rw [List.append_nil] at read
    rw [Frames.readFrames_of_read read] at decoded
    obtain ⟨later, -, same⟩ := Option.map_eq_some_iff.mp decoded
    rw [(List.cons.inj same).1] at shorter
    exact Nat.lt_irrefl _ shorter
  · intro short
    have fits : ∀ body ∈ [config], body.length < 2 ^ 16 := by
      intro body listed
      rw [List.mem_singleton.mp listed]
      exact Nat.lt_succ_of_le short
    have decoded := Frames.readFrames_stream fits
    rwa [Frames.stream_cons, Frames.stream_nil, List.append_nil] at decoded

/-- What a call that returns has handed over. -/
theorem sendAll_ok {stream msg next : List UInt8} {accepted : Option Nat}
    (sent : sendAll stream msg accepted = .ok next) : next = stream ++ msg := by
  unfold sendAll at sent
  split at sent
  · contradiction
  · rename_i small
    cases accepted with
    | none => contradiction
    | some count =>
      dsimp only at sent
      split at sent
      · rename_i kept
        cases sent
        -- an `int` is the size only when at least that many bytes were accepted
        have all : msg.length ≤ count := by
          unfold toInt u32 at kept
          split at kept <;> omega
        rw [List.take_of_length_le all]
      · contradiction

/-- A call returns when the socket accepts the whole message. -/
theorem sendAll_whole {msg : List UInt8} (small : msg.length < 2 ^ 31) (stream : List UInt8) :
    sendAll stream msg (some msg.length) = .ok (stream ++ msg) := by
  have kept : toInt (u32 msg.length) % 2 ^ 64 = (msg.length : Int) := by
    rw [u32_of_lt (by omega), toInt, if_pos small]
    omega
  unfold sendAll
  rw [if_neg (by omega)]
  dsimp only
  rw [if_pos kept, List.take_length]

/-- Calls that return put their messages on the stream. -/
theorem sendMessages_ok {sends : List (LinkMessage × Option Nat)} {stream next : List UInt8}
    (sent : sendMessages stream sends = .ok next) :
    next = stream ++ (sends.map Prod.fst).flatMap LinkMessage.bytes := by
  induction sends generalizing stream with
  | nil =>
    cases sent
    simp
  | cons first sends ih =>
    obtain ⟨middle, one, more⟩ := bind_ok.mp sent
    rw [ih more, sendAll_ok one, List.map_cons, List.flatMap_cons, List.append_assoc]

namespace LinkMessage

/-- The messages of calls that return read back from the stream exactly when each has an address below
$2^{32}$ and a payload that the length field can describe, and a configuration exactly when its own
length fits. -/
theorem sent_iff {sends : List (LinkMessage × Option Nat)} {stream : List UInt8}
    (sent : sendMessages [] sends = .ok stream) {config prologue : List UInt8}
    {accepted : Option Nat} (configured : sendConfig [] config accepted = .ok prologue) :
    (readMessages stream = some (sends.map Prod.fst) ↔
      ∀ message ∈ sends.map Prod.fst, message.addr.toNat < 2 ^ 32 ∧ message.payload.length ≤ 65525) ∧
    (Frames.readFrames prologue = some [config] ↔ config.length ≤ 65535) := by
  rw [sendMessages_ok sent, sendAll_ok configured, List.nil_append, List.nil_append]
  exact ⟨readMessages_iff (sends.map Prod.fst), readFrames_config_iff config⟩

/-- A register write and a read request, each taken whole. -/
def twoSends : List (LinkMessage × Option Nat) :=
  [(⟨.writeReq, 0x1000, [1, 0, 0, 0]⟩, some 16), (⟨.readReq, 0x14, [7, 0, 0, 0, 4, 0]⟩, some 18)]

/-- Both come back, and so does a configuration of three bytes. -/
theorem sent_iff_two : ∃ stream prologue, sendMessages [] twoSends = .ok stream ∧
    sendConfig [] [8, 1, 16] (some 5) = .ok prologue ∧
    readMessages stream = some (twoSends.map Prod.fst) ∧
    Frames.readFrames prologue = some [[8, 1, 16]] := by
  have sent : sendMessages [] twoSends =
      .ok ((twoSends.map Prod.fst).flatMap LinkMessage.bytes) := by decide +kernel
  have configured : sendConfig [] [8, 1, 16] (some 5) = .ok (configBytes [8, 1, 16]) := by
    decide +kernel
  obtain ⟨messages, config⟩ := sent_iff sent configured
  exact ⟨_, _, sent, configured, messages.mpr (by decide), config.mpr (by decide)⟩

/-- A payload that the length field cannot describe is sent all the same, and does not come back. -/
theorem long_lost (message : LinkMessage) (length : Nat) (counted : message.payload.length = length)
    (long : 65525 < length) (small : length < 2 ^ 30) :
    ∃ stream, sendMessages [] [(message, some (12 + length))] = .ok stream ∧
      readMessages stream ≠ some [message] := by
  have whole := sendAll_whole (by rw [length_bytes]; omega : message.bytes.length < 2 ^ 31) []
  rw [length_bytes, counted, List.nil_append] at whole
  have cut := readMessages_cut (by omega : 65525 < message.payload.length) [] []
  rw [List.append_nil] at cut
  exact ⟨message.bytes, bind_ok.mpr ⟨message.bytes, whole, rfl⟩, cut⟩

/-- A write at address $2^{32}$ is sent as one at zero, and a payload of 65526 bytes does not
come back either, though both calls return. -/
theorem addr_lost :
    (∃ stream, sendMessages [] [(⟨.writeReq, 0x100000000, []⟩, some 12)] = .ok stream ∧
      readMessages stream = some [⟨.writeReq, 0, []⟩]) ∧
    ∃ stream, sendMessages [] [(⟨.writeReq, 0, List.replicate 65526 0⟩, some 65538)] = .ok stream ∧
      readMessages stream ≠ some [⟨.writeReq, 0, List.replicate 65526 0⟩] := by
  constructor
  · refine ⟨_, rfl, ?_⟩
    have short : (⟨.writeReq, 0x100000000, []⟩ : LinkMessage).payload.length ≤ 65525 := by decide
    have decoded := readMessages_cons short []
    rw [List.append_nil, readMessages_nil] at decoded
    exact decoded
  · exact long_lost ⟨.writeReq, 0, List.replicate 65526 0⟩ 65526 List.length_replicate (by decide)
      (by decide)

end LinkMessage

end McmqHost
