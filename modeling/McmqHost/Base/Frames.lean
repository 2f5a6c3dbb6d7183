import Mathlib.Data.List.Infix
import McmqHost.Base.Bytes

/-!
# Frames on a byte stream

A frame is a body behind its length, two bytes with the most significant first. A stream
of frames reads back as the bodies that were put into it as long as each length fits its two bytes.
Each body takes two bytes more than it has, so a reader that loses bytes of a stream cannot have
read all of it.
-/

namespace McmqHost

namespace Frames

/-- A body behind its length; a length that does not fit is cut off. -/
def frame (body : List UInt8) : List UInt8 := beBytes 2 body.length ++ body

/-- Frames one after the other. -/
def stream (bodies : List (List UInt8)) : List UInt8 := bodies.flatMap frame

/-- Take one frame off a stream, unless its bytes have not all come. -/
def readFrame (bytes : List UInt8) : Option (List UInt8 × List UInt8) :=
  if bytes.length < 2 + beValue (bytes.take 2) then none
  else some ((bytes.drop 2).take (beValue (bytes.take 2)), (bytes.drop 2).drop (beValue (bytes.take 2)))

/-- What one frame leaves is shorter than the stream. -/
theorem readFrame_length {bytes body rest : List UInt8} (read : readFrame bytes = some (body, rest)) :
    body.length = beValue (bytes.take 2) ∧ bytes.length = 2 + body.length + rest.length := by
  unfold readFrame at read
  split at read
  · contradiction
  · cases read
    simp only [List.length_take, List.length_drop]
    omega

/-- Read a stream to its end, refusing it when the last frame is cut. -/
def readFrames (bytes : List UInt8) : Option (List (List UInt8)) :=
  if bytes = [] then some []
  else
    match _ : readFrame bytes with
    | none => none
    | some (body, rest) => (readFrames rest).map (body :: ·)
termination_by bytes.length
decreasing_by
  have lengths := (readFrame_length ‹readFrame bytes = some (body, rest)›).2
  omega

@[simp] theorem stream_nil : stream [] = [] := rfl

@[simp] theorem stream_cons (body : List UInt8) (bodies : List (List UInt8)) :
    stream (body :: bodies) = frame body ++ stream bodies := rfl

@[simp] theorem stream_append (first second : List (List UInt8)) :
    stream (first ++ second) = stream first ++ stream second := List.flatMap_append

@[simp] theorem length_frame (body : List UInt8) : (frame body).length = 2 + body.length := by
  simp [frame]

@[simp] theorem take_frame (body rest : List UInt8) :
    (frame body ++ rest).take 2 = beBytes 2 body.length := by
  rw [frame, List.append_assoc]
  exact List.take_left' (length_beBytes 2 body.length)

@[simp] theorem drop_frame (body rest : List UInt8) : (frame body ++ rest).drop 2 = body ++ rest := by
  rw [frame, List.append_assoc]
  exact List.drop_left' (length_beBytes 2 body.length)

/-- A reader takes as many bytes as the length says. -/
theorem readFrame_eq (bytes : List UInt8) {length : Nat} (stated : beValue (bytes.take 2) = length)
    (here : 2 + length ≤ bytes.length) :
    readFrame bytes = some ((bytes.drop 2).take length, (bytes.drop 2).drop length) := by
  unfold readFrame
  rw [stated, if_neg (Nat.not_lt.mpr here)]

/-- A frame reads back as its body. -/
theorem readFrame_frame {body : List UInt8} (fits : body.length < 2 ^ 16) (rest : List UInt8) :
    readFrame (frame body ++ rest) = some (body, rest) := by
  have stated : beValue ((frame body ++ rest).take 2) = body.length := by
    rw [take_frame]
    exact beValue_beBytes_of_lt fits
  rw [readFrame_eq _ stated (by simp [Nat.add_assoc]), drop_frame, List.take_left, List.drop_left]

/-- Of a body whose length does not fit, a reader takes only a part. -/
theorem readFrame_cut {body : List UInt8} (long : 2 ^ 16 ≤ body.length) (rest : List UInt8) :
    ∃ part after, readFrame (frame body ++ rest) = some (part, after) ∧ part.length < body.length := by
  have stated : beValue ((frame body ++ rest).take 2) = body.length % 2 ^ 16 := by
    rw [take_frame]
    exact beValue_beBytes 2 body.length
  have shorter : body.length % 2 ^ 16 < body.length := by omega
  have here : 2 + body.length % 2 ^ 16 ≤ (frame body ++ rest).length := by
    rw [List.length_append, length_frame]
    omega
  have read := readFrame_eq _ stated here
  refine ⟨_, _, read, ?_⟩
  rw [(readFrame_length read).1, stated]
  exact shorter

@[simp] theorem readFrames_nil : readFrames [] = some [] := by
  unfold readFrames
  exact if_pos rfl

/-- The first frame is read, then the rest. -/
theorem readFrames_of_read {bytes body rest : List UInt8} (read : readFrame bytes = some (body, rest)) :
    readFrames bytes = (readFrames rest).map (body :: ·) := by
  have some_bytes : bytes ≠ [] := by
    intro none_left
    have lengths := (readFrame_length read).2
    rw [none_left, List.length_nil] at lengths
    omega
  conv_lhs => unfold readFrames
  rw [if_neg some_bytes]
  split
  · rename_i refused
    rw [read] at refused
    contradiction
  · rename_i bodyAgain restAgain again
    rw [read] at again
    cases again
    rfl

/-- A stream of frames reads back as its bodies. -/
theorem readFrames_stream {bodies : List (List UInt8)} (fit : ∀ body ∈ bodies, body.length < 2 ^ 16) :
    readFrames (stream bodies) = some bodies := by
  induction bodies with
  | nil => exact readFrames_nil
  | cons body bodies ih =>
    have read := readFrame_frame (fit body List.mem_cons_self) (stream bodies)
    have after := ih fun later listed => fit later (List.mem_cons_of_mem body listed)
    rw [stream_cons, readFrames_of_read read, after]
    rfl

/-! ## Cutting a stream -/

/-- A position in a stream at most two bytes into a frame: no more of the frame than its length has
come. -/
def AtFrame (bodies : List (List UInt8)) (position : Nat) : Prop :=
  ∃ whole, whole <+: bodies ∧ (stream whole).length ≤ position ∧
    position ≤ (stream whole).length + 2

/-- The start of a stream is whole frames and the start of the next frame. -/
theorem stream_split {bodies : List (List UInt8)} {bytes more : List UInt8}
    (cut : bytes ++ more = stream bodies) :
    ∃ whole later part, bodies = whole ++ later ∧ bytes = stream whole ++ part ∧
      part ++ more = stream later ∧
      (later = [] ∨ ∃ body rest, later = body :: rest ∧ part.length < (frame body).length) := by
  induction bodies generalizing bytes with
  | nil =>
    obtain ⟨rfl, rfl⟩ := List.append_eq_nil_iff.mp cut
    exact ⟨[], [], [], rfl, rfl, rfl, .inl rfl⟩
  | cons body bodies ih =>
    by_cases short : bytes.length < (frame body).length
    · exact ⟨[], body :: bodies, bytes, rfl, rfl, cut, .inr ⟨body, bodies, rfl, short⟩⟩
    · have long : (frame body).length ≤ bytes.length := Nat.le_of_not_lt short
      rw [stream_cons] at cut
      have front : bytes.take (frame body).length = frame body := by
        have taken := congrArg (List.take (frame body).length) cut
        rwa [List.take_append_of_le_length long, List.take_left] at taken
      have split : frame body ++ bytes.drop (frame body).length = bytes := by
        have parts := List.take_append_drop (frame body).length bytes
        rwa [front] at parts
      have rest : bytes.drop (frame body).length ++ more = stream bodies := by
        rw [← split, List.append_assoc] at cut
        exact List.append_cancel_left cut
      obtain ⟨whole, later, part, rfl, cutRest, after, last⟩ := ih rest
      refine ⟨body :: whole, later, part, rfl, ?_, after, last⟩
      rw [stream_cons, List.append_assoc, ← cutRest, split]

/-- Every frame has at least two bytes. -/
theorem length_stream_cons (body : List UInt8) (bodies : List (List UInt8)) :
    (stream (body :: bodies)).length = 2 + body.length + (stream bodies).length := by
  rw [stream_cons, List.length_append, length_frame]

/-- Past whole frames, a position is at a frame just when it is so among the frames that follow. -/
theorem atFrame_append {whole later : List (List UInt8)} {position : Nat}
    (nonempty : ∀ body ∈ whole, 0 < body.length) :
    AtFrame (whole ++ later) ((stream whole).length + position) ↔ AtFrame later position := by
  induction whole with
  | nil => simp
  | cons body whole ih =>
    rw [← ih fun other listed => nonempty other (List.mem_cons_of_mem body listed)]
    have positive := nonempty body List.mem_cons_self
    rw [length_stream_cons]
    constructor
    · rintro ⟨past, front, lower, upper⟩
      cases past with
      | nil =>
        rw [stream_nil, List.length_nil] at upper
        omega
      | cons first past =>
        obtain ⟨same, front⟩ := List.cons_prefix_cons.mp front
        rw [same, length_stream_cons] at lower upper
        exact ⟨past, front, by omega, by omega⟩
    · rintro ⟨past, front, lower, upper⟩
      refine ⟨body :: past, List.cons_prefix_cons.mpr ⟨rfl, front⟩, ?_, ?_⟩
      · rw [length_stream_cons]
        omega
      · rw [length_stream_cons]
        omega

/-- Inside a frame, a position is at a frame just when it is within the length. -/
theorem atFrame_inside {body : List UInt8} {rest : List (List UInt8)} {position : Nat}
    (inside : position < (frame body).length) : AtFrame (body :: rest) position ↔ position ≤ 2 := by
  constructor
  · rintro ⟨past, front, lower, upper⟩
    cases past with
    | nil => exact upper
    | cons first past =>
      obtain ⟨same, -⟩ := List.cons_prefix_cons.mp front
      rw [same, length_stream_cons] at lower
      rw [length_frame] at inside
      omega
  · intro early
    exact ⟨[], List.nil_prefix, Nat.zero_le position, early⟩

end Frames

end McmqHost
