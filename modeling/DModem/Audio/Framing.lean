/-
The frames that `d-modem` cuts out of the stream.

`slmodemd` writes the stream in segments of any length.  `dmodem_get_frame` reads once for each
frame and takes a read that is shorter than a frame for an error, on which `error_exit` ends the
program.
-/

import DModem.Audio.Exchange

namespace DModem.Audio

/-- What happens at the socket; a read of `dmodem_get_frame` returns `count`. -/
inductive SocketEvent where
  | write (segment : List UInt8)
  | close
  | getFrame (count : Nat)
  deriving DecidableEq, Repr

/-- What a `dmodem_get_frame` comes to: a frame, or `error_exit`, at the end of the stream or
before. -/
inductive FrameResult where
  | audio (buf : List UInt8)
  | error (ended : Bool)
  deriving DecidableEq, Repr

/-- The bytes on the way to `d-modem`, and what its calls have come to. -/
structure Socket where
  queue : List UInt8
  closed : Bool
  frames : List FrameResult
  exited : Bool
  deriving DecidableEq, Repr

namespace Socket

def opened : Socket := { queue := [], closed := false, frames := [], exited := false }

def MayRead (s : Socket) (count : Nat) : Prop :=
  (0 < count ∧ count ≤ frameSize ∧ count ≤ s.queue.length) ∨
    (count = 0 ∧ s.queue = [] ∧ s.closed = true)

instance (s : Socket) (count : Nat) : Decidable (s.MayRead count) :=
  inferInstanceAs (Decidable (_ ∨ _))

/-- `dmodem_get_frame`. -/
def dmodemGetFrame (s : Socket) (count : Nat) : Socket :=
  let buf := s.queue.take count
  let s := { s with queue := s.queue.drop count }
  if count ≠ frameSize then { s with frames := s.frames ++ [.error s.closed], exited := true }
  else { s with frames := s.frames ++ [.audio buf] }

/-- `none`: the event cannot happen, or `dmodem_get_frame` waits. -/
def step (s : Socket) : SocketEvent → Option Socket
  | .write segment =>
      if s.closed then none else some { s with queue := s.queue ++ segment }
  | .close => some { s with closed := true }
  | .getFrame count =>
      if ¬ s.exited ∧ s.MayRead count then some (s.dmodemGetFrame count) else none

def run : Socket → List SocketEvent → Option Socket
  | s, [] => some s
  | s, event :: rest => do
      let s ← s.step event
      s.run rest

end Socket

def written : List SocketEvent → List UInt8
  | [] => []
  | .write segment :: rest => segment ++ written rest
  | .close :: rest => written rest
  | .getFrame _ :: rest => written rest

/-- The events belong to a stream, all of which is written before the end. -/
structure Carries (stream : List UInt8) (events : List SocketEvent) : Prop where
  part : written events <+: stream
  whole : SocketEvent.close ∈ events → written events = stream

/-- What the frames have to be: the pieces of the stream one after the other, and an error where
the stream has no further piece. -/
def pieces (stream : List UInt8) (calls : Nat) : List FrameResult :=
  (List.range calls).map fun call =>
    if frameSize * (call + 1) ≤ stream.length then
      .audio ((stream.drop (frameSize * call)).take frameSize)
    else .error true

/-- Every read returns a whole frame, until the stream has ended and has no whole frame left. -/
def FullReads (stream : List UInt8) : Nat → Bool → List SocketEvent → Prop
  | _, _, [] => True
  | calls, closed, .getFrame count :: rest =>
      (count = frameSize ∨ closed = true ∧ stream.length < frameSize * (calls + 1)) ∧
        FullReads stream (calls + 1) closed rest
  | calls, closed, .write _ :: rest => FullReads stream calls closed rest
  | calls, _, .close :: rest => FullReads stream calls true rest

namespace Socket

variable {s s' : Socket} {stream : List UInt8} {events : List SocketEvent} {count : Nat}

theorem pieces_succ (stream : List UInt8) (calls : Nat) :
    pieces stream (calls + 1) = pieces stream calls ++
      [if frameSize * (calls + 1) ≤ stream.length then
        .audio ((stream.drop (frameSize * calls)).take frameSize) else .error true] := by
  unfold pieces
  rw [List.range_succ, List.map_append, List.map_singleton]

/-! ### One call -/

/-- The bytes that are queued and those still to be written continue the stream where the last
whole frame ends. -/
def Continues (stream : List UInt8) (s : Socket) (events : List SocketEvent) : Prop :=
  s.queue ++ written events <+: stream.drop (frameSize * s.frames.length)

theorem getFrame_frames (s : Socket) (count : Nat) :
    (s.dmodemGetFrame count).frames.length = s.frames.length + 1 := by
  unfold dmodemGetFrame
  dsimp only
  split
  · simp
  · simp

theorem getFrame_whole (may : s.MayRead frameSize)
    (continues : Continues stream s (.getFrame frameSize :: events)) :
    Continues stream (s.dmodemGetFrame frameSize) events ∧
      (s.dmodemGetFrame frameSize).exited = s.exited ∧
      (s.dmodemGetFrame frameSize).closed = s.closed ∧
      (s.dmodemGetFrame frameSize).frames = s.frames ++
        [.audio ((stream.drop (frameSize * s.frames.length)).take frameSize)] ∧
      frameSize * (s.frames.length + 1) ≤ stream.length := by
  have enough : frameSize ≤ s.queue.length := by
    cases may with
    | inl some_ => exact some_.2.2
    | inr none_ => exact absurd none_.1 (by decide)
  obtain ⟨later, split⟩ := continues
  rw [written, List.append_assoc] at split
  have taken : (stream.drop (frameSize * s.frames.length)).take frameSize =
      s.queue.take frameSize := by
    rw [← split, List.take_append_of_le_length enough]
  have lengths := congrArg List.length split
  rw [List.length_append, List.length_drop] at lengths
  have same : s.dmodemGetFrame frameSize =
      { s with
        queue := s.queue.drop frameSize
        frames := s.frames ++ [.audio (s.queue.take frameSize)] } := by
    unfold dmodemGetFrame
    rw [if_neg (not_not_intro rfl)]
  refine ⟨?_, ?_, ?_, ?_, ?_⟩
  · have next : stream.drop (frameSize * (s.frames.length + 1)) =
        s.queue.drop frameSize ++ (written events ++ later) := by
      rw [Nat.mul_succ, ← List.drop_drop, ← split, List.drop_append_of_le_length enough]
    unfold Continues
    rw [getFrame_frames, next, same, ← List.append_assoc]
    exact List.prefix_append _ _
  · rw [same]
  · rw [same]
  · rw [same, taken]
  · have positive : 0 < frameSize := by decide
    rw [Nat.mul_succ]
    omega

theorem getFrame_short (s : Socket) (short : count ≠ frameSize) :
    (s.dmodemGetFrame count).exited = true ∧
      (s.dmodemGetFrame count).frames = s.frames ++ [.error s.closed] := by
  unfold dmodemGetFrame
  rw [if_pos short]
  exact ⟨rfl, rfl⟩

/-! ### Runs -/

theorem exited_run (stream : List UInt8) (calls : Nat) (closed : Bool)
    (exited : s.exited = true) (ran : s.run events = some s') :
    s'.frames = s.frames ∧ FullReads stream calls closed events := by
  induction events generalizing s closed with
  | nil =>
      cases ran
      exact ⟨rfl, trivial⟩
  | cons event rest ih =>
      rw [run] at ran
      obtain ⟨next, stepped, later⟩ := Option.bind_eq_some_iff.mp ran
      cases event with
      | write segment =>
          simp only [step, Option.ite_none_left_eq_some, Option.some.injEq] at stepped
          obtain ⟨-, rfl⟩ := stepped
          exact ih (s := { s with queue := s.queue ++ segment }) closed exited later
      | close =>
          cases stepped
          exact ih (s := { s with closed := true }) true exited later
      | getFrame count => simp [step, exited] at stepped

theorem run_pieces_iff (live : s.exited = false) (continues : Continues stream s events)
    (sofar : s.frames = pieces stream s.frames.length) (ran : s.run events = some s') :
    s'.frames = pieces stream s'.frames.length ↔
      FullReads stream s.frames.length s.closed events := by
  induction events generalizing s with
  | nil =>
      cases ran
      exact iff_of_true sofar trivial
  | cons event rest ih =>
      rw [run] at ran
      obtain ⟨next, stepped, later⟩ := Option.bind_eq_some_iff.mp ran
      cases event with
      | write segment =>
          simp only [step, Option.ite_none_left_eq_some, Option.some.injEq] at stepped
          obtain ⟨-, rfl⟩ := stepped
          have goes : Continues stream { s with queue := s.queue ++ segment } rest := by
            unfold Continues at continues ⊢
            rw [List.append_assoc]
            exact continues
          exact ih (s := { s with queue := s.queue ++ segment }) live goes sofar later
      | close =>
          cases stepped
          exact ih (s := { s with closed := true }) live continues sofar later
      | getFrame count =>
          simp only [step, Option.ite_none_right_eq_some, Option.some.injEq] at stepped
          obtain ⟨⟨-, may⟩, rfl⟩ := stepped
          rw [FullReads]
          by_cases full : count = frameSize
          · subst full
            obtain ⟨goes, stays, open_, frames, fits⟩ := getFrame_whole may continues
            have again := ih (stays.trans live) goes
              (by rw [getFrame_frames, pieces_succ, if_pos fits, frames, ← sofar]) later
            rw [getFrame_frames, open_] at again
            rw [again]
            simp
          · obtain ⟨exits, frames⟩ := getFrame_short s full
            obtain ⟨same, rest_⟩ :=
              exited_run stream (s.frames.length + 1) s.closed exits later
            rw [same, getFrame_frames, pieces_succ, frames, ← sofar]
            by_cases fits : frameSize * (s.frames.length + 1) ≤ stream.length
            · rw [if_pos fits]
              simp [full, Nat.not_lt.mpr fits]
            · rw [if_neg fits]
              simp [full, rest_, Nat.lt_of_not_le fits]

end Socket

/-- **Framing.** However a stream is cut into segments and whenever they arrive, the frames are
its consecutive pieces, the same for both and with an error only at its end, if and only if no
read returns less than a frame before the end. -/
theorem frames_independent_iff (stream : List UInt8) (first second : List SocketEvent)
    (s s' : Socket) (firstCarries : Carries stream first) (secondCarries : Carries stream second)
    (firstRuns : Socket.opened.run first = some s)
    (secondRuns : Socket.opened.run second = some s') :
    (s.frames = pieces stream s.frames.length ∧ s'.frames = pieces stream s'.frames.length ∧
        ∀ calls, calls ≤ s.frames.length → calls ≤ s'.frames.length →
          s.frames.take calls = s'.frames.take calls) ↔
      FullReads stream 0 false first ∧ FullReads stream 0 false second := by
  have firstStarts : Socket.Continues stream Socket.opened first := firstCarries.part
  have secondStarts : Socket.Continues stream Socket.opened second := secondCarries.part
  have firstIff := Socket.run_pieces_iff rfl firstStarts rfl firstRuns
  have secondIff := Socket.run_pieces_iff rfl secondStarts rfl secondRuns
  constructor
  · rintro ⟨firstPieces, secondPieces, -⟩
    exact ⟨firstIff.mp firstPieces, secondIff.mp secondPieces⟩
  · rintro ⟨firstFull, secondFull⟩
    have firstPieces := firstIff.mpr firstFull
    have secondPieces := secondIff.mpr secondFull
    refine ⟨firstPieces, secondPieces, ?_⟩
    intro calls firstMade secondMade
    rw [firstPieces, secondPieces]
    unfold pieces
    rw [← List.map_take, ← List.map_take, List.take_range, List.take_range,
      Nat.min_eq_left firstMade, Nat.min_eq_left secondMade]

def twoFrames : List UInt8 := List.replicate 768 1

def twoRead : Socket := { Socket.opened with frames := pieces twoFrames 2 }

def oneSegment : List SocketEvent := [.write twoFrames, .getFrame 384, .getFrame 384]

def twoSegments : List SocketEvent :=
  [.write (List.replicate 384 1), .getFrame 384, .write (List.replicate 384 1), .getFrame 384]

theorem frames_independent_two :
    Socket.opened.run oneSegment = some twoRead ∧ Socket.opened.run twoSegments = some twoRead ∧
      FullReads twoFrames 0 false oneSegment ∧ FullReads twoFrames 0 false twoSegments := by
  have first : Socket.opened.run oneSegment = some twoRead := by decide +kernel
  have second : Socket.opened.run twoSegments = some twoRead := by decide +kernel
  have firstCarries : Carries twoFrames oneSegment :=
    ⟨⟨[], by decide +kernel⟩, fun closes => absurd closes (by decide +kernel)⟩
  have secondCarries : Carries twoFrames twoSegments :=
    ⟨⟨[], by decide +kernel⟩, fun closes => absurd closes (by decide +kernel)⟩
  have framed : twoRead.frames = pieces twoFrames twoRead.frames.length := by decide +kernel
  exact ⟨first, second,
    (frames_independent_iff twoFrames oneSegment twoSegments twoRead twoRead firstCarries
      secondCarries first second).mp ⟨framed, framed, fun _ _ _ => rfl⟩⟩

/-- A block that is two bytes shorter, after an adjustment by one sample. -/
theorem frames_cut_short :
    (Socket.opened.run [.write (List.replicate 382 1), .write (List.replicate 386 1),
        .getFrame 384]).map Socket.frames = some [.audio (List.replicate 384 1)] ∧
      (Socket.opened.run [.write (List.replicate 382 1), .getFrame 382,
        .write (List.replicate 386 1)]).map Socket.frames = some [.error false] ∧
      pieces (List.replicate 768 1) 1 = [.audio (List.replicate 384 1)] := by
  decide +kernel

end DModem.Audio
