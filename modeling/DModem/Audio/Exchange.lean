/-
The audio exchange between `d-modem` and `slmodemd`.

The two processes share a socket pair, that is, a queue of bytes in each direction.
`socket_start` and the `main` of `d-modem` each put one block of silence into it.
After that the conference bridge takes a frame from one queue before it puts one into
the other, and the loop of `slmodemd` writes as many samples as it has read.
-/

import Mathlib

namespace DModem.Audio

/-- `PJMEDIA_FSZ`. -/
def pjmediaFsz (bps usecPtime : Nat) : Nat := bps * usecPtime / 8000000

/-- The average frame size after
`pjmedia_port_info_init(info, .., clock_rate, channel_count, bits_per_sample, samples_per_frame)`. -/
def avgFsz (clockRate channelCount bitsPerSample samplesPerFrame : Nat) : Nat :=
  pjmediaFsz (clockRate * channelCount * bitsPerSample)
    (samplesPerFrame * 1000000 / channelCount / clockRate)

/-- `frame->size` in `dmodem_get_frame`. -/
def frameSize : Nat := avgFsz 9600 1 16 192

/-- `sizeof(buf)` of `main` in `d-modem.c`, and `192*2` of `socket_start`. -/
def startBlock : Nat := 384

/-- `sizeof(inbuf)`. -/
def inbufSize : Nat := 4096

example : frameSize = 384 := by decide

inductive FrameType where
  | none
  | audio
  deriving DecidableEq, Repr

structure MediaFrame where
  type : FrameType
  buf : List UInt8
  deriving DecidableEq, Repr

/-- Where `slmodemd` stands: before the write of `socket_start`, in `select`, or
between a read of `count` samples and the matching write.  `hungUp` is the branch for
a read without a whole sample. -/
inductive ModemPhase where
  | starting
  | waiting
  | holding (count : Nat)
  | hungUp
  deriving DecidableEq, Repr

/-- Where `d-modem` stands: before the write of `main`, about to get a frame, or about
to put one.  `exited` is `error_exit`. -/
inductive BridgePhase where
  | starting
  | getting
  | putting
  | exited
  deriving DecidableEq, Repr

structure Exchange where
  toModem : List UInt8
  toBridge : List UInt8
  modem : ModemPhase
  bridge : BridgePhase
  updateDelay : Int
  deriving DecidableEq, Repr

/-- What one of the processes does next.  `deviceWrite` carries the samples that
`modem_process` has made and the `update_delay` that it has set, if any. -/
inductive AudioEvent where
  | socketStart
  | dmodemStart
  | deviceRead
  | deviceWrite (out : List UInt8) (requested : Option Int)
  | dmodemGetFrame
  | dmodemPutFrame (frame : MediaFrame)
  deriving DecidableEq, Repr

namespace Exchange

def initial : Exchange :=
  { toModem := []
    toBridge := []
    modem := .starting
    bridge := .starting
    updateDelay := 0 }

/-- `write(fd, zeros, count)`. -/
def silence (count : Nat) : List UInt8 := List.replicate count 0

/-- `modem_run` from `device_read` to `modem_process`. -/
def deviceRead (s : Exchange) : Exchange :=
  let taken := s.toModem.take inbufSize
  let s := { s with toModem := s.toModem.drop inbufSize }
  let count := taken.length / 2
  if count = 0 then { s with modem := .hungUp }
  else if s.updateDelay < 0 then
    if -s.updateDelay ≥ (count : Int) then
      { s with updateDelay := s.updateDelay + count, modem := .waiting }
    else
      { s with updateDelay := 0, modem := .holding (count + s.updateDelay).toNat }
  else { s with modem := .holding count }

/-- `modem_run` from `modem_process` to the end of the branch. -/
def deviceWrite (s : Exchange) (out : List UInt8) (requested : Option Int) : Exchange :=
  let updateDelay := requested.getD s.updateDelay
  let s := { s with toBridge := s.toBridge ++ out, updateDelay := updateDelay, modem := .waiting }
  if s.updateDelay > 0 then
    { s with
      toBridge := s.toBridge ++ silence (s.updateDelay.toNat * 2)
      updateDelay := 0 }
  else s

/-- `dmodem_get_frame`. -/
def dmodemGetFrame (s : Exchange) : Exchange :=
  let taken := s.toBridge.take frameSize
  let s := { s with toBridge := s.toBridge.drop frameSize }
  if taken.length ≠ frameSize then { s with bridge := .exited }
  else { s with bridge := .putting }

/-- `dmodem_put_frame`. -/
def dmodemPutFrame (s : Exchange) (frame : MediaFrame) : Exchange :=
  if frame.type = .audio then
    { s with toModem := s.toModem ++ frame.buf, bridge := .getting }
  else { s with bridge := .getting }

/-- `none`: the event is not what its process does next, or the process is blocked in
a read or in `select`. -/
def step (s : Exchange) : AudioEvent → Option Exchange
  | .socketStart =>
      if s.modem = .starting then
        some { s with toBridge := s.toBridge ++ silence startBlock, modem := .waiting }
      else none
  | .dmodemStart =>
      if s.bridge = .starting then
        some { s with toModem := s.toModem ++ silence startBlock, bridge := .getting }
      else none
  | .deviceRead =>
      if s.modem = .waiting ∧ s.toModem ≠ [] then some s.deviceRead else none
  | .deviceWrite out requested =>
      match s.modem with
      | .holding count =>
          if out.length = count * 2 then some (s.deviceWrite out requested) else none
      | _ => none
  | .dmodemGetFrame =>
      if s.bridge = .getting ∧ s.toBridge ≠ [] then some s.dmodemGetFrame else none
  | .dmodemPutFrame frame =>
      if s.bridge = .putting then some (s.dmodemPutFrame frame) else none

def run : Exchange → List AudioEvent → Option Exchange
  | s, [] => some s
  | s, event :: rest => do
      let s ← s.step event
      s.run rest

/-- The bytes in the two queues. -/
def queued (s : Exchange) : Nat := s.toModem.length + s.toBridge.length

/-- The bytes that a process has read and not yet answered. -/
def held (s : Exchange) : Nat :=
  (match s.modem with
    | .holding count => count * 2
    | _ => 0) +
  match s.bridge with
    | .putting => frameSize
    | _ => 0

/-- The start-up blocks that are still to be written. -/
def owed (s : Exchange) : Nat :=
  (if s.modem = .starting then startBlock else 0) +
    if s.bridge = .starting then startBlock else 0

def Started (s : Exchange) : Prop := s.modem ≠ .starting ∧ s.bridge ≠ .starting

def ModemWaits (s : Exchange) : Prop := s.modem = .waiting ∧ s.toModem = []

def BridgeWaits (s : Exchange) : Prop := s.bridge = .getting ∧ s.toBridge = []

end Exchange

/-- The conference bridge puts whole audio frames, and no delay adjustment is
requested. -/
def AudioEvent.Regular : AudioEvent → Prop
  | .dmodemPutFrame frame => frame.type = .audio ∧ frame.buf.length = frameSize
  | .deviceWrite _ requested => requested = none
  | _ => True

/-! ### Conservation -/

namespace Exchange

variable {s s' : Exchange}

theorem frameSize_eq : frameSize = 384 := by decide

structure Balanced (s : Exchange) : Prop where
  total : s.queued + s.held + s.owed = 768
  modemFrames : frameSize ∣ s.toModem.length
  bridgeFrames : frameSize ∣ s.toBridge.length
  heldFrames : ∀ count, s.modem = .holding count → frameSize ∣ count * 2
  steady : s.updateDelay = 0
  connected : s.modem ≠ .hungUp
  running : s.bridge ≠ .exited

theorem balanced_initial : initial.Balanced := by
  constructor
  · rfl
  · exact Nat.dvd_zero _
  · exact Nat.dvd_zero _
  · intro count impossible
    cases impossible
  · rfl
  · decide
  · decide

theorem Balanced.socketStart (balanced : Balanced s) (starting : s.modem = .starting) :
    Balanced { s with toBridge := s.toBridge ++ silence startBlock, modem := .waiting } := by
  have total := balanced.total
  have frames := balanced.bridgeFrames
  simp only [queued, held, owed, starting, if_true] at total
  constructor
  · simp only [queued, held, owed, silence, List.length_append, List.length_replicate,
      reduceCtorEq, if_false]
    omega
  · exact balanced.modemFrames
  · simp only [silence, List.length_append, List.length_replicate, startBlock]
    rw [frameSize_eq] at frames ⊢
    omega
  · intro count impossible
    cases impossible
  · exact balanced.steady
  · simp
  · exact balanced.running

theorem Balanced.dmodemStart (balanced : Balanced s) (starting : s.bridge = .starting) :
    Balanced { s with toModem := s.toModem ++ silence startBlock, bridge := .getting } := by
  have total := balanced.total
  have frames := balanced.modemFrames
  simp only [queued, held, owed, starting, if_true] at total
  constructor
  · simp only [queued, held, owed, silence, List.length_append, List.length_replicate,
      reduceCtorEq, if_false]
    omega
  · simp only [silence, List.length_append, List.length_replicate, startBlock]
    rw [frameSize_eq] at frames ⊢
    omega
  · exact balanced.bridgeFrames
  · exact balanced.heldFrames
  · exact balanced.steady
  · exact balanced.connected
  · simp

/-- The loop of `slmodemd` takes everything that is queued, a whole number of frames. -/
theorem Balanced.deviceRead_eq (balanced : Balanced s) (waiting : s.toModem ≠ []) :
    s.deviceRead = { s with toModem := [], modem := .holding (s.toModem.length / 2) } := by
  have total := balanced.total
  have frames := balanced.modemFrames
  have positive := List.length_pos_of_ne_nil waiting
  have short : s.toModem.length ≤ inbufSize := by
    unfold queued at total
    unfold inbufSize
    omega
  rw [frameSize_eq] at frames
  unfold deviceRead
  simp only [List.take_of_length_le short, List.drop_of_length_le short, balanced.steady]
  rw [if_neg (by omega), if_neg (by decide)]

theorem Balanced.deviceRead (balanced : Balanced s) (idle : s.modem = .waiting)
    (waiting : s.toModem ≠ []) : Balanced s.deviceRead := by
  rw [balanced.deviceRead_eq waiting]
  have total := balanced.total
  have frames := balanced.modemFrames
  rw [frameSize_eq] at frames
  simp only [queued, held, owed, idle, reduceCtorEq, if_false] at total
  constructor
  · simp only [queued, held, owed, List.length_nil, reduceCtorEq, if_false]
    omega
  · exact Nat.dvd_zero _
  · exact balanced.bridgeFrames
  · intro count same
    obtain rfl := ModemPhase.holding.inj same
    rw [frameSize_eq]
    omega
  · exact balanced.steady
  · simp
  · exact balanced.running

theorem Balanced.deviceWrite (balanced : Balanced s) {count : Nat} (holding : s.modem = .holding count)
    {out : List UInt8} (whole : out.length = count * 2) : Balanced (s.deviceWrite out none) := by
  have total := balanced.total
  have frames := balanced.bridgeFrames
  have taken := balanced.heldFrames count holding
  simp only [queued, held, owed, holding, reduceCtorEq, if_false] at total
  have writtenEq : s.deviceWrite out none =
      { s with toBridge := s.toBridge ++ out, modem := .waiting } := by
    unfold Exchange.deviceWrite
    simp only [Option.getD_none, balanced.steady]
    rw [if_neg (by decide)]
  rw [writtenEq]
  constructor
  · simp only [queued, held, owed, List.length_append, whole, reduceCtorEq, if_false]
    omega
  · exact balanced.modemFrames
  · rw [List.length_append, whole]
    exact Nat.dvd_add frames taken
  · intro other impossible
    cases impossible
  · exact balanced.steady
  · simp
  · exact balanced.running

/-- A read of `dmodem_get_frame` that finds data gets a whole frame. -/
theorem Balanced.getFrame_eq (balanced : Balanced s) (waiting : s.toBridge ≠ []) :
    s.dmodemGetFrame = { s with toBridge := s.toBridge.drop frameSize, bridge := .putting } ∧
      frameSize ≤ s.toBridge.length := by
  have frames := balanced.bridgeFrames
  have enough := Nat.le_of_dvd (List.length_pos_of_ne_nil waiting) frames
  refine ⟨?_, enough⟩
  unfold dmodemGetFrame
  simp only [List.length_take, Nat.min_eq_left enough]
  rw [if_neg (not_not_intro rfl)]

theorem Balanced.getFrame (balanced : Balanced s) (getting : s.bridge = .getting)
    (waiting : s.toBridge ≠ []) : Balanced s.dmodemGetFrame := by
  obtain ⟨taken, enough⟩ := balanced.getFrame_eq waiting
  rw [taken]
  have total := balanced.total
  have frames := balanced.bridgeFrames
  simp only [queued, held, owed, getting, reduceCtorEq, if_false] at total
  constructor
  · simp only [queued, held, owed, List.length_drop, reduceCtorEq, if_false]
    omega
  · exact balanced.modemFrames
  · rw [List.length_drop]
    exact Nat.dvd_sub frames (Nat.dvd_refl _)
  · exact balanced.heldFrames
  · exact balanced.steady
  · exact balanced.connected
  · simp

theorem Balanced.putFrame (balanced : Balanced s) (putting : s.bridge = .putting)
    {frame : MediaFrame} (audio : frame.type = .audio) (whole : frame.buf.length = frameSize) :
    Balanced (s.dmodemPutFrame frame) := by
  have total := balanced.total
  simp only [queued, held, owed, putting, reduceCtorEq, if_false] at total
  unfold dmodemPutFrame
  rw [if_pos audio]
  constructor
  · simp only [queued, held, owed, List.length_append, whole, reduceCtorEq, if_false]
    omega
  · rw [List.length_append, whole]
    exact Nat.dvd_add balanced.modemFrames (Nat.dvd_refl _)
  · exact balanced.bridgeFrames
  · exact balanced.heldFrames
  · exact balanced.steady
  · exact balanced.connected
  · simp

theorem Balanced.step (balanced : Balanced s) {event : AudioEvent} (regular : event.Regular)
    (stepped : s.step event = some s') : Balanced s' := by
  cases event with
  | socketStart =>
      simp only [Exchange.step, Option.ite_none_right_eq_some, Option.some.injEq] at stepped
      obtain ⟨starting, rfl⟩ := stepped
      exact balanced.socketStart starting
  | dmodemStart =>
      simp only [Exchange.step, Option.ite_none_right_eq_some, Option.some.injEq] at stepped
      obtain ⟨starting, rfl⟩ := stepped
      exact balanced.dmodemStart starting
  | deviceRead =>
      simp only [Exchange.step, Option.ite_none_right_eq_some, Option.some.injEq] at stepped
      obtain ⟨⟨idle, waiting⟩, rfl⟩ := stepped
      exact balanced.deviceRead idle waiting
  | deviceWrite out requested =>
      have steady : requested = none := regular
      subst steady
      unfold Exchange.step at stepped
      cases phase : s.modem with
      | holding count =>
          simp only [phase, Option.ite_none_right_eq_some, Option.some.injEq] at stepped
          obtain ⟨whole, rfl⟩ := stepped
          exact balanced.deviceWrite phase whole
      | starting => simp [phase] at stepped
      | waiting => simp [phase] at stepped
      | hungUp => simp [phase] at stepped
  | dmodemGetFrame =>
      simp only [Exchange.step, Option.ite_none_right_eq_some, Option.some.injEq] at stepped
      obtain ⟨⟨getting, waiting⟩, rfl⟩ := stepped
      exact balanced.getFrame getting waiting
  | dmodemPutFrame frame =>
      simp only [Exchange.step, Option.ite_none_right_eq_some, Option.some.injEq] at stepped
      obtain ⟨putting, rfl⟩ := stepped
      exact balanced.putFrame putting regular.1 regular.2

theorem Balanced.run (balanced : Balanced s) {events : List AudioEvent}
    (regular : ∀ event ∈ events, event.Regular) (ran : s.run events = some s') : Balanced s' := by
  induction events generalizing s with
  | nil =>
      obtain rfl := Option.some.inj ran
      exact balanced
  | cons event rest ih =>
      rw [Exchange.run] at ran
      obtain ⟨s₁, stepped, later⟩ := Option.bind_eq_some_iff.mp ran
      apply ih (balanced.step (regular event List.mem_cons_self) stepped) _ later
      intro other member
      exact regular other (List.mem_cons_of_mem _ member)

theorem Balanced.queued_held (balanced : Balanced s) (started : s.Started) :
    s.queued + s.held = 768 := by
  have total := balanced.total
  unfold owed at total
  rw [if_neg started.1, if_neg started.2] at total
  exact total

theorem Balanced.not_both_wait (balanced : Balanced s) : ¬(s.ModemWaits ∧ s.BridgeWaits) := by
  rintro ⟨⟨idle, modemEmpty⟩, getting, bridgeEmpty⟩
  have total := balanced.total
  simp [queued, held, owed, idle, getting, modemEmpty, bridgeEmpty] at total

theorem Balanced.progress (balanced : Balanced s) :
    ∃ event s', event.Regular ∧ s.step event = some s' := by
  cases modem : s.modem with
  | starting => exact ⟨.socketStart, _, trivial, if_pos modem⟩
  | holding count =>
      refine ⟨.deviceWrite (silence (count * 2)) none, s.deviceWrite (silence (count * 2)) none,
        rfl, ?_⟩
      simp [Exchange.step, modem, silence]
  | hungUp => exact absurd modem balanced.connected
  | waiting =>
      cases bridge : s.bridge with
      | starting => exact ⟨.dmodemStart, _, trivial, if_pos bridge⟩
      | putting =>
          refine ⟨.dmodemPutFrame { type := .audio, buf := silence frameSize }, _, ⟨rfl, ?_⟩,
            if_pos bridge⟩
          exact List.length_replicate
      | exited => exact absurd bridge balanced.running
      | getting =>
          by_cases modemEmpty : s.toModem = []
          · by_cases bridgeEmpty : s.toBridge = []
            · exact absurd ⟨⟨modem, modemEmpty⟩, bridge, bridgeEmpty⟩ balanced.not_both_wait
            · exact ⟨.dmodemGetFrame, _, trivial, if_pos ⟨bridge, bridgeEmpty⟩⟩
          · exact ⟨.deviceRead, _, trivial, if_pos ⟨modem, modemEmpty⟩⟩

end Exchange

/-- In every interleaving of the two processes the bytes queued and held make up the
two start-up blocks, a read of `dmodem_get_frame` that finds data gets a whole frame,
and the processes never wait for each other with both queues empty. -/
theorem audio_exchange (events : List AudioEvent) (s : Exchange)
    (regular : ∀ event ∈ events, event.Regular)
    (ran : Exchange.initial.run events = some s) :
    s.queued + s.held + s.owed = 768 ∧
      (s.Started → s.queued + s.held = 768) ∧
      s.bridge ≠ .exited ∧
      (∀ s', s.step .dmodemGetFrame = some s' →
        ∃ frame, frame.length = frameSize ∧ s.toBridge = frame ++ s'.toBridge ∧
          s'.bridge = .putting) ∧
      ¬(s.ModemWaits ∧ s.BridgeWaits) ∧
      ∃ event s', event.Regular ∧ s.step event = some s' := by
  have balanced := Exchange.balanced_initial.run regular ran
  refine ⟨balanced.total, balanced.queued_held, balanced.running, ?_, balanced.not_both_wait,
    balanced.progress⟩
  intro s' stepped
  simp only [Exchange.step, Option.ite_none_right_eq_some, Option.some.injEq] at stepped
  obtain ⟨⟨_, waiting⟩, rfl⟩ := stepped
  obtain ⟨taken, enough⟩ := balanced.getFrame_eq waiting
  refine ⟨s.toBridge.take frameSize, ?_, ?_, ?_⟩
  · rw [List.length_take, Nat.min_eq_left enough]
  · rw [taken]
    exact (List.take_append_drop frameSize s.toBridge).symm
  · rw [taken]

def oneRound : List AudioEvent :=
  [.socketStart, .dmodemStart, .deviceRead, .dmodemGetFrame,
    .deviceWrite (Exchange.silence 384) none,
    .dmodemPutFrame { type := .audio, buf := Exchange.silence 384 }]

theorem audio_exchange_of_one_round :
    ∃ s, Exchange.initial.run oneRound = some s ∧ s.queued + s.held + s.owed = 768 ∧
      ¬(s.ModemWaits ∧ s.BridgeWaits) := by
  have runs : (Exchange.initial.run oneRound).isSome = true := by decide +kernel
  obtain ⟨s, ran⟩ := Option.isSome_iff_exists.mp runs
  have regular : ∀ event ∈ oneRound, event.Regular := by
    intro event member
    simp only [oneRound, List.mem_cons, List.not_mem_nil, or_false] at member
    rcases member with rfl | rfl | rfl | rfl | rfl | rfl
    · trivial
    · trivial
    · trivial
    · trivial
    · exact (rfl : (none : Option Int) = none)
    · exact ⟨rfl, List.length_replicate⟩
  obtain ⟨total, _, _, _, apart, _⟩ := audio_exchange oneRound s regular ran
  exact ⟨s, ran, total, apart⟩

end DModem.Audio
