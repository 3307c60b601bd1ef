/-
A whole modem at work: what `modem_run`, `modem_process` and the signal processing
library do to it, one step at a time.

A block of samples is handled in several steps: what the running process does (a data
pump exchanges bits and returns a status, caller ID, the ring detector, voice and fax
return one), and then the sample timer.  A data pump calls `modem_get_bits` and
`modem_put_bits`; the steps are the frames, characters and ticks that these produce.
Between the steps of one block other steps may come.  In `run` a frame or a character comes
only while its bit routine is set; in `blockRun` the packer goes on to the end of its block
when the routine is cleared in it, and the runs include all those of the program.
-/

import DModem.Modem.Control
import DModem.Modem.Packer

namespace DModem

inductive DpStat where
  | ok
  | connect
  | error
  | nodialtone
  | busy
  | noanswer
  | changedp
  | other
  deriving DecidableEq, Repr

def dpstat2status : DpStat → Status
  | .ok | .changedp => .ok
  | .connect => .dpLink
  | .error => .dpError
  | .nodialtone => .nodialtone
  | .busy => .busy
  | .noanswer => .noanswer
  | .other => .error

/-- `IS_STATE_LINKED`. -/
def ModemState.pastDpEstab : ModemState → Bool
  | .modemIdle | .dpEstab => false
  | _ => true

/-- A step of the modem.  The answers of everything outside come with it. -/
inductive Event where
  | hangup
  | write (bytes : List UInt8) (now : BitVec 32) (lines : List Modem.AtLine)
  | escape
  | ringCheck (device : Device)
  | ring (now : BitVec 32) (device : Device)
  | ringDetectorStart (device : Device)
  | select
  | readFails (device : Device)
  | take (count : Nat)
  | fetch (chars : Chars)
  | push (chars : Chars)
  | tick (bits : Nat)
  | frame (f : Hdlc.Frame) (chars : Chars)
  | detect (ch : UInt8)
  | receive (bytes : List UInt8) (chars : Chars)
  | dpStat (stat : DpStat) (device : Device)
  | cidStatus (status : Int) (device : Device)
  | ringDetails (details : Modem.RingDetails) (status : Int) (now : BitVec 32) (device : Device)
  | voiceStatus (status : Int) (device : Device)
  | faxStatus (ret : Int) (device : Device)
  | samples (count : Nat) (device : Device)

namespace Modem

/-! ### Processing a block -/

/-- What `modem_dp_process` does with the return value of the pump. -/
def dpReturns (m : Modem) (stat : DpStat) (device : Device) : Modem :=
  match stat with
  | .ok => m
  | .connect =>
      if !m.state.pastDpEstab && !m.state.disc then m.modemUpdateStatus .dpLink else m
  | .changedp => m.doModemChangeDp device
  | stat => { m.modemUpdateStatus (dpstat2status stat) with process := none }

/-- Whether the characters that wait can be taken: by the packer of a data pump, or by
the fax or voice object. -/
def takes (m : Modem) : Bool :=
  (m.dp.isSome && m.getChars.isSome) || m.faxObj || m.voiceObj

/-- `modem_get_chars` for `count` characters, as the data side calls it. -/
def takeChars (m : Modem) (count : Nat) : Modem := { m with xmit := m.xmit.drop count }

def callSampleTimer (m : Modem) (func : SampleTimerFunc) (device : Device) : Modem :=
  match func with
  | .runModemStop => m.modemStop device
  | .doModemChangeDp => m.doModemChangeDp device
  | .modemCidStop => m.modemCidStop device

/-- The end of `modem_process`. -/
def countSamples (m : Modem) (count : Nat) (device : Device) : Modem :=
  let m := { m with count := m.count + count }
  if m.sampleTimer ≠ 0 ∧ m.sampleTimer ≤ m.count then
    let func := m.sampleTimerFunc
    let m := { m.clearSampleTimer with fired := m.fired ++ [(m.armedAt, m.stops)] }
    match func with
    | none => m
    | some func => m.callSampleTimer func device
  else m

/-! ### The loop of `modem_run` -/

/-- `FD_SET(dev->fd, &eset)`. -/
def setFds (m : Modem) : Modem := if m.fd < 0 then m.logFault .deviceFd else m

def forceHangup (m : Modem) (device : Device) : Modem :=
  let m := m.modemHup true
  let m :=
    match m.sampleTimerFunc with
    | none => m.logFault .sampleTimerFunc
    | some func => m.callSampleTimer func device
  m.clearSampleTimer

/-- The samples of the device reach a data pump.  `modem_dp_process` runs the pump to the
end of the block even if it cleared `m->process` meanwhile. -/
def pumps (m : Modem) : Bool := m.started && m.dp.isSome

def processes (m : Modem) (process : Process) : Bool :=
  m.started && decide (m.process = some process)

def Occurs (m : Modem) : Event → Bool
  | .hangup | .write .. | .escape | .ringCheck _ | .ring .. | .select | .samples .. => true
  | .ringDetectorStart _ => !m.started
  | .readFails _ => m.started
  | .take _ => m.started && m.takes
  | .fetch _ => m.pumps && decide (m.getBits = some .hdlc) && m.getTxFrame
  | .push _ => m.pumps && m.packerProcess
  | .tick _ | .dpStat .. => m.pumps
  | .frame .. => m.pumps && decide (m.putBits = some .hdlc)
  | .detect _ => m.pumps && decide (m.putBits = some .detector)
  | .receive .. => m.pumps && decide (m.putBits = some .async)
  | .cidStatus .. => m.processes .cid
  | .ringDetails .. => m.processes .ringDetector
  | .voiceStatus .. => m.processes .voice
  | .faxStatus .. => m.processes .fax

def perform (m : Modem) : Event → Modem
  | .hangup => m.modemHup true
  | .write bytes now lines => m.modemWrite bytes now lines
  | .escape => m.modemEscape
  | .ringCheck device => m.modemRingCheck device
  | .ring now device => m.modemRing now device
  | .ringDetectorStart device => (m.modemRingDetectorStart device).1
  | .select => m.setFds
  | .readFails device => m.forceHangup device
  | .take count => m.takeChars count
  | .fetch chars => (m.lapmGetTxFrame chars).1
  | .push chars => m.pushRestData chars
  | .tick bits => m.tickBits bits
  | .frame f chars => m.lapmRxComplete f chars
  | .detect ch => m.detectorChar ch
  | .receive bytes chars => (m.callPutChars chars bytes bytes.length).1
  | .dpStat stat device => m.dpReturns stat device
  | .cidStatus status device => m.modemCidProcess status device
  | .ringDetails details status now device =>
      m.modemRingDetectorProcess details status now device
  | .voiceStatus status device => m.modemVoiceProcess status device
  | .faxStatus ret device => m.modemFaxProcess ret device
  | .samples count device => m.countSamples count device

def step (m : Modem) (event : Event) : Modem := if m.Occurs event then m.perform event else m

def run (m : Modem) : List Event → Modem
  | [] => m
  | event :: rest => (m.step event).run rest

def OccursInBlock (m : Modem) : Event → Bool
  | .fetch _ => m.pumps && m.getTxFrame
  | .frame .. | .detect _ | .receive .. => m.pumps
  | event => m.Occurs event

def blockStep (m : Modem) (event : Event) : Modem :=
  if m.OccursInBlock event then m.perform event else m

def blockRun (m : Modem) : List Event → Modem
  | [] => m
  | event :: rest => (m.blockStep event).blockRun rest

theorem blockRun_append (m : Modem) (front back : List Event) :
    m.blockRun (front ++ back) = (m.blockRun front).blockRun back := by
  induction front generalizing m with
  | nil => rfl
  | cons event rest ih => exact ih (m.blockStep event)

theorem blockRun_snoc (m : Modem) (events : List Event) (event : Event) :
    m.blockRun (events ++ [event]) = (m.blockRun events).blockStep event :=
  blockRun_append m events [event]

/-- Every step of the run is as `Fine` asks. -/
def Along (Fine : Modem → Event → Prop) (m : Modem) : List Event → Prop
  | [] => True
  | event :: rest => Fine m event ∧ Along Fine (m.blockStep event) rest

instance decidableAlong (Fine : Modem → Event → Prop) [∀ m event, Decidable (Fine m event)] :
    (m : Modem) → (events : List Event) → Decidable (m.Along Fine events)
  | _, [] => inferInstanceAs (Decidable True)
  | m, event :: rest =>
      have := decidableAlong Fine (m.blockStep event) rest
      inferInstanceAs (Decidable (Fine m event ∧ Along Fine (m.blockStep event) rest))

/-! ### The commands of a write -/

/-- The state in which the end of a line makes `modem_at_process` run a command. -/
def atLineRuns (m : Modem) : Option Modem :=
  let m := m.closeLine
  if m.notCommand then none else some (m.echoIf m.crlf)

/-- The state in which the character `ch` makes `modem_at_process` run a command. -/
def atRuns (m : Modem) (ch : UInt8) : Option Modem :=
  let again := m.isRepeat ch
  let m := if again then m.repeatLine else m
  let ch := if again then m.sregs sregCrChar else ch
  let m := m.echoIf [ch]
  if ch = m.sregs sregCrChar ∨ ch = m.sregs sregLfChar then m.atLineRuns else none

def callTrace (m : Modem) : List (Call × Device) → List (Modem × Call × Device)
  | [] => []
  | step :: rest => (m, step) :: (m.call step.2 step.1).callTrace rest

/-- The calls that `modem_at_process` makes. -/
def atTrace : Nat → Modem → List AtLine → List (Modem × Call × Device)
  | 0, _, _ => []
  | rounds + 1, m, lines =>
      match m.xmit with
      | [] => []
      | queued :: rest =>
          let taken := { m with xmit := rest, commandText := m.commandText ++ [queued] }
          let made :=
            match taken.atRuns queued.byte with
            | none => []
            | some ready => ready.callTrace (lines.headD { calls := [], ret := 0 }).calls
          let next := taken.atChar queued.byte lines
          made ++ atTrace rounds next.1 next.2

/-- The queue of `modem_write`. -/
def queueBytes (m : Modem) (bytes : List UInt8) : Modem :=
  let accepted := bytes.take (xmitSize - m.xmit.length)
  { m with xmit := m.xmit ++ accepted.map fun byte => { byte := byte, data := !m.command } }

def writeTrace (m : Modem) (bytes : List UInt8) (now : BitVec 32) (lines : List AtLine) :
    List (Modem × Call × Device) :=
  if m.state.connecting then []
  else
    let m := if m.state = .modemOnline then m.modemCheckEscape bytes now else m
    let m := m.queueBytes bytes
    if m.command then atTrace m.xmit.length m lines else []

def callsOf (m : Modem) : Event → List (Modem × Call × Device)
  | .write bytes now lines => m.writeTrace bytes now lines
  | _ => []

/-! ### A call -/

def obedient : Device :=
  { hook := true
    runtime := true
    comp := true
    start := true
    stop := true
    fd := 3
    dp := some .v21
    cid := true
    rd := true
    voice := true
    fax := true }

def answeredCall : List Event :=
  [.write [65, 84, 65, 13] 0 [{ calls := [(.answer, obedient)], ret := 1 }],
    .samples 19200 obedient,
    .dpStat .connect obedient]

end Modem

end DModem
