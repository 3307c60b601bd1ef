/-
The control side of `modem.c`: creation, start and stop, caller ID, the ring detector,
voice and fax, the calls that AT commands make, events, and `modem_write` with the
command line editor.

What drivers, data pumps and `process_at_command` answer is an argument of each
function; within one call a driver answers alike each time.  The loudspeaker and the
rate limits are left out.
-/

import DModem.Modem.Lapm

namespace DModem

/-! ### S-registers -/

def sregRingsToAutoAnswer : Nat := 0
def sregRingCounter : Nat := 1
def sregEscapeChar : Nat := 2
def sregCrChar : Nat := 3
def sregLfChar : Nat := 4
def sregBsChar : Nat := 5
def sregDialToneWaitTime : Nat := 6
def sregWaitCarrierAfterDial : Nat := 7
def sregDialPauseTime : Nat := 8
def sregCarrierDetectResponseTime : Nat := 9
def sregCarrierLossDisconnectTime : Nat := 10
def sregDtmfDuration : Nat := 11
def sregEscapePromptDelay : Nat := 12
def sregEcho : Nat := 13
def sregToneOrPulse : Nat := 16
def sregFlashTimer : Nat := 24
def sregPulseRatio : Nat := 28
def sregSpeakerControl : Nat := 29
def sregSpeakerVolume : Nat := 30
def sregAutomode : Nat := 31
def sregDp : Nat := 32
def sregLineQualityControl : Nat := 39
def sregXCode : Nat := 56
def sregCd : Nat := 60
def sregFlowControl : Nat := 62
def sregConnnectMsgSpeedSrc : Nat := 71
def sregAnsDelay : Nat := 92
def sregEc : Nat := 103
def sregComp : Nat := 104
def sregDefaultSetting : Nat := 161

/-- The values that `sregs_init` writes. -/
def sregDefaults : List (Nat × UInt8) :=
  [(sregEscapeChar, 43), (sregCrChar, 13), (sregLfChar, 10), (sregBsChar, 8),
    (sregDialToneWaitTime, 2), (sregWaitCarrierAfterDial, 60), (sregDialPauseTime, 2),
    (sregCarrierDetectResponseTime, 6), (sregCarrierLossDisconnectTime, 7),
    (sregDtmfDuration, 100), (sregEscapePromptDelay, 50), (sregFlashTimer, 20), (sregEcho, 1),
    (sregQuiet, 0), (sregVerbose, 1), (sregToneOrPulse, 1), (sregXCode, 4),
    (sregSpeakerControl, 1), (sregSpeakerVolume, 3), (sregAutomode, 1), (sregDp, 92),
    (sregAnsDelay, 2), (sregLineQualityControl, 0), (sregCd, 0), (sregFlowControl, 0),
    (sregConnnectMsgFormat, 0), (sregConnnectMsgSpeedSrc, 0), (sregEc, 1), (sregComp, 3)]

/-- `sregs_init`; it leaves the other registers. -/
def sregsInit (sregs : Nat → UInt8) : Nat → UInt8 := fun num =>
  (sregDefaults.lookup num).getD (sregs num)

def xmitSize : Nat := 4096
def modemRate : Nat := 9600
def modemHz : Nat := 100
def atLineSize : Nat := 64

/-- `IS_STATE_CONNECTING`. -/
def ModemState.connecting : ModemState → Bool
  | .dpEstab | .ecEstab => true
  | _ => false

/-- What the driver and the signal processing library answer during a call: whether the
hook, the run-time objects, the compressor and the device obey, the descriptor of a
device that starts, the pump that `create` makes, and which of the other objects can be
made. -/
structure Device where
  hook : Bool
  runtime : Bool
  comp : Bool
  start : Bool
  stop : Bool
  fd : Nat
  dp : Option DpId
  cid : Bool
  rd : Bool
  voice : Bool
  fax : Bool
  deriving DecidableEq, Repr

namespace Modem

/-! ### Start and stop -/

def modemSetHook (m : Modem) (device : Device) (hookState : Hook) : Modem × Bool :=
  if m.hook = hookState then (m, true)
  else if device.hook then ({ m with hook := hookState }, true)
  else (m, false)

def modemSetupConfig (m : Modem) : Modem :=
  let ec := m.sregs sregEc != 0
  { m with
    cfg :=
      { ec := ec
        ecDetector := ec
        ecTxWinSize := lapmMaxWinSize
        ecRxWinSize := lapmMaxWinSize
        ecTxInfoSize := lapmMaxInfoSize
        ecRxInfoSize := lapmMaxInfoSize
        comp := if ec && (m.sregs sregComp != 0 && ec) then 0x3 else 0
        compDictSize := 2048
        compMaxString := 34 }
    qcLapm := ec && ec }

/-- The end of `modem_stop`: a pending result is reported. -/
def reportPending (m : Modem) : Modem :=
  if m.resultCode = .ok then m
  else { m.modemReportResult m.resultCode with resultCode := .ok }

/-- `modem_ec_exit` and `modem_comp_exit`; the rings are not used until `lapm_init`
sets them up again. -/
def ecExit (m : Modem) : Modem :=
  { m.reset with
    encoder := { m.encoder with dictSize := 0 }
    decoder := { m.decoder with dictSize := 0 } }

/-- `driver.stop`, when the device is started. -/
def driverStop (m : Modem) (device : Device) : Modem :=
  if m.started && device.stop then { m with started := false, fd := -1 } else m

def deleteObjects (m : Modem) : Modem :=
  { ecExit { m with caller := false, command := true } with
    dp := none
    rdObj := false
    cid := false
    voiceObj := false
    faxObj := false }

def endSession (m : Modem) : Modem :=
  { m with count := 0, session := false, stops := m.stops + 1 }

/-- `modem_stop`; its return value is `started`. -/
def modemStop (m : Modem) (device : Device) : Modem :=
  let m := driverStop { m with process := none } device
  let m := (m.modemSetHook device .on).1.deleteObjects
  (m.modemSetState .modemIdle).reportPending.endSession

/-- `do_modem_start`. -/
def doModemStart (m : Modem) (device : Device) : Modem × Bool :=
  ({ m with
      count := 0
      opens := m.opens + 1
      started := device.start
      session := device.start
      fd := if device.start then device.fd else -1 }, device.start)

/-- `modem_comp_init`. -/
def modemCompInit (m : Modem) : Modem :=
  { m with
    encoder := { dictSize := m.cfg.compDictSize, maxString := m.cfg.compMaxString }
    decoder := { dictSize := m.cfg.compDictSize, maxString := m.cfg.compMaxString } }

/-- `error:` of `modem_start`. -/
def modemStartError (m : Modem) (device : Device) : Modem × Bool :=
  (modemStop { m with resultCode := .nocarrier } device, false)

def clearRings (m : Modem) : Modem :=
  { m with
    sregs := Function.update m.sregs sregRingCounter 0
    ringCount := 0
    escapeTimer := false }

/-- `modem_start` from the objects that it creates on. -/
def modemStartObjects (m : Modem) (device : Device) : Modem × Bool :=
  if !device.runtime then m.modemStartError device
  else if m.cfg.ec && m.cfg.comp != 0 && !device.comp then m.modemStartError device
  else
    let m := if m.cfg.ec && m.cfg.comp != 0 then m.modemCompInit else m
    let m := if m.cfg.ec then m.lapmInit else m
    let started := m.clearRings.doModemStart device
    if started.2 then started else started.1.modemStartError device

/-- `modem_start` once the device is stopped. -/
def modemStartStopped (m : Modem) (device : Device) : Modem × Bool :=
  let m := modemSetState (modemSetupConfig { m with resultCode := .ok }) .dpEstab
  let hooked := m.modemSetHook device .off
  if hooked.2 then
    modemStartObjects { hooked.1 with xmit := [], command := false } device
  else hooked.1.modemStartError device

def modemStart (m : Modem) (device : Device) : Modem × Bool :=
  let m := { m with starts := m.starts + 1 }
  if m.started then
    let m := m.modemStop device
    if m.started then (m, false) else m.modemStartStopped device
  else m.modemStartStopped device

/-! ### Answering -/

/-- A setting of `sample_timer` and `sample_timer_func`. -/
def armSampleTimer (m : Modem) (func : SampleTimerFunc) (due : Nat) : Modem :=
  { m with sampleTimer := due, sampleTimerFunc := some func, armedAt := m.stops }

def clearSampleTimer (m : Modem) : Modem := { m with sampleTimer := 0, sampleTimerFunc := none }

def modemAnswer (m : Modem) (device : Device) : Modem × Bool :=
  if m.dp ≠ none then (m, false)
  else
    let m := if m.started then m.modemStop device else m
    let delay := (m.sregs sregAnsDelay).toNat
    (m.armSampleTimer .doModemChangeDp
      (if delay ≠ 0 then delay * modemRate else modemRate / 100)).modemStart device

/-- `if (ANSWER_AFTER_RINGS(m) && TOTAL_RINGS_COUNT(m) >= ANSWER_AFTER_RINGS(m))`. -/
def ringsEnough (m : Modem) : Bool :=
  m.sregs sregRingsToAutoAnswer != 0 &&
    decide (m.sregs sregRingsToAutoAnswer ≤ m.sregs sregRingCounter)

def setRings (m : Modem) (rings : UInt8) : Modem :=
  { m with sregs := Function.update m.sregs sregRingCounter rings }

/-! ### Caller ID and the ring detector -/

def modemCidStop (m : Modem) (device : Device) : Modem :=
  let m := m.clearSampleTimer
  let m :=
    if m.rdObj then { m with cid := false } else modemStop { m with process := none } device
  if m.ringsEnough then ((m.setRings 0).modemAnswer device).1 else m

/-- `modem_cid_process` with what `CID_process` returns. -/
def modemCidProcess (m : Modem) (status : Int) (device : Device) : Modem :=
  if status ≠ 0 then m.modemCidStop device else m

/-- Caller ID is created, and is to be stopped after `timeout`. -/
def armCid (m : Modem) (timeout : Nat) : Modem :=
  armSampleTimer { m with cid := true } .modemCidStop (m.count + modemRate * timeout / modemHz)

def modemCidStart (m : Modem) (timeout : Nat) (device : Device) : Modem × Bool :=
  if m.started && !m.rdObj then (m, false)
  else if !device.cid then ({ m with cid := false }, false)
  else if m.started && m.rdObj then (m.armCid timeout, true)
  else
    (modemSetHook { m.armCid timeout with process := some .cid } device
      .snooping).1.doModemStart device

/-- `time_before`. -/
def timeBefore (t₁ t₂ : BitVec 32) : Bool := 0 < (t₂ - t₁).toInt

def ringOnMin : Nat := modemHz * 3 / 20
def ringOnMax : Nat := modemHz * 5 / 2
def ringOffMin : Nat := modemHz * 3 / 2
def ringCountMin : Nat := 10

def modemRing (m : Modem) (now : BitVec 32) (device : Device) : Modem :=
  if m.state ≠ .modemIdle then m
  else
    let m := { m with ringCount := m.ringCount + 1 }
    let m :=
      if m.ringCount = 1 then
        if timeBefore now (m.ringLast + BitVec.ofNat 32 ringOffMin) then
          { m with ringCount := 0 }
        else
          let m := { m with ringFirst := now }
          if m.sregs sregRingCounter = 0 ∧ m.cidRequested then
            (m.modemCidStart (ringOnMax + ringOffMin) device).1
          else m
      else m
    { m with ringLast := now }

/-- What `RD_process` returned and `RD_ring_details` said of it. -/
structure RingDetails where
  ret : Int
  freq : Int
  duration : Int
  deriving DecidableEq, Repr

/-- `modem_ring_detector_process`; `status` is what `CID_process` returns. -/
def modemRingDetectorProcess (m : Modem) (details : RingDetails) (status : Int)
    (now : BitVec 32) (device : Device) : Modem :=
  let m :=
    if details.ret = 0 then m
    else if details.freq = 0 then m.modemRing now device
    else if 0 < details.freq then
      { m with
        ringCount :=
          if m.ringCount ≤ 1 then ((details.duration * details.freq).tdiv 1000 % 2 ^ 32).toNat
          else m.ringCount
        ringLast := now }
    else m
  if m.cid then m.modemCidProcess status device else m

def modemRingDetectorStart (m : Modem) (device : Device) : Modem × Bool :=
  if m.rdObj then (m, false)
  else
    (modemSetHook { m with rdObj := device.rd, process := some .ringDetector } device
      .snooping).1.doModemStart device

/-! ### Voice -/

def modemVoiceStop (m : Modem) (device : Device) : Modem :=
  let m := clearSampleTimer { m with process := none }
  ((modemStop { m with voiceObj := false } device).modemSetHook device .on).1

def voiceStatusOk : Int := 1
def voiceStatusError : Int := 2
def voiceStatusConnect : Int := 3

/-- `modem_voice_process` with what `VOICE_process` returns. -/
def modemVoiceProcess (m : Modem) (status : Int) (device : Device) : Modem :=
  if status = voiceStatusOk then { m.modemReportResult .ok with command := true }
  else if status = voiceStatusConnect then { m.modemReportResult .connect with command := false }
  else if status = voiceStatusError then { m.modemReportResult .error with command := true }
  else if status < 0 then m.modemVoiceStop device
  else m

/-- `modem_voice_command` with one of the commands that it knows. -/
def modemVoiceCommand (m : Modem) : Modem :=
  if m.voiceObj then { m with command := false } else m

def modemVoiceStart (m : Modem) (device : Device) : Modem × Bool :=
  if m.voiceObj then (m, true)
  else if m.started && !m.rdObj then (m, false)
  else
    let m := if m.started then m.modemStop device else m
    if !device.voice then (m, false)
    else
      let m := clearSampleTimer { m with voiceObj := true }
      (modemSetHook { m with process := some .voice } device .off).1.doModemStart device

/-- `modem_voice_set_device`; `line` is `VOICE_DEVICE_LINE`. -/
def modemVoiceSetDevice (m : Modem) (line : Bool) (device : Device) : Modem :=
  if line then (m.modemVoiceStart device).1
  else if m.voiceObj then m.modemVoiceStop device
  else m

def modemSetMode (m : Modem) (mode : ModemMode) (device : Device) : Modem :=
  if m.mode = mode then m
  else
    let m := if m.mode = .voice ∧ m.voiceObj then m.modemVoiceStop device else m
    { m with mode := mode }

/-! ### Fax -/

def modemFaxStart (m : Modem) (device : Device) : Modem :=
  if device.fax then clearSampleTimer { m with faxObj := true, process := some .fax }
  else { m with faxObj := false }

def faxStatusOk : Int := 1
def faxStatusError : Int := 2
def faxStatusConnect : Int := 3
def faxStatusNocarrier : Int := 4

/-- `modem_fax_process` with what `FAX_process` returns. -/
def modemFaxProcess (m : Modem) (ret : Int) (device : Device) : Modem :=
  if ret = faxStatusOk then
    { (m.modemSetState .commandOnline).modemReportResult .ok with command := true }
  else if ret = faxStatusConnect then
    { (m.modemSetState .modemOnline).modemReportResult .connect with command := false }
  else if ret = faxStatusNocarrier then
    { (m.modemSetState .commandOnline).modemReportResult .nocarrier with command := true }
  else if ret = faxStatusError then m.modemUpdateStatus .error
  else if ret < 0 then m.modemStop device
  else m

/-! ### Calls of the command interpreter -/

def modemDialStart (m : Modem) (device : Device) : Modem × Bool :=
  if m.dp ≠ none then (m, false)
  else
    let m := if m.started then m.modemStop device else m
    let m := { m with caller := true }
    match device.dp with
    | none => (m, false)
    | some _ => ({ m with dp := some .callprog, process := some .dp }, true)

def modemDial (m : Modem) (device : Device) : Modem × Bool :=
  let dialed := m.modemDialStart device
  if dialed.2 then dialed.1.modemStart device else (dialed.1, false)

def modemHook (m : Modem) (device : Device) (hookState : Hook) : Modem × Bool :=
  if m.hook = hookState then (m, true)
  else
    let m := if m.state ≠ .modemIdle then m.modemHup true else m
    m.modemSetHook device hookState

def modemOnline (m : Modem) : Modem × Bool :=
  if m.state ≠ .commandOnline then (m, false)
  else
    ((modemSetState { m with command := false } .modemOnline).modemReportResult .connect, true)

def modemReset (m : Modem) (device : Device) : Modem :=
  let m :=
    if m.state ≠ .modemIdle then m.modemHup true
    else if m.started then m.modemStop device
    else if m.hook ≠ .on then (m.modemSetHook device .on).1
    else m
  let m := m.modemSetState .modemIdle
  modemSetMode { m with command := true, sregs := sregsInit m.sregs } .data device

def doModemChangeDp (m : Modem) (device : Device) : Modem :=
  if m.mode = .fax then { m.modemFaxStart device with dp := none }
  else
    match device.dp with
    | none => m.modemHup true
    | some id => { m with dp := some id, process := some .dp }

/-- A call of `process_at_command` into `modem.c`. -/
inductive Call where
  | answer
  | dial
  | hook (hookState : Hook)
  | online
  | reset
  | setMode (mode : ModemMode)
  | setCid (requested : Bool)
  | voiceDevice (line : Bool)
  | voiceCommand
  | setSreg (num : Nat) (val : UInt8)
  | send (bytes : List UInt8)
  deriving DecidableEq, Repr

def call (m : Modem) (device : Device) : Call → Modem
  | .answer => (m.modemAnswer device).1
  | .dial => (m.modemDial device).1
  | .hook hookState => (m.modemHook device hookState).1
  | .online => m.modemOnline.1
  | .reset => m.modemReset device
  | .setMode mode => m.modemSetMode mode device
  | .setCid requested => { m with cidRequested := requested }
  | .voiceDevice line => if m.mode = .voice then m.modemVoiceSetDevice line device else m
  | .voiceCommand => if m.mode = .voice then m.modemVoiceCommand else m
  | .setSreg num val => { m with sregs := Function.update m.sregs num val }
  | .send bytes => { m with out := m.out ++ [.echo bytes] }

/-! ### The command line -/

/-- What `process_at_command` does with a command: its calls, and the sign of what it
returns. -/
structure AtLine where
  calls : List (Call × Device)
  ret : Int
  deriving DecidableEq, Repr

def processAtCommand (m : Modem) (line : AtLine) : Modem :=
  line.calls.foldl (fun m step => m.call step.2 step.1) m

def toUpper (ch : UInt8) : UInt8 := if 97 ≤ ch ∧ ch ≤ 122 then ch - 32 else ch

/-- `modem_put_chars` as the editor uses it. -/
def putEcho (m : Modem) (bytes : List UInt8) : Modem := { m with out := m.out ++ [.echo bytes] }

def echoIf (m : Modem) (bytes : List UInt8) : Modem :=
  if m.sregs sregEcho != 0 then m.putEcho bytes else m

/-- `strlen` of the line. -/
def atStrlen (m : Modem) : Nat :=
  ((List.range atLineSize).find? fun i => m.atLine i = 0).getD atLineSize

/-- The line without blanks, up to a zero byte. -/
def atCmd (m : Modem) : List UInt8 :=
  (((List.range m.atCount).map m.atLine).filter fun ch => ch ≠ 32 ∧ ch ≠ 9).takeWhile (· ≠ 0)

def crlf (m : Modem) : List UInt8 := [m.sregs sregCrChar, m.sregs sregLfChar]

/-- `m->at_line[m->at_count] = 0`. -/
def closeLine (m : Modem) : Modem := { m with atLine := Function.update m.atLine m.atCount 0 }

def eraseLine (m : Modem) : Modem :=
  let count := m.atCount
  let cr := m.sregs sregCrChar
  let m := { m with atLine := fun i => if i < count then 32 else m.atLine i }
  let m := ((m.echoIf [cr]).echoIf (List.replicate count 32)).echoIf [cr]
  { m with atCount := 0 }

def finishLine (m : Modem) (ret : Int) : Modem :=
  let m :=
    if ret < 0 then m.modemReportResult .error
    else if ret = 0 then m.modemReportResult .ok
    else m
  { m.closeLine with atCount := 0 }

/-- `at_cmd` does not start with AT. -/
def notCommand (m : Modem) : Bool :=
  decide (m.atCmd.length < 2 ∨ toUpper (m.atCmd.getD 0 0) ≠ 65 ∨ toUpper (m.atCmd.getD 1 0) ≠ 84)

def atEndLine (m : Modem) (lines : List AtLine) : Modem × List AtLine :=
  let m := m.closeLine
  if m.notCommand then (m.eraseLine, lines)
  else
    let line := lines.headD { calls := [], ret := 0 }
    (((m.echoIf m.crlf).processAtCommand line).finishLine line.ret, lines.tail)

/-- `A/` repeats the last line: its end is found and it is echoed. -/
def repeatLine (m : Modem) : Modem :=
  let m := { m with atCount := m.atStrlen }
  m.echoIf (((List.range m.atCount).map m.atLine).drop 1)

def isRepeat (m : Modem) (ch : UInt8) : Bool :=
  decide (ch = 47 ∧ m.atCount = 1 ∧ toUpper (m.atLine 0) = 65)

def eraseChar (m : Modem) : Modem :=
  let m := { m with atCount := m.atCount - 1 }
  (m.echoIf [32]).echoIf [m.sregs sregBsChar]

def overflowLine (m : Modem) : Modem :=
  let m := m.echoIf m.crlf
  modemReportResult { m with atCount := 0, atLine := Function.update m.atLine 1 0 } .error

/-- One round of `modem_at_process` with the character `ch`. -/
def atChar (m : Modem) (ch : UInt8) (lines : List AtLine) : Modem × List AtLine :=
  let again := m.isRepeat ch
  let m := if again then m.repeatLine else m
  let ch := if again then m.sregs sregCrChar else ch
  let m := m.echoIf [ch]
  if ch = m.sregs sregCrChar ∨ ch = m.sregs sregLfChar then m.atEndLine lines
  else if ch = m.sregs sregBsChar ∧ m.atCount ≠ 0 then (m.eraseChar, lines)
  else if m.atCount = atLineSize - 1 then (m.overflowLine, lines)
  else
    ({ m with atLine := Function.update m.atLine m.atCount ch, atCount := m.atCount + 1 }, lines)

/-- `modem_at_process`.  No round adds to the queue, so that the length of the queue
bounds the rounds. -/
def atLoop : Nat → Modem → List AtLine → Modem
  | 0, m, _ => m
  | rounds + 1, m, lines =>
      match m.xmit with
      | [] => m
      | queued :: rest =>
          let next := atChar
            { m with xmit := rest, commandText := m.commandText ++ [queued] } queued.byte lines
          atLoop rounds next.1 next.2

def modemAtProcess (m : Modem) (lines : List AtLine) : Modem := atLoop m.xmit.length m lines

/-! ### Writing -/

def escapeTimeout : BitVec 32 := 50

/-- The value of a `char`, which is signed. -/
def charValue (byte : UInt8) : Int := byte.toBitVec.toInt

def modemCheckEscape (m : Modem) (bytes : List UInt8) (now : BitVec 32) : Modem :=
  let due := m.lastEscCheck + escapeTimeout
  if 3 < bytes.length + m.escapeCount ∨
      bytes.any (fun byte => charValue byte != (m.sregs sregEscapeChar).toNat) ∨
      (if m.escapeCount = 0 then timeBefore now due else !timeBefore now due) then
    { m with escapeCount := 0, lastEscCheck := now }
  else
    let count := m.escapeCount + bytes.length
    { m with
      escapeCount := count
      escapeTimer := m.escapeTimer || decide (count = 3)
      lastEscCheck := now }

def modemWrite (m : Modem) (bytes : List UInt8) (now : BitVec 32) (lines : List AtLine) : Modem :=
  if m.state.connecting then m.modemHup true
  else
    let m := if m.state = .modemOnline then m.modemCheckEscape bytes now else m
    let accepted := bytes.take (xmitSize - m.xmit.length)
    let queued : List Queued := accepted.map fun byte => { byte := byte, data := !m.command }
    let m := { m with xmit := m.xmit ++ queued }
    if m.command then m.modemAtProcess lines else m

/-! ### Events -/

/-- `modem_event` with `MDMEVENT_RING_CHECK`. -/
def modemRingCheck (m : Modem) (device : Device) : Modem :=
  if m.ringCount = 0 then m.setRings 0
  else if timeBefore m.ringLast (m.ringFirst + BitVec.ofNat 32 ringOnMin) ∨
      !timeBefore m.ringLast (m.ringFirst + BitVec.ofNat 32 ringOnMax) ∨
      m.ringCount < ringCountMin then
    { m.setRings 0 with ringCount := 0 }
  else
    let m := setRings { m with ringCount := 0 } (m.sregs sregRingCounter + 1)
    let m := if m.sregs sregRingCounter = 1 then m.putEcho m.crlf else m
    let m := m.modemReportResult .ring
    if (!m.started || m.rdObj) && m.ringsEnough then ((m.setRings 0).modemAnswer device).1 else m

/-- `modem_event` with `MDMEVENT_ESCAPE`. -/
def modemEscape (m : Modem) : Modem :=
  let m :=
    if m.state = .modemOnline ∧ m.escapeCount = 3 then
      let m := { m.modemSetState .commandOnline with xmit := [] }
      { (m.putEcho m.crlf).modemReportResult .ok with command := true }
    else m
  { m with escapeCount := 0 }

/-! ### Creation -/

/-- `modem_create`. -/
def modemCreate : Modem :=
  modemSetupConfig
    { state := .modemIdle
      command := true
      resultCode := .ok
      caller := false
      cfg := defaultModemEcConfig
      encoder := { dictSize := 0, maxString := 0 }
      decoder := { dictSize := 0, maxString := 0 }
      getChars := none
      putChars := none
      bitTimer := 0
      bitTimerFunc := none
      packerProcess := false
      getBits := none
      putBits := none
      getTxFrame := false
      detector :=
        { txCount := 0, txPattern := (0, 0), rxCount := 0, rxPattern := (0, 0), ecEnable := false }
      qcLapm := false
      dp := none
      count := 0
      sampleTimer := 0
      sampleTimerFunc := none
      lapm :=
        { state := .idle
          config := false
          reject := false
          busy := false
          peerBusy := false
          cmdAddr := 0
          rspAddr := 0
          vs := 0
          va := 0
          vr := 0
          rtxCount := 0
          txWinSize := 0
          rxWinSize := 0
          txInfoSize := 0
          rxInfoSize := 0
          sentInfo := 0
          txInfo := 0
          infoList := 0
          infoBuf := fun _ => { ctrl := [], info := [] }
          txCtrl := 0
          ctrlList := 0
          ctrlBuf := fun _ => []
          rxCount := 0
          rxHead := 0
          rxBuf := []
          spilled := 0 }
      started := false
      hook := .on
      process := none
      mode := .data
      cid := false
      cidRequested := false
      rdObj := false
      voiceObj := false
      faxObj := false
      fd := 0
      sregs := sregsInit fun _ => 0
      atCount := 0
      atLine := fun _ => 0
      xmit := []
      escapeCount := 0
      lastEscCheck := 0
      escapeTimer := false
      ringCount := 0
      ringFirst := 0
      ringLast := 0
      out := []
      reports := []
      taken := []
      commandText := []
      links := []
      starts := 0
      allocErrors := 0
      opens := 0
      session := false
      stops := 0
      armedAt := 0
      fired := []
      faults := [] }

end Modem

end DModem
