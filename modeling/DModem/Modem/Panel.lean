/-
The commands and processes of a modem, as they show on its desk.

Each function of the control side has its counterpart here, with the part of the modem
that decides what it does and nothing else.  `ec` stands for `cfg.ec`, which says whether
a local hang-up releases the link first.
-/

import DModem.Modem.Desk

namespace DModem

namespace Desk

section Panel

variable (d : Desk) (device : Device)

def arm (func : SampleTimerFunc) (due : Nat) : Desk :=
  { d with sampleTimer := due, sampleTimerFunc := some func, armedAt := d.stops }

def clearTimer : Desk := { d with sampleTimer := 0, sampleTimerFunc := none }

def stopStarted : Desk := if d.started then d.stop device else d

def answer : Desk × Bool :=
  if d.dp ≠ none then (d, false)
  else
    let delay := ((d.stopStarted device).sregs sregAnsDelay).toNat
    ((d.stopStarted device).arm .doModemChangeDp
      (if delay ≠ 0 then delay * modemRate else modemRate / 100)).start device

def ringsEnough : Bool :=
  d.sregs sregRingsToAutoAnswer != 0 &&
    decide (d.sregs sregRingsToAutoAnswer ≤ d.sregs sregRingCounter)

def setRings (rings : UInt8) : Desk :=
  { d with sregs := Function.update d.sregs sregRingCounter rings }

def answerRings : Desk :=
  if d.ringsEnough then ((d.setRings 0).answer device).1 else d

def cidStop : Desk :=
  let d := d.clearTimer
  let d := if d.rdObj then { d with cid := false } else stop { d with process := none } device
  d.answerRings device

def cidProcess (status : Int) : Desk := if status ≠ 0 then d.cidStop device else d

def armCid (timeout : Nat) : Desk :=
  arm { d with cid := true } .modemCidStop (d.count + modemRate * timeout / modemHz)

def cidStart (timeout : Nat) : Desk :=
  if d.started && !d.rdObj then d
  else if !device.cid then { d with cid := false }
  else if d.started && d.rdObj then d.armCid timeout
  else (setHook { d.armCid timeout with process := some .cid } device .snooping).doStart device

def ringDetectorStart : Desk :=
  if d.rdObj then d
  else
    (setHook { d with rdObj := device.rd, process := some .ringDetector } device
      .snooping).doStart device

def voiceStop : Desk :=
  let d := clearTimer { d with process := none }
  (stop { d with voiceObj := false } device).setHook device .on

def voiceProcess (status : Int) : Desk :=
  if status = Modem.voiceStatusOk then { d with command := true }
  else if status = Modem.voiceStatusConnect then { d.connect with command := false }
  else if status = Modem.voiceStatusError then { d with command := true }
  else if status < 0 then d.voiceStop device
  else d

def voiceStart : Desk :=
  if d.voiceObj then d
  else if d.started && !d.rdObj then d
  else
    let d := d.stopStarted device
    if !device.voice then d
    else
      let d := clearTimer { d with voiceObj := true }
      (setHook { d with process := some .voice } device .off).doStart device

def voiceSetDevice (line : Bool) : Desk :=
  if line then d.voiceStart device else if d.voiceObj then d.voiceStop device else d

def setMode (mode : ModemMode) : Desk :=
  if d.mode = mode then d
  else
    { (if d.mode = .voice ∧ d.voiceObj then d.voiceStop device else d) with mode := mode }

def faxStart : Desk :=
  if device.fax then clearTimer { d with faxObj := true, process := some .fax }
  else { d with faxObj := false }

def fail (code : ModemResult) (release : Bool) : Desk := hup { d with resultCode := code } release

def faxProcess (ec : Bool) (ret : Int) : Desk :=
  if ret = Modem.faxStatusOk then { d.setState .commandOnline with command := true }
  else if ret = Modem.faxStatusConnect then { d.link with command := false }
  else if ret = Modem.faxStatusNocarrier then { d.setState .commandOnline with command := true }
  else if ret = Modem.faxStatusError then d.fail .nocarrier (d.state.disc && ec)
  else if ret < 0 then d.stop device
  else d

def dialStart : Desk × Bool :=
  if d.dp ≠ none then (d, false)
  else
    match device.dp with
    | none => (d.stopStarted device, false)
    | some _ => ({ d.stopStarted device with dp := some .callprog, process := some .dp }, true)

def dial : Desk :=
  if (d.dialStart device).2 then ((d.dialStart device).1.start device).1
  else (d.dialStart device).1

def hookCall (ec : Bool) (hookState : Hook) : Desk :=
  if d.hook = hookState then d else (d.hup ec).setHook device hookState

def online : Desk := if d.state ≠ .commandOnline then d else d.link

def changeDp (ec : Bool) : Desk :=
  if d.mode = .fax then { d.faxStart device with dp := none }
  else
    match device.dp with
    | none => d.hup ec
    | some id => { d with dp := some id, process := some .dp }

def reset (ec : Bool) : Desk :=
  let closed :=
    if d.state ≠ .modemIdle then d.hup ec
    else if d.started then d.stop device
    else if d.hook ≠ .on then d.setHook device .on
    else d
  setMode
    { closed.setState .modemIdle with command := true, sregs := sregsInit closed.sregs } device .data

def call (ec : Bool) : Modem.Call → Desk
  | .answer => (d.answer device).1
  | .dial => d.dial device
  | .hook hookState => d.hookCall device ec hookState
  | .online => d.online
  | .reset => d.reset device ec
  | .setMode mode => d.setMode device mode
  | .setCid requested => { d with cidRequested := requested }
  | .voiceDevice line => if d.mode = .voice then d.voiceSetDevice device line else d
  | .voiceCommand => if d.mode = .voice ∧ d.voiceObj then { d with command := false } else d
  | .setSreg num val => { d with sregs := Function.update d.sregs num val }
  | .send _ => d

/-- The call of `sample_timer_func`. -/
def callTimer (ec : Bool) : SampleTimerFunc → Desk
  | .runModemStop => d.stop device
  | .doModemChangeDp => d.changeDp device ec
  | .modemCidStop => d.cidStop device

end Panel

end Desk

namespace Modem

section Panel

variable (m : Modem) (device : Device)

theorem desk_startResult : (m.modemStart device).1.desk = (m.desk.start device).1 :=
  congrArg Prod.fst (desk_start m device)

theorem desk_stopStarted :
    (if m.started then m.modemStop device else m).desk = m.desk.stopStarted device := by
  unfold Desk.stopStarted
  have started : m.desk.started = m.started := rfl
  rw [started]
  split
  · exact desk_stop m device
  · rfl

theorem desk_answer : deskOf (m.modemAnswer device) = m.desk.answer device := by
  unfold modemAnswer Desk.answer
  have pump : m.desk.dp = m.dp := rfl
  rw [pump]
  split
  · rfl
  · rw [← desk_stopStarted]
    exact desk_start _ device

theorem desk_answerResult : (m.modemAnswer device).1.desk = (m.desk.answer device).1 :=
  congrArg Prod.fst (desk_answer m device)

theorem desk_answerRings :
    (if m.ringsEnough then ((m.setRings 0).modemAnswer device).1 else m).desk =
      m.desk.answerRings device := by
  unfold Desk.answerRings
  have enough : m.desk.ringsEnough = m.ringsEnough := rfl
  rw [enough]
  split
  · exact desk_answerResult (m.setRings 0) device
  · rfl

theorem desk_cidStop : (m.modemCidStop device).desk = m.desk.cidStop device := by
  unfold modemCidStop Desk.cidStop
  have cleared : m.clearSampleTimer.desk = m.desk.clearTimer := rfl
  simp only
  rw [← cleared]
  generalize m.clearSampleTimer = bare
  have detector : bare.desk.rdObj = bare.rdObj := rfl
  rw [detector, desk_answerRings]
  congr 1
  split
  · rfl
  · exact desk_stop { bare with process := none } device

theorem desk_cidProcess (status : Int) :
    (m.modemCidProcess status device).desk = m.desk.cidProcess device status := by
  unfold modemCidProcess Desk.cidProcess
  split
  · exact desk_cidStop m device
  · rfl

theorem desk_cidStart (timeout : Nat) :
    (m.modemCidStart timeout device).1.desk = m.desk.cidStart device timeout := by
  unfold modemCidStart Desk.cidStart
  have started : m.desk.started = m.started := rfl
  have detector : m.desk.rdObj = m.rdObj := rfl
  rw [started, detector]
  split
  · rfl
  · split
    · rfl
    · split
      · rfl
      · rw [desk_doStart, desk_setHook]
        rfl

theorem desk_ringDetectorStart :
    (m.modemRingDetectorStart device).1.desk = m.desk.ringDetectorStart device := by
  unfold modemRingDetectorStart Desk.ringDetectorStart
  have detector : m.desk.rdObj = m.rdObj := rfl
  rw [detector]
  split
  · rfl
  · rw [desk_doStart, desk_setHook]
    rfl

theorem desk_voiceStop : (m.modemVoiceStop device).desk = m.desk.voiceStop device := by
  unfold modemVoiceStop
  simp only
  rw [desk_setHook, desk_stop]
  rfl

theorem desk_voiceProcess (status : Int) :
    (m.modemVoiceProcess status device).desk = m.desk.voiceProcess device status := by
  have connected := desk_report m .connect
  have done := desk_report m .ok
  have failed := desk_report m .error
  unfold modemVoiceProcess Desk.voiceProcess
  split
  · exact congrArg (fun d : Desk => { d with command := true }) done
  · split
    · exact congrArg (fun d : Desk => { d with command := false }) connected
    · split
      · exact congrArg (fun d : Desk => { d with command := true }) failed
      · split
        · exact desk_voiceStop m device
        · rfl

theorem desk_voiceStart : (m.modemVoiceStart device).1.desk = m.desk.voiceStart device := by
  unfold modemVoiceStart Desk.voiceStart
  have started : m.desk.started = m.started := rfl
  have detector : m.desk.rdObj = m.rdObj := rfl
  have object : m.desk.voiceObj = m.voiceObj := rfl
  rw [started, detector, object]
  split
  · rfl
  · split
    · rfl
    · rw [← desk_stopStarted]
      simp only
      generalize (if m.started then m.modemStop device else m) = bare
      split
      · rfl
      · rw [desk_doStart, desk_setHook]
        rfl

theorem desk_voiceSetDevice (line : Bool) :
    (m.modemVoiceSetDevice line device).desk = m.desk.voiceSetDevice device line := by
  unfold modemVoiceSetDevice Desk.voiceSetDevice
  have object : m.desk.voiceObj = m.voiceObj := rfl
  rw [object]
  split
  · exact desk_voiceStart m device
  · split
    · exact desk_voiceStop m device
    · rfl

theorem desk_setMode (mode : ModemMode) :
    (m.modemSetMode mode device).desk = m.desk.setMode device mode := by
  unfold modemSetMode Desk.setMode
  have old : m.desk.mode = m.mode := rfl
  have object : m.desk.voiceObj = m.voiceObj := rfl
  rw [old, object]
  split
  · rfl
  · have stopped : (if m.mode = .voice ∧ m.voiceObj then m.modemVoiceStop device else m).desk =
        if m.mode = .voice ∧ m.voiceObj then m.desk.voiceStop device else m.desk := by
      split
      · exact desk_voiceStop m device
      · rfl
    exact congrArg (fun d : Desk => { d with mode := mode }) stopped

theorem desk_faxStart : (m.modemFaxStart device).desk = m.desk.faxStart device := by
  unfold modemFaxStart Desk.faxStart
  split <;> rfl

theorem desk_error :
    (m.modemUpdateStatus .error).desk = m.desk.fail .nocarrier (m.state.disc && m.cfg.ec) :=
  desk_hup { m with resultCode := .nocarrier } m.state.disc

theorem desk_faxProcess (ret : Int) :
    (m.modemFaxProcess ret device).desk = m.desk.faxProcess device m.cfg.ec ret := by
  have reported : ∀ state code, ((m.modemSetState state).modemReportResult code).desk =
      (m.desk.setState state).report code := by
    intro state code
    rw [desk_report, desk_setState]
  unfold modemFaxProcess Desk.faxProcess
  split
  · exact congrArg (fun d : Desk => { d with command := true }) (reported .commandOnline .ok)
  · split
    · exact congrArg (fun d : Desk => { d with command := false }) (reported .modemOnline .connect)
    · split
      · exact congrArg (fun d : Desk => { d with command := true })
          (reported .commandOnline .nocarrier)
      · split
        · exact desk_error m
        · split
          · exact desk_stop m device
          · rfl

theorem desk_dialStart : deskOf (m.modemDialStart device) = m.desk.dialStart device := by
  unfold modemDialStart Desk.dialStart
  have pump : m.desk.dp = m.dp := rfl
  rw [pump, ← desk_stopStarted]
  split
  · rfl
  · simp only
    generalize (if m.started then m.modemStop device else m) = bare
    cases device.dp <;> rfl

theorem desk_dial : (m.modemDial device).1.desk = m.desk.dial device := by
  unfold modemDial Desk.dial
  rw [← desk_dialStart]
  simp only
  generalize m.modemDialStart device = dialed
  cases dialed with
  | mk after done =>
      cases done with
      | true => exact desk_startResult after device
      | false => rfl

theorem desk_hookCall (hookState : Hook) :
    (m.modemHook device hookState).1.desk = m.desk.hookCall device m.cfg.ec hookState := by
  unfold modemHook Desk.hookCall
  have hook : m.desk.hook = m.hook := rfl
  rw [hook]
  split
  · rfl
  · simp only
    rw [desk_setHook]
    congr 1
    split
    · exact desk_hup m true
    · rename_i idle
      have deskIdle : m.desk.state = .modemIdle := not_not.mp idle
      rw [Desk.hup, deskIdle]

theorem desk_online : m.modemOnline.1.desk = m.desk.online := by
  unfold modemOnline Desk.online
  have state : m.desk.state = m.state := rfl
  rw [state]
  split
  · rfl
  · rename_i escaped
    have escapedEq : m.state = .commandOnline := not_not.mp escaped
    simp only
    rw [desk_report, desk_setState, Desk.report, if_pos rfl, Desk.link]
    congr 1
    have other : m.desk.state ≠ .modemOnline := by
      rw [state, escapedEq]
      decide
    rw [Desk.setState, Desk.setState, if_neg other, if_neg (by exact other)]
    rfl

theorem desk_changeDp : (m.doModemChangeDp device).desk = m.desk.changeDp device m.cfg.ec := by
  unfold doModemChangeDp Desk.changeDp
  have mode : m.desk.mode = m.mode := rfl
  rw [mode]
  split
  · exact congrArg (fun d : Desk => { d with dp := none }) (desk_faxStart m device)
  · cases device.dp with
    | none => exact desk_hup m true
    | some id => rfl

theorem desk_reset : (m.modemReset device).desk = m.desk.reset device m.cfg.ec := by
  unfold modemReset Desk.reset
  have state : m.desk.state = m.state := rfl
  have started : m.desk.started = m.started := rfl
  have hook : m.desk.hook = m.hook := rfl
  have closed : (if m.state ≠ .modemIdle then m.modemHup true
      else if m.started then m.modemStop device
      else if m.hook ≠ .on then (m.modemSetHook device .on).1
      else m).desk =
      if m.desk.state ≠ .modemIdle then m.desk.hup m.cfg.ec
      else if m.desk.started then m.desk.stop device
      else if m.desk.hook ≠ .on then m.desk.setHook device .on
      else m.desk := by
    rw [state, started, hook]
    split
    · exact desk_hup m true
    · split
      · exact desk_stop m device
      · split
        · exact desk_setHook m device .on
        · rfl
  rw [← closed]
  simp only
  generalize (if m.state ≠ .modemIdle then m.modemHup true
    else if m.started then m.modemStop device
    else if m.hook ≠ .on then (m.modemSetHook device .on).1
    else m) = ended
  rw [desk_setMode, ← desk_setState]
  rcases setState_frame ended .modemIdle with ⟨_, _, _, _, _, _, same⟩
  rw [same]
  rfl

theorem desk_call (c : Call) : (m.call device c).desk = m.desk.call device m.cfg.ec c := by
  have mode : m.desk.mode = m.mode := rfl
  have object : m.desk.voiceObj = m.voiceObj := rfl
  cases c with
  | answer => exact desk_answerResult m device
  | dial => exact desk_dial m device
  | hook hookState => exact desk_hookCall m device hookState
  | online => exact desk_online m
  | reset => exact desk_reset m device
  | setMode mode => exact desk_setMode m device mode
  | setCid requested => rfl
  | voiceDevice line =>
      unfold call Desk.call
      simp only
      rw [mode]
      split
      · exact desk_voiceSetDevice m device line
      · rfl
  | voiceCommand =>
      unfold call Desk.call modemVoiceCommand
      simp only
      rw [mode, object]
      by_cases voice : m.mode = .voice
      · rw [if_pos voice]
        by_cases made : m.voiceObj = true
        · rw [if_pos made, if_pos ⟨voice, made⟩]
          rfl
        · rw [if_neg made, if_neg (fun both => made both.2)]
      · rw [if_neg voice, if_neg (fun both => voice both.1)]
  | setSreg num val => rfl
  | send bytes =>
      unfold call
      simp [desk, Desk.call]

theorem desk_callTimer (func : SampleTimerFunc) :
    (m.callSampleTimer func device).desk = m.desk.callTimer device m.cfg.ec func := by
  cases func with
  | runModemStop => exact desk_stop m device
  | doModemChangeDp => exact desk_changeDp m device
  | modemCidStop => exact desk_cidStop m device

end Panel

end Modem

end DModem
