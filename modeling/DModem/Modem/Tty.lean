/-
The terminal side of a modem: the line that is typed and the queue.

Stopping, hanging up and reporting leave both alone.  The one thing that a command does
to them is the clearing of the queue in `modem_start`, once the line is taken.
-/

import DModem.Modem.Outer
import DModem.Modem.Sessions

namespace DModem

structure Tty where
  atCount : Nat
  atLine : Nat → UInt8
  xmit : List Queued
  commandText : List Queued

/-- `m->xmit.head = m->xmit.tail = m->xmit.count = 0`. -/
def Tty.cleared (t : Tty) : Tty := { t with xmit := [] }

namespace Modem

def tty (m : Modem) : Tty :=
  { atCount := m.atCount
    atLine := m.atLine
    xmit := m.xmit
    commandText := m.commandText }

/-- Whether `modem_start` comes to clear the queue: the device stops if it is started,
and the line is off hook or can be taken. -/
def startClears (m : Modem) (device : Device) : Bool :=
  (!m.started || device.stop) && (decide (m.hook = .off) || device.hook)

/-- Whether a command comes to clear the queue: only `A` and `D` do. -/
def clears (m : Modem) (device : Device) : Call → Bool
  | .answer => m.dp.isNone && m.startClears device
  | .dial => m.dp.isNone && device.dp.isSome && m.startClears device
  | _ => false

section Tty

variable (m : Modem)

theorem tty_of_outer {m m' : Modem} (same : m'.outer = m.outer) : m'.tty = m.tty := by
  have atCount := congrArg Outer.atCount same
  have atLine := congrArg Outer.atLine same
  have xmit := congrArg Outer.xmit same
  have commandText := congrArg Outer.commandText same
  change m'.atCount = m.atCount at atCount
  change m'.atLine = m.atLine at atLine
  change m'.xmit = m.xmit at xmit
  change m'.commandText = m.commandText at commandText
  simp only [tty, atCount, atLine, xmit, commandText]

@[simp]
theorem tty_setState (newState : ModemState) : (m.modemSetState newState).tty = m.tty :=
  tty_of_outer (outer_setState m newState)

@[simp]
theorem tty_hup (isLocal : Bool) : (m.modemHup isLocal).tty = m.tty :=
  tty_of_outer (outer_hup m isLocal)

@[simp]
theorem tty_report (code : ModemResult) : (m.modemReportResult code).tty = m.tty := by
  rw [report_eq]
  rfl

@[simp]
theorem tty_echoIf (bytes : List UInt8) : (m.echoIf bytes).tty = m.tty := by
  unfold echoIf
  split <;> rfl

@[simp]
theorem tty_setHook (device : Device) (hookState : Hook) :
    (m.modemSetHook device hookState).1.tty = m.tty := by
  unfold modemSetHook
  split_ifs <;> rfl

@[simp]
theorem tty_reportPending : m.reportPending.tty = m.tty := by
  unfold reportPending
  split
  · rfl
  · exact tty_report m m.resultCode

@[simp]
theorem tty_driverStop (device : Device) : (m.driverStop device).tty = m.tty := by
  unfold driverStop
  split <;> rfl

@[simp]
theorem tty_stop (device : Device) : (m.modemStop device).tty = m.tty := by
  unfold modemStop
  change (reportPending _).tty = m.tty
  rw [tty_reportPending, tty_setState]
  change (modemSetHook _ device .on).1.tty = m.tty
  rw [tty_setHook, tty_driverStop]
  rfl

@[simp]
theorem tty_startError (device : Device) : (m.modemStartError device).1.tty = m.tty :=
  tty_stop { m with resultCode := .nocarrier } device

@[simp]
theorem tty_doStart (device : Device) : (m.doModemStart device).1.tty = m.tty := rfl

theorem tty_prepare :
    (if m.cfg.ec then m.lapmInit else m).tty = m.tty ∧
      (if m.cfg.ec && m.cfg.comp != 0 then m.modemCompInit else m).tty = m.tty := by
  constructor
  · split <;> rfl
  · split <;> rfl

theorem tty_startObjects (device : Device) : (m.modemStartObjects device).1.tty = m.tty := by
  unfold modemStartObjects
  have compressed := (tty_prepare m).2
  split
  · exact tty_startError m device
  · split
    · exact tty_startError m device
    · generalize (if m.cfg.ec && m.cfg.comp != 0 then m.modemCompInit else m) = ready at compressed
      have linked := (tty_prepare ready).1
      simp only
      generalize (if ready.cfg.ec then ready.lapmInit else ready) = prepared at linked
      have cleared : prepared.clearRings.tty = prepared.tty := rfl
      split
      · rw [tty_doStart, cleared, linked, compressed]
      · rw [tty_startError, tty_doStart, cleared, linked, compressed]

theorem tty_startStopped (device : Device) :
    (m.modemStartStopped device).1.tty =
      if decide (m.hook = .off) || device.hook then m.tty.cleared else m.tty := by
  unfold modemStartStopped
  have ready : (modemSetState (modemSetupConfig { m with resultCode := .ok }) .dpEstab).tty =
      m.tty := by
    rw [tty_setState]
    rfl
  have sameHook : (modemSetState (modemSetupConfig { m with resultCode := .ok }) .dpEstab).hook =
      m.hook := congrArg Outer.hook (outer_setState
        (modemSetupConfig { m with resultCode := .ok }) .dpEstab)
  simp only
  generalize modemSetState (modemSetupConfig { m with resultCode := .ok }) .dpEstab = set
    at ready sameHook
  have hooked := tty_setHook set device .off
  have took : (set.modemSetHook device .off).2 = (decide (m.hook = .off) || device.hook) := by
    unfold modemSetHook
    rw [sameHook]
    by_cases off : m.hook = .off
    · simp [off]
    · by_cases moves : device.hook
      · simp [off, moves]
      · simp [off, moves]
  rw [took]
  generalize set.modemSetHook device .off = taken at hooked
  split
  · rw [tty_startObjects]
    change taken.1.tty.cleared = m.tty.cleared
    rw [hooked, ready]
  · rw [tty_startError, hooked, ready]

theorem started_stop (device : Device) :
    (m.modemStop device).started = (m.started && !device.stop) := by
  have same := congrArg Desk.started (desk_stop m device)
  rw [Desk.stop_eq] at same
  exact same

theorem hook_stop (device : Device) :
    (m.modemStop device).hook = if device.hook then .on else m.hook := by
  have same := congrArg Desk.hook (desk_stop m device)
  rw [Desk.stop_eq] at same
  exact same

theorem startClears_stop (device : Device) :
    (m.modemStop device).startClears device = m.startClears device := by
  unfold startClears
  rw [started_stop, hook_stop]
  cases device.stop <;> cases device.hook <;> cases m.started <;> simp

theorem tty_startCounted (device : Device) :
    (if m.started then
        if (m.modemStop device).started then (m.modemStop device, false)
        else (m.modemStop device).modemStartStopped device
      else m.modemStartStopped device).1.tty =
      if m.startClears device then m.tty.cleared else m.tty := by
  by_cases running : m.started
  · rw [if_pos running]
    by_cases stuck : (m.modemStop device).started
    · rw [if_pos stuck, tty_stop]
      rw [started_stop, running] at stuck
      have stays : device.stop = false := by simpa using stuck
      simp [startClears, running, stays]
    · rw [if_neg stuck, tty_startStopped, tty_stop, ← startClears_stop]
      simp [startClears, stuck]
  · rw [if_neg running, tty_startStopped]
    simp [startClears, running]

theorem tty_start (device : Device) :
    (m.modemStart device).1.tty = if m.startClears device then m.tty.cleared else m.tty :=
  tty_startCounted { m with starts := m.starts + 1 } device

theorem tty_stopStarted (device : Device) :
    (if m.started then m.modemStop device else m).tty = m.tty ∧
      (if m.started then m.modemStop device else m).startClears device = m.startClears device := by
  split
  · exact ⟨tty_stop m device, startClears_stop m device⟩
  · exact ⟨rfl, rfl⟩

theorem tty_answer (device : Device) :
    (m.modemAnswer device).1.tty =
      if m.clears device .answer then m.tty.cleared else m.tty := by
  unfold modemAnswer clears
  have ready := tty_stopStarted m device
  cases pump : m.dp with
  | some id => rfl
  | none =>
      rw [if_neg (by simp)]
      simp only [Option.isNone_none, Bool.true_and]
      generalize (if m.started then m.modemStop device else m) = stopped at ready
      rw [tty_start, ← ready.1, ← ready.2]
      rfl

theorem tty_dialStart (device : Device) :
    (m.modemDialStart device).1.tty = m.tty ∧
      (m.modemDialStart device).2 = (m.dp.isNone && device.dp.isSome) ∧
      (m.modemDialStart device).1.startClears device = m.startClears device := by
  unfold modemDialStart
  have ready := tty_stopStarted m device
  cases pump : m.dp with
  | some id => exact ⟨rfl, rfl, rfl⟩
  | none =>
      rw [if_neg (by simp)]
      generalize (if m.started then m.modemStop device else m) = stopped at ready
      cases device.dp with
      | none => exact ⟨ready.1, rfl, ready.2⟩
      | some id => exact ⟨ready.1, rfl, ready.2⟩

theorem tty_dial (device : Device) :
    (m.modemDial device).1.tty = if m.clears device .dial then m.tty.cleared else m.tty := by
  obtain ⟨same, dialed, starts⟩ := tty_dialStart m device
  unfold modemDial clears
  simp only
  rw [dialed]
  split
  · rename_i free
    rw [tty_start, starts, same, free]
    simp
  · rename_i refused
    rw [same]
    simp [refused]

@[simp]
theorem tty_hookCall (device : Device) (hookState : Hook) :
    (m.modemHook device hookState).1.tty = m.tty := by
  unfold modemHook
  split
  · rfl
  · simp only
    rw [tty_setHook]
    split
    · exact tty_hup m true
    · rfl

@[simp]
theorem tty_online : m.modemOnline.1.tty = m.tty := by
  unfold modemOnline
  split
  · rfl
  · rw [tty_report, tty_setState]
    rfl

@[simp]
theorem tty_voiceStop (device : Device) : (m.modemVoiceStop device).tty = m.tty := by
  unfold modemVoiceStop
  rw [tty_setHook, tty_stop]
  rfl

@[simp]
theorem tty_voiceStart (device : Device) : (m.modemVoiceStart device).1.tty = m.tty := by
  unfold modemVoiceStart
  have ready := (tty_stopStarted m device).1
  split
  · rfl
  · split
    · rfl
    · simp only
      generalize (if m.started then m.modemStop device else m) = stopped at ready
      split
      · exact ready
      · rw [tty_doStart, tty_setHook]
        exact ready

@[simp]
theorem tty_voiceSetDevice (line : Bool) (device : Device) :
    (m.modemVoiceSetDevice line device).tty = m.tty := by
  unfold modemVoiceSetDevice
  split
  · exact tty_voiceStart m device
  · split
    · exact tty_voiceStop m device
    · rfl

@[simp]
theorem tty_setMode (mode : ModemMode) (device : Device) :
    (m.modemSetMode mode device).tty = m.tty := by
  unfold modemSetMode
  have left : (if m.mode = .voice ∧ m.voiceObj then m.modemVoiceStop device else m).tty =
      m.tty := by
    split
    · exact tty_voiceStop m device
    · rfl
  split
  · rfl
  · generalize (if m.mode = .voice ∧ m.voiceObj then m.modemVoiceStop device else m) = next at left
    exact left

theorem tty_reset_stop (device : Device) :
    (if m.state ≠ .modemIdle then m.modemHup true
      else if m.started then m.modemStop device
      else if m.hook ≠ .on then (m.modemSetHook device .on).1
      else m).tty = m.tty := by
  split
  · exact tty_hup m true
  · split
    · exact tty_stop m device
    · split
      · exact tty_setHook m device .on
      · rfl

@[simp]
theorem tty_modemReset (device : Device) : (m.modemReset device).tty = m.tty := by
  have stopped := tty_reset_stop m device
  unfold modemReset
  simp only
  rw [tty_setMode]
  generalize (if m.state ≠ .modemIdle then m.modemHup true
      else if m.started then m.modemStop device
      else if m.hook ≠ .on then (m.modemSetHook device .on).1
      else m) = off at stopped
  rw [← stopped, ← tty_setState off .modemIdle]
  rfl

theorem tty_call (device : Device) (c : Call) :
    (m.call device c).tty = if m.clears device c then m.tty.cleared else m.tty := by
  cases c with
  | answer => exact tty_answer m device
  | dial => exact tty_dial m device
  | hook hookState => exact tty_hookCall m device hookState
  | online => exact tty_online m
  | reset => exact tty_modemReset m device
  | setMode mode => exact tty_setMode m mode device
  | setCid requested => rfl
  | voiceDevice line =>
      unfold call
      simp only [clears, Bool.false_eq_true, if_false]
      split
      · exact tty_voiceSetDevice m line device
      · rfl
  | voiceCommand =>
      unfold call modemVoiceCommand
      simp only [clears, Bool.false_eq_true, if_false]
      split
      · split <;> rfl
      · rfl
  | setSreg num val => rfl
  | send bytes => rfl

end Tty

/-- Whether a command line comes to clear the queue. -/
def lineClears (m : Modem) : List (Call × Device) → Bool
  | [] => false
  | step :: rest => m.clears step.2 step.1 || (m.call step.2 step.1).lineClears rest

theorem tty_calls (m : Modem) (calls : List (Call × Device)) :
    (calls.foldl (fun m step => m.call step.2 step.1) m).tty =
      if m.lineClears calls then m.tty.cleared else m.tty := by
  induction calls generalizing m with
  | nil => rfl
  | cons step rest ih =>
      rw [List.foldl_cons, ih, tty_call, lineClears]
      cases m.clears step.2 step.1 with
      | false => simp
      | true =>
          simp only [if_true, Bool.true_or]
          split <;> rfl

theorem tty_processAtCommand (m : Modem) (line : AtLine) :
    (m.processAtCommand line).tty =
      if m.lineClears line.calls then m.tty.cleared else m.tty :=
  tty_calls m line.calls

end Modem

end DModem
