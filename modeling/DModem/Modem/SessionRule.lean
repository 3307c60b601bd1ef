/-
An invariant rule for the state of a session.

The control functions change the state, the pending result, and the numbers of CONNECTs and
of starts by hanging up, stopping and starting.  All else that they do to a desk is of no
account for a property of these four.
-/

import DModem.Modem.StepRule

namespace DModem

namespace Desk

/-- What a property of the state, the pending result and the two numbers may rely on. -/
structure SessionSafe (P : Desk → Prop) : Prop where
  edit : ∀ {d d' : Desk}, P d → d'.state = d.state → d'.resultCode = d.resultCode →
    d'.connects = d.connects → d'.starts = d.starts → P d'
  hup : ∀ {d : Desk} (release : Bool), P d → P (d.hup release)
  stop : ∀ {d : Desk} (device : Device), P d → P (d.stop device)
  start : ∀ {d : Desk} (device : Device), P d → P (d.start device).1
  idle : ∀ {d : Desk}, P d → P (d.setState .modemIdle)

section Rule

variable {P : Desk → Prop} (safe : SessionSafe P) {d : Desk} (device : Device)
include safe

theorem SessionSafe.setHook (kept : P d) (hookState : Hook) : P (d.setHook device hookState) := by
  unfold Desk.setHook
  split
  · exact safe.edit kept rfl rfl rfl rfl
  · exact kept

theorem SessionSafe.doStart (kept : P d) : P (d.doStart device) :=
  safe.edit kept rfl rfl rfl rfl

theorem SessionSafe.stopStarted (kept : P d) : P (d.stopStarted device) := by
  rcases stopStarted_cases d device with ⟨_, same⟩ | ⟨_, same⟩
  · rw [same]
    exact kept
  · rw [same]
    exact safe.stop device kept

theorem SessionSafe.answer (kept : P d) : P (d.answer device).1 := by
  rcases answer_cases d device with ⟨_, same⟩ | ⟨_, due, _, same⟩
  · rw [same]
    exact kept
  · rw [same]
    exact safe.start device (safe.edit (safe.stopStarted device kept) rfl rfl rfl rfl)

theorem SessionSafe.dial (kept : P d) : P (d.dial device) := by
  rcases dial_cases d device with ⟨_, same⟩ | ⟨_, same⟩ | ⟨_, same⟩
  · rw [same]
    exact kept
  · rw [same]
    exact safe.stopStarted device kept
  · rw [same]
    exact safe.start device (safe.edit (safe.stopStarted device kept) rfl rfl rfl rfl)

theorem SessionSafe.voiceStop (kept : P d) : P (d.voiceStop device) := by
  have cleared : P { clearTimer { d with process := none } with voiceObj := false } :=
    safe.edit kept rfl rfl rfl rfl
  exact safe.setHook device (safe.stop device cleared) .on

theorem SessionSafe.setMode (kept : P d) (mode : ModemMode) : P (d.setMode device mode) := by
  unfold Desk.setMode
  split
  · exact kept
  · split
    · exact safe.edit (safe.voiceStop device kept) rfl rfl rfl rfl
    · exact safe.edit kept rfl rfl rfl rfl

theorem SessionSafe.voiceStart (kept : P d) : P (d.voiceStart device) := by
  unfold Desk.voiceStart
  split
  · exact kept
  · split
    · exact kept
    · have stopped := safe.stopStarted device kept
      simp only
      split
      · exact stopped
      · have begun : P { clearTimer { d.stopStarted device with voiceObj := true } with
            process := some .voice } := safe.edit stopped rfl rfl rfl rfl
        exact safe.doStart device (safe.setHook device begun .off)

theorem SessionSafe.cidStart (kept : P d) (timeout : Nat) : P (d.cidStart device timeout) := by
  have begun : P { d.armCid timeout with process := some .cid } := safe.edit kept rfl rfl rfl rfl
  unfold Desk.cidStart
  split
  · exact kept
  · split
    · exact safe.edit kept rfl rfl rfl rfl
    · split
      · exact safe.edit kept rfl rfl rfl rfl
      · exact safe.doStart device (safe.setHook device begun .snooping)

theorem SessionSafe.ringDetectorStart (kept : P d) : P (d.ringDetectorStart device) := by
  have begun : P { d with rdObj := device.rd, process := some .ringDetector } :=
    safe.edit kept rfl rfl rfl rfl
  unfold Desk.ringDetectorStart
  split
  · exact kept
  · exact safe.doStart device (safe.setHook device begun .snooping)

theorem SessionSafe.setRings (kept : P d) (rings : UInt8) : P (d.setRings rings) :=
  safe.edit kept rfl rfl rfl rfl

theorem SessionSafe.answerRings (kept : P d) : P (d.answerRings device) := by
  unfold Desk.answerRings
  split
  · exact safe.answer device (safe.setRings kept 0)
  · exact kept

theorem SessionSafe.cidStop (kept : P d) : P (d.cidStop device) := by
  have cleared : P d.clearTimer := safe.edit kept rfl rfl rfl rfl
  unfold Desk.cidStop
  apply safe.answerRings
  split
  · exact safe.edit cleared rfl rfl rfl rfl
  · exact safe.stop device (safe.edit cleared rfl rfl rfl rfl)

theorem SessionSafe.cidProcess (kept : P d) (status : Int) : P (d.cidProcess device status) := by
  unfold Desk.cidProcess
  split
  · exact safe.cidStop device kept
  · exact kept

theorem SessionSafe.changeDp (kept : P d) (ec : Bool) : P (d.changeDp device ec) := by
  unfold Desk.changeDp
  split
  · unfold Desk.faxStart
    split
    · exact safe.edit kept rfl rfl rfl rfl
    · exact safe.edit kept rfl rfl rfl rfl
  · cases device.dp with
    | none => exact safe.hup ec kept
    | some id => exact safe.edit kept rfl rfl rfl rfl

theorem SessionSafe.callTimer (kept : P d) (ec : Bool) (func : SampleTimerFunc) :
    P (d.callTimer device ec func) := by
  cases func with
  | runModemStop => exact safe.stop device kept
  | doModemChangeDp => exact safe.changeDp device kept ec
  | modemCidStop => exact safe.cidStop device kept

theorem SessionSafe.reset (kept : P d) (ec : Bool) : P (d.reset device ec) := by
  have closed : P (if d.state ≠ .modemIdle then d.hup ec
      else if d.started then d.stop device
      else if d.hook ≠ .on then d.setHook device .on
      else d) := by
    split
    · exact safe.hup ec kept
    · split
      · exact safe.stop device kept
      · split
        · exact safe.setHook device kept .on
        · exact kept
  have idle := safe.idle closed
  unfold Desk.reset
  simp only
  apply safe.setMode
  exact safe.edit idle rfl rfl rfl rfl

theorem SessionSafe.call (kept : P d) (online : P d.online) (ec : Bool) (c : Modem.Call) :
    P (d.call device ec c) := by
  cases c with
  | answer => exact safe.answer device kept
  | dial => exact safe.dial device kept
  | hook hookState =>
      unfold Desk.call Desk.hookCall
      simp only
      split
      · exact kept
      · exact safe.setHook device (safe.hup ec kept) hookState
  | online => exact online
  | reset => exact safe.reset device kept ec
  | setMode mode => exact safe.setMode device kept mode
  | setCid requested => exact safe.edit kept rfl rfl rfl rfl
  | voiceDevice line =>
      unfold Desk.call Desk.voiceSetDevice
      simp only
      split
      · split
        · exact safe.voiceStart device kept
        · split
          · exact safe.voiceStop device kept
          · exact kept
      · exact kept
  | voiceCommand =>
      unfold Desk.call
      simp only
      split
      · exact safe.edit kept rfl rfl rfl rfl
      · exact kept
  | setSreg num val => exact safe.edit kept rfl rfl rfl rfl
  | send bytes => exact kept

theorem SessionSafe.countSamples (kept : P d) (ec : Bool) (count : Nat) :
    P (d.countSamples device ec count) := by
  have counted : P { d with count := d.count + count } := safe.edit kept rfl rfl rfl rfl
  have expired : P (Desk.expire { d with count := d.count + count }) :=
    safe.edit counted rfl rfl rfl rfl
  unfold Desk.countSamples
  simp only
  split
  · cases d.sampleTimerFunc with
    | none => exact expired
    | some func => exact safe.callTimer device expired ec func
  · exact counted

theorem SessionSafe.forceHangup (kept : P d) (ec : Bool) : P (d.forceHangup device ec) := by
  have hung := safe.hup ec kept
  have forced : P ((d.hup ec).forceTimer device ec) := by
    unfold Desk.forceTimer
    cases (d.hup ec).sampleTimerFunc with
    | none => exact safe.edit hung rfl rfl rfl rfl
    | some func => exact safe.callTimer device hung ec func
  exact safe.edit forced rfl rfl rfl rfl

end Rule

end Desk

namespace Modem

theorem stepSafe_of_session {P : Desk → Prop} (safe : Desk.SessionSafe P)
    {Fine : Modem → Event → Prop}
    (fail : ∀ {d : Desk} (code : ModemResult) (release : Bool), P d → code ≠ .connect →
      P (d.fail code release))
    (online : ∀ {d : Desk}, P d → P d.online)
    (escaped : ∀ {d : Desk}, P d → d.state = .modemOnline → P d.escaped)
    (frame : ∀ {m : Modem} (f : Hdlc.Frame) (chars : Chars), P m.desk → m.desk.Pumps →
      Fine m (.frame f chars) → P (m.lapmRxComplete f chars).desk)
    (finish : ∀ {m : Modem} (bits : Nat), P m.desk → m.desk.Pumps → Fine m (.tick bits) →
      m.bitsExpire bits = true → m.bitTimerFunc = some .detectorFinish →
        m.detector.ecEnable = false → P (m.desk.pack .async 0 none).link)
    (connect : ∀ {m : Modem} (device : Device), P m.desk → m.desk.Pumps →
      Fine m (.dpStat .connect device) → m.state = .modemIdle ∨ m.state = .dpEstab →
        P (m.desk.setState .ecEstab) ∧ P ((m.desk.setState .ecEstab).pack .async 0 none).link)
    (voiceStatus : ∀ {m : Modem} (status : Int) (device : Device), P m.desk →
      Fine m (.voiceStatus status device) → m.processes .voice = true →
        P (m.desk.voiceProcess device status))
    (faxStatus : ∀ {m : Modem} (ret : Int) (device : Device), P m.desk →
      Fine m (.faxStatus ret device) → m.processes .fax = true →
        P (m.desk.faxProcess device m.cfg.ec ret)) :
    StepSafe P Fine (fun _ _ _ => True) where
  bits := fun _ _ kept _ => safe.edit kept rfl rfl rfl rfl
  untimed := fun kept _ _ => safe.edit kept rfl rfl rfl rfl
  hup := fun release kept => safe.hup release kept
  fail := fail
  drop := fun kept _ => safe.edit kept rfl rfl rfl rfl
  pack := fun _ _ _ kept _ _ => safe.edit kept rfl rfl rfl rfl
  frame := frame
  finish := finish
  connect := connect
  change := fun device kept _ _ => safe.changeDp device kept _
  escaped := escaped
  rings := fun rings kept => safe.setRings kept rings
  ringCheck := fun device kept _ _ => safe.answer device (safe.setRings kept 0)
  ring := fun _ device kept _ _ => safe.cidStart device kept _
  ringDetectorStart := fun device kept _ _ => safe.ringDetectorStart device kept
  select := by
    intro m kept _
    unfold Desk.setFds
    split
    · exact safe.edit kept rfl rfl rfl rfl
    · exact kept
  readFails := fun device kept _ _ => safe.forceHangup device kept _
  cidStatus := fun status device kept _ _ => safe.cidProcess device kept status
  ringDetails := by
    intro m details status now device kept _ _
    have ready : P (m.deskRung details now device) := by
      unfold deskRung
      split
      · exact safe.cidStart device kept _
      · exact kept
    split
    · exact safe.cidProcess device ready status
    · exact ready
  voiceStatus := voiceStatus
  faxStatus := faxStatus
  samples := fun count device kept _ => safe.countSamples device kept _ count
  call := fun c device kept _ => safe.call device kept (online kept) _ c
  calls := fun _ _ _ _ _ _ => trivial

end Modem

/-! ### The pending result -/

namespace Desk

def Unconnected (d : Desk) : Prop := d.resultCode ≠ .connect

theorem unconnected_setState {d : Desk} (kept : d.Unconnected) (newState : ModemState) :
    (d.setState newState).Unconnected := by
  rcases setState_frame d newState with ⟨_, _, _, same⟩
  rw [same]
  exact kept

theorem unconnected_link {d : Desk} (kept : d.Unconnected) : d.link.Unconnected := by
  rcases link_eq d with ⟨_, _, _, same⟩
  rw [same]
  exact kept

theorem unconnected_hup {d : Desk} (kept : d.Unconnected) (release : Bool) :
    (d.hup release).Unconnected := by
  rcases hup_cases d release with ⟨_, same⟩ | ⟨_, same⟩ | ⟨_, _, _, _, _, _, _, _, _, same⟩
  · rw [same]
    exact kept
  · rw [same]
    exact kept
  · rw [same]
    change (if d.resultCode = .ok then ModemResult.nocarrier else d.resultCode) ≠ .connect
    split
    · decide
    · exact kept

theorem unconnectedSession : SessionSafe Unconnected where
  edit := by
    intro d d' kept _ code _ _
    unfold Unconnected
    rw [code]
    exact kept
  hup := fun release kept => unconnected_hup kept release
  stop := by
    intro d device _
    unfold Unconnected
    rw [(Ended.stop d device).resultCode]
    decide
  start := by
    intro d device _
    unfold Unconnected
    rcases start_cases d device with ⟨_, _, opened⟩ | ⟨_, _, ended, _⟩
    · rw [opened.resultCode]
      decide
    · rw [ended.resultCode]
      decide
  idle := fun kept => unconnected_setState kept .modemIdle

end Desk

namespace Modem

theorem unconnectedSafe :
    StepSafe Desk.Unconnected (fun _ _ => True) (fun _ _ _ => True) := by
  have failed : ∀ {d : Desk} (code : ModemResult) (release : Bool), d.Unconnected →
      code ≠ .connect → (d.fail code release).Unconnected := by
    intro d code release _ other
    exact Desk.unconnected_hup (d := { d with resultCode := code }) other release
  apply stepSafe_of_session Desk.unconnectedSession
  · exact failed
  · intro d kept
    unfold Desk.online
    split
    · exact kept
    · exact Desk.unconnected_link kept
  · exact fun kept _ => Desk.unconnected_setState kept .commandOnline
  · intro m f chars kept pumps _
    have safe := lapmSafe_of (P := Desk.Unconnected) (fun _ _ kept _ => kept) failed
      (fun kept _ => Desk.unconnected_link kept)
    exact (safe.rxComplete ⟨kept, pumps⟩ f chars).1
  · intro m bits kept _ _ _ _ _
    exact Desk.unconnected_link (d := m.desk.pack .async 0 none) kept
  · intro m device kept _ _ _
    have begun := Desk.unconnected_setState kept .ecEstab
    exact ⟨begun, Desk.unconnected_link (d := (m.desk.setState .ecEstab).pack .async 0 none) begun⟩
  · intro m status device kept _ _
    unfold Desk.voiceProcess
    split_ifs
    · exact kept
    · exact kept
    · exact kept
    · exact Desk.unconnectedSession.voiceStop device kept
    · exact kept
  · intro m ret device kept _ _
    unfold Desk.faxProcess
    split_ifs
    · exact Desk.unconnected_setState kept .commandOnline
    · exact Desk.unconnected_link kept
    · exact Desk.unconnected_setState kept .commandOnline
    · exact failed _ _ kept (by decide)
    · exact Desk.unconnectedSession.stop device kept
    · exact kept

end Modem

end DModem
