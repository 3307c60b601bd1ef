/-
The control state of a modem.

`desk` keeps the fields by which calls are made and ended.  Except for the bit
timer the LAPM functions reach it only through hang-ups and link reports, and the command
line editor does not change it.
-/

import DModem.Modem.Run

namespace DModem

structure Desk where
  state : ModemState
  command : Bool
  resultCode : ModemResult
  getBits : Option BitRoutine
  putBits : Option BitRoutine
  bitTimer : Int
  bitTimerFunc : Option BitTimerFunc
  dp : Option DpId
  count : Nat
  sampleTimer : Nat
  sampleTimerFunc : Option SampleTimerFunc
  started : Bool
  hook : Hook
  process : Option Process
  mode : ModemMode
  cid : Bool
  cidRequested : Bool
  rdObj : Bool
  voiceObj : Bool
  faxObj : Bool
  fd : Int
  sregs : Nat → UInt8
  connects : Nat
  starts : Nat
  opens : Nat
  session : Bool
  stops : Nat
  armedAt : Nat
  fired : List (Nat × Nat)
  faults : List Fault

namespace Desk

def setState (d : Desk) (newState : ModemState) : Desk :=
  if d.state = newState then d
  else
    match newState with
    | .modemIdle =>
        { d with state := .modemIdle, command := true, getBits := none, putBits := none }
    | .dpEstab =>
        { d with state := .dpEstab, command := false, getBits := none, putBits := none }
    | .ecEstab => { d with state := .ecEstab, command := false }
    | .modemOnline => { d with state := .modemOnline, command := false }
    | .commandOnline => { d with state := .commandOnline, command := true }
    | .ecDisc => { d with state := .ecDisc }
    | .dpDisc => { d with state := .dpDisc, getBits := none, putBits := none }

def hangUp (d : Desk) (newState : ModemState) : Desk :=
  { d.setState newState with
    resultCode := if d.resultCode = .ok then .nocarrier else d.resultCode
    sampleTimerFunc := some .runModemStop
    sampleTimer := d.count + 48
    armedAt := d.stops }

/-- `modem_ec_stop`: T401 is started for the DISC. -/
def ecStop (d : Desk) : Desk :=
  { d with bitTimer := t401TimeoutBits, bitTimerFunc := some .t401Timeout }

/-- `modem_hup`; `release` says that LAPM is to release the link first. -/
def hup (d : Desk) (release : Bool) : Desk :=
  match d.state with
  | .modemIdle | .dpDisc => d
  | .dpEstab => d.hangUp .dpDisc
  | .ecEstab | .modemOnline | .commandOnline =>
      if release then d.ecStop.hangUp .ecDisc else d.hangUp .dpDisc
  | .ecDisc => d.setState .dpDisc

def printsModulation (d : Desk) : Bool :=
  d.sregs sregQuiet == 0 && d.sregs sregVerbose != 0 &&
    d.sregs sregConnnectMsgFormat &&& 1 != 0

def connect (d : Desk) : Desk :=
  { d with
    connects := d.connects + 1
    faults := if d.printsModulation && d.dp.isNone then d.faults ++ [.modulation] else d.faults }

def report (d : Desk) (code : ModemResult) : Desk := if code = .connect then d.connect else d

/-- `STATUS_EC_LINK`. -/
def link (d : Desk) : Desk := (d.setState .modemOnline).connect

def setHook (d : Desk) (device : Device) (hookState : Hook) : Desk :=
  if device.hook then { d with hook := hookState } else d

def driverStop (d : Desk) (device : Device) : Desk :=
  if d.started && device.stop then { d with started := false, fd := -1 } else d

def deleteObjects (d : Desk) : Desk :=
  { d with
    command := true
    dp := none
    rdObj := false
    cid := false
    voiceObj := false
    faxObj := false }

def reportPending (d : Desk) : Desk := { d.report d.resultCode with resultCode := .ok }

def endSession (d : Desk) : Desk :=
  { d with count := 0, session := false, stops := d.stops + 1 }

/-- `modem_stop`. -/
def stop (d : Desk) (device : Device) : Desk :=
  let d := driverStop { d with process := none } device
  ((d.setHook device .on).deleteObjects.setState .modemIdle).reportPending.endSession

def doStart (d : Desk) (device : Device) : Desk :=
  { d with
    count := 0
    opens := d.opens + 1
    started := device.start
    session := device.start
    fd := if device.start then device.fd else -1 }

/-- `error:` of `modem_start`. -/
def startError (d : Desk) (device : Device) : Desk :=
  stop { d with resultCode := .nocarrier } device

def compresses (d : Desk) : Bool := d.sregs sregEc != 0 && d.sregs sregComp != 0

def clearRings (d : Desk) : Desk :=
  { d with sregs := Function.update d.sregs sregRingCounter 0 }

def startObjects (d : Desk) (device : Device) : Desk × Bool :=
  if !device.runtime || (d.compresses && !device.comp) then (d.startError device, false)
  else if device.start then (d.clearRings.doStart device, true)
  else ((d.clearRings.doStart device).startError device, false)

/-- `modem_start` once the device is stopped. -/
def startStopped (d : Desk) (device : Device) : Desk × Bool :=
  let d := setState { d with resultCode := .ok } .dpEstab
  if d.hook = .off ∨ device.hook then
    startObjects { d with hook := .off, command := false } device
  else (d.startError device, false)

/-- `modem_start`. -/
def start (d : Desk) (device : Device) : Desk × Bool :=
  let d := { d with starts := d.starts + 1 }
  if d.started then
    let d := d.stop device
    if d.started then (d, false) else d.startStopped device
  else d.startStopped device

end Desk

namespace Modem

def desk (m : Modem) : Desk :=
  { state := m.state
    command := m.command
    resultCode := m.resultCode
    getBits := m.getBits
    putBits := m.putBits
    bitTimer := m.bitTimer
    bitTimerFunc := m.bitTimerFunc
    dp := m.dp
    count := m.count
    sampleTimer := m.sampleTimer
    sampleTimerFunc := m.sampleTimerFunc
    started := m.started
    hook := m.hook
    process := m.process
    mode := m.mode
    cid := m.cid
    cidRequested := m.cidRequested
    rdObj := m.rdObj
    voiceObj := m.voiceObj
    faxObj := m.faxObj
    fd := m.fd
    sregs := m.sregs
    connects := m.reports.countP (· = .connect)
    starts := m.starts
    opens := m.opens
    session := m.session
    stops := m.stops
    armedAt := m.armedAt
    fired := m.fired
    faults := m.faults }

section Desk

variable (m : Modem) (device : Device)

theorem setState_frame (newState : ModemState) :
    ∃ state command getChars putChars getBits putBits,
      m.modemSetState newState =
        { m with
          state := state
          command := command
          getChars := getChars
          putChars := putChars
          getBits := getBits
          putBits := putBits } := by
  unfold modemSetState
  split
  · exact ⟨_, _, _, _, _, _, rfl⟩
  · cases newState <;> exact ⟨_, _, _, _, _, _, rfl⟩

@[simp]
theorem desk_setState (newState : ModemState) :
    (m.modemSetState newState).desk = m.desk.setState newState := by
  unfold modemSetState Desk.setState
  by_cases same : m.state = newState
  · have deskSame : m.desk.state = newState := same
    rw [if_pos same, if_pos deskSame]
  · have deskOther : ¬m.desk.state = newState := same
    rw [if_neg same, if_neg deskOther]
    cases newState <;> rfl

@[simp]
theorem desk_report (code : ModemResult) :
    (m.modemReportResult code).desk = m.desk.report code := by
  rw [report_eq]
  unfold Desk.report
  cases code with
  | connect => simp [desk, Desk.connect, printsModulation, Desk.printsModulation]
  | ok | ring | nocarrier | error | nodialtone | busy | noanswer =>
      simp [desk, printsModulation]

theorem desk_hangUp (newState : ModemState) :
    ((m.modemSetState newState).defaultResult.scheduleModemStop).desk =
      m.desk.hangUp newState := by
  have set := desk_setState m newState
  rcases setState_frame m newState with ⟨state, command, getChars, putChars, getBits, putBits, same⟩
  rw [same] at set ⊢
  unfold Desk.hangUp defaultResult
  rw [← set]
  split
  · rename_i fresh
    have deskFresh : m.desk.resultCode = .ok := fresh
    rw [if_pos deskFresh]
    rfl
  · rename_i known
    have deskKnown : ¬m.desk.resultCode = .ok := known
    rw [if_neg deskKnown]
    rfl

@[simp]
theorem desk_putCtrl (bytes : List UInt8) : (m.putCtrl bytes).desk = m.desk := by
  unfold putCtrl
  split <;> rfl

@[simp]
theorem desk_ecStop : m.modemEcStop.desk = m.desk.ecStop := by
  have queued := desk_putCtrl (setPhase { m with bitTimer := 0, packerProcess := false } .disc)
    [m.lapm.cmdAddr, frameUDisc ||| 0x10]
  exact congrArg Desk.ecStop queued

@[simp]
theorem desk_hup (isLocal : Bool) :
    (m.modemHup isLocal).desk = m.desk.hup (isLocal && m.cfg.ec) := by
  unfold modemHup Desk.hup
  have deskState : m.desk.state = m.state := rfl
  rw [deskState]
  cases m.state with
  | modemIdle | dpDisc => rfl
  | dpEstab => exact desk_hangUp m .dpDisc
  | ecDisc => exact desk_setState m .dpDisc
  | ecEstab | modemOnline | commandOnline =>
      simp only
      split
      · rw [desk_hangUp, desk_ecStop]
      · exact desk_hangUp m .dpDisc

theorem desk_setHook (hookState : Hook) :
    (m.modemSetHook device hookState).1.desk = m.desk.setHook device hookState := by
  unfold modemSetHook Desk.setHook
  by_cases obeys : device.hook = true
  · rw [if_pos obeys]
    split
    · rename_i same
      subst same
      rfl
    · rfl
  · rw [if_neg obeys]
    split <;> rfl

theorem desk_driverStop : (m.driverStop device).desk = m.desk.driverStop device := by
  unfold driverStop Desk.driverStop
  have deskStarted : m.desk.started = m.started := rfl
  rw [deskStarted]
  split <;> rfl

theorem desk_reportPending : m.reportPending.desk = m.desk.reportPending := by
  unfold reportPending Desk.reportPending
  have code : m.desk.resultCode = m.resultCode := rfl
  rw [code]
  split
  · rename_i none
    rw [none, Desk.report, if_neg (by decide)]
    change m.desk = { m.desk with resultCode := .ok }
    rw [← none]
    rfl
  · exact congrArg (fun d : Desk => { d with resultCode := .ok }) (desk_report m m.resultCode)

theorem desk_deleteObjects : m.deleteObjects.desk = m.desk.deleteObjects := rfl

theorem desk_endSession : m.endSession.desk = m.desk.endSession := rfl

@[simp]
theorem desk_stop : (m.modemStop device).desk = m.desk.stop device := by
  unfold modemStop
  simp only
  rw [desk_endSession, desk_reportPending, desk_setState, desk_deleteObjects, desk_setHook,
    desk_driverStop]
  rfl

theorem desk_doStart : (m.doModemStart device).1.desk = m.desk.doStart device := rfl

theorem desk_startError :
    (m.modemStartError device).1.desk = m.desk.startError device :=
  desk_stop { m with resultCode := .nocarrier } device

theorem setHook_obeys (hookState : Hook) :
    (m.modemSetHook device hookState).2 = true ↔ m.hook = hookState ∨ device.hook = true := by
  unfold modemSetHook
  split
  · rename_i same
    simp [same]
  · rename_i other
    split
    · rename_i obeys
      simp [obeys]
    · rename_i refuses
      simp [other, refuses]

end Desk

def deskOf (result : Modem × Bool) : Desk × Bool := (result.1.desk, result.2)

section Start

variable (m : Modem) (device : Device)

theorem desk_startObjects (comp : (m.cfg.ec && m.cfg.comp != 0) = m.desk.compresses) :
    deskOf (m.modemStartObjects device) = m.desk.startObjects device := by
  unfold modemStartObjects Desk.startObjects
  rw [comp]
  cases device.runtime with
  | false =>
      simp only [Bool.not_false, Bool.true_or, if_true]
      exact Prod.ext (desk_startError m device) rfl
  | true =>
      simp only [Bool.not_true, Bool.false_or, Bool.false_eq_true, if_false]
      split
      · exact Prod.ext (desk_startError m device) rfl
      · have first : (if m.desk.compresses = true then m.modemCompInit else m).desk = m.desk := by
          split <;> rfl
        generalize (if m.desk.compresses = true then m.modemCompInit else m) = packed at first ⊢
        have second : (if packed.cfg.ec = true then packed.lapmInit else packed).desk = m.desk := by
          split
          · exact first
          · exact first
        generalize (if packed.cfg.ec = true then packed.lapmInit else packed) = built at second ⊢
        rw [← second]
        have opened : (built.clearRings.doModemStart device).1.desk =
            built.desk.clearRings.doStart device := desk_doStart built.clearRings device
        have answer : (built.clearRings.doModemStart device).2 = device.start := rfl
        generalize built.clearRings.doModemStart device = started at opened answer ⊢
        rw [← answer]
        split
        · exact Prod.ext opened (by assumption)
        · refine Prod.ext ?_ rfl
          exact (desk_startError started.1 device).trans (by rw [opened])

theorem setupConfig_compresses :
    (m.modemSetupConfig.cfg.ec && m.modemSetupConfig.cfg.comp != 0) = m.desk.compresses := by
  change (m.sregs sregEc != 0 &&
    (if (m.sregs sregEc != 0) && (m.sregs sregComp != 0 && (m.sregs sregEc != 0)) then
      (3 : UInt8) else 0) != 0) = (m.sregs sregEc != 0 && m.sregs sregComp != 0)
  cases m.sregs sregEc != 0 <;> cases m.sregs sregComp != 0 <;> rfl

theorem setHook_off (d : Desk) (off : d.hook = .off ∨ device.hook = true) :
    d.setHook device .off = { d with hook := .off } := by
  unfold Desk.setHook
  split
  · rfl
  · rename_i refuses
    have already : d.hook = .off := off.resolve_right refuses
    rw [← already]

theorem setHook_cfg (hookState : Hook) : (m.modemSetHook device hookState).1.cfg = m.cfg := by
  unfold modemSetHook
  split
  · rfl
  · split <;> rfl

theorem desk_startStopped :
    deskOf (m.modemStartStopped device) = m.desk.startStopped device := by
  have set := desk_setState (modemSetupConfig { m with resultCode := .ok }) .dpEstab
  have config : ((modemSetupConfig { m with resultCode := .ok }).modemSetState .dpEstab).cfg =
      (modemSetupConfig { m with resultCode := .ok }).cfg := by
    rcases setState_frame (modemSetupConfig { m with resultCode := .ok }) .dpEstab with
      ⟨_, _, _, _, _, _, same⟩
    rw [same]
  have compresses := setupConfig_compresses { m with resultCode := .ok }
  rw [← config] at compresses
  unfold modemStartStopped Desk.startStopped
  change _ = Desk.setState { m.desk with resultCode := .ok } .dpEstab at set
  simp only
  generalize (modemSetupConfig { m with resultCode := .ok }).modemSetState .dpEstab = ready
    at set compresses ⊢
  have registers : ready.desk.compresses = m.desk.compresses := by
    rw [set]
    unfold Desk.setState
    split <;> rfl
  rw [← set]
  have hooked := desk_setHook ready device .off
  have kept := setHook_cfg ready device .off
  by_cases off : ready.hook = .off ∨ device.hook = true
  · have deskOff : ready.desk.hook = .off ∨ device.hook = true := off
    rw [if_pos deskOff, if_pos ((setHook_obeys ready device .off).mpr off)]
    rw [setHook_off device _ deskOff] at hooked
    generalize (ready.modemSetHook device .off).1 = lifted at hooked kept
    have cleared : desk { lifted with xmit := [], command := false } =
        { ready.desk with hook := .off, command := false } :=
      congrArg (fun d : Desk => { d with command := false }) hooked
    rw [← cleared]
    apply desk_startObjects
    rw [show lifted.cfg = ready.cfg from kept, compresses]
    exact registers.symm.trans (congrArg Desk.compresses cleared).symm
  · have deskOn : ¬(ready.desk.hook = .off ∨ device.hook = true) := off
    have refused : ¬(ready.modemSetHook device .off).2 = true :=
      fun obeys => off ((setHook_obeys ready device .off).mp obeys)
    rw [if_neg deskOn, if_neg refused]
    rw [Desk.setHook, if_neg (fun obeys => off (Or.inr obeys))] at hooked
    refine Prod.ext ?_ rfl
    rw [← hooked]
    exact desk_startError _ device

theorem desk_start : deskOf (m.modemStart device) = m.desk.start device := by
  have counted : desk { m with starts := m.starts + 1 } =
      { m.desk with starts := m.desk.starts + 1 } := rfl
  unfold modemStart Desk.start
  rw [← counted]
  generalize { m with starts := m.starts + 1 } = begun
  have deskStarted : begun.desk.started = begun.started := rfl
  simp only
  rw [deskStarted]
  split
  · rw [← desk_stop]
    generalize begun.modemStop device = closed
    have closedStarted : closed.desk.started = closed.started := rfl
    rw [closedStarted]
    split
    · rfl
    · exact desk_startStopped closed device
  · exact desk_startStopped begun device

end Start

end Modem

end DModem
