/-
The beginning and the end of a session, on the desk.

`modem_stop` and a `modem_start` that fails end in the same way; a start that succeeds
opens a session in `STATE_DP_ESTAB`.  None of them touches the sample timer.
-/

import DModem.Modem.Steps

namespace DModem.Desk

/-- `d'` is `d` with its session ended. -/
structure Ended (d d' : Desk) : Prop where
  state : d'.state = .modemIdle
  command : d'.command = true
  resultCode : d'.resultCode = .ok
  dp : d'.dp = none
  process : d'.process = none
  cid : d'.cid = false
  rdObj : d'.rdObj = false
  voiceObj : d'.voiceObj = false
  faxObj : d'.faxObj = false
  getBits : (d.state = .modemIdle → d.getBits = none) → d'.getBits = none
  putBits : (d.state = .modemIdle → d.putBits = none) → d'.putBits = none
  bitTimer : d'.bitTimer = d.bitTimer
  bitTimerFunc : d'.bitTimerFunc = d.bitTimerFunc
  sampleTimer : d'.sampleTimer = d.sampleTimer
  sampleTimerFunc : d'.sampleTimerFunc = d.sampleTimerFunc
  armedAt : d'.armedAt = d.armedAt
  fired : d'.fired = d.fired
  mode : d'.mode = d.mode
  session : d'.session = false
  starts : d.starts ≤ d'.starts
  connects : d.resultCode ≠ .connect → d'.connects = d.connects
  faults : d.resultCode ≠ .connect → d'.faults = d.faults
  opens : d.opens ≤ d'.opens
  device : (d.started = false ∧ d.opens = 0 → d'.fd = d.fd) ∨ 0 < d'.opens

/-- `d'` is `d` with a new session. -/
structure Opened (d d' : Desk) : Prop where
  state : d'.state = .dpEstab
  resultCode : d'.resultCode = .ok
  bitTimer : d'.bitTimer = d.bitTimer
  bitTimerFunc : d'.bitTimerFunc = d.bitTimerFunc
  sampleTimer : d'.sampleTimer = d.sampleTimer
  sampleTimerFunc : d'.sampleTimerFunc = d.sampleTimerFunc
  fired : d'.fired = d.fired
  mode : d'.mode = d.mode
  session : d'.session = true
  started : d'.started = true
  fd : 0 ≤ d'.fd
  opens : 0 < d'.opens
  starts : d.starts ≤ d'.starts
  connects : d.resultCode ≠ .connect → d'.connects = d.connects
  faults : d.resultCode ≠ .connect → d'.faults = d.faults
  armedAt : d'.armedAt = d.armedAt
  stops : d.started = false → d'.stops = d.stops
  process : d'.process = d.process ∨ d'.process = none
  rdObj : d'.rdObj = true → d.rdObj = true

theorem setState_frame (d : Desk) (newState : ModemState) :
    ∃ command getBits putBits, d.setState newState =
      { d with state := newState, command := command, getBits := getBits, putBits := putBits } := by
  unfold setState
  split
  · rename_i same
    subst same
    exact ⟨_, _, _, rfl⟩
  · cases newState <;> exact ⟨_, _, _, rfl⟩

section Stop

variable (d : Desk) (device : Device)

theorem setState_idle :
    d.setState .modemIdle =
      { d with
        state := .modemIdle
        command := if d.state = .modemIdle then d.command else true
        getBits := if d.state = .modemIdle then d.getBits else none
        putBits := if d.state = .modemIdle then d.putBits else none } := by
  unfold setState
  by_cases idle : d.state = .modemIdle
  · simp only [if_pos idle]
    rw [← idle]
  · simp only [if_neg idle]

theorem stop_eq :
    d.stop device =
      { d with
        state := .modemIdle
        command := true
        resultCode := .ok
        getBits := if d.state = .modemIdle then d.getBits else none
        putBits := if d.state = .modemIdle then d.putBits else none
        dp := none
        count := 0
        started := d.started && !device.stop
        hook := if device.hook then .on else d.hook
        process := none
        cid := false
        rdObj := false
        voiceObj := false
        faxObj := false
        fd := if d.started && device.stop then -1 else d.fd
        connects := d.connects + (if d.resultCode = .connect then 1 else 0)
        session := false
        stops := d.stops + 1
        faults := if d.resultCode = .connect ∧ d.printsModulation = true then
          d.faults ++ [.modulation] else d.faults } := by
  have driver : driverStop { d with process := none } device =
      { d with
        process := none
        started := d.started && !device.stop
        fd := if d.started && device.stop then -1 else d.fd } := by
    unfold driverStop
    cases d.started <;> cases device.stop <;> rfl
  have hooked : ∀ d' : Desk, d'.setHook device .on =
      { d' with hook := if device.hook then .on else d'.hook } := by
    intro d'
    unfold setHook
    cases device.hook <;> rfl
  have reported : ∀ d' : Desk, d'.dp = none → d'.reportPending =
      { d' with
        resultCode := .ok
        connects := d'.connects + (if d'.resultCode = .connect then 1 else 0)
        faults := if d'.resultCode = .connect ∧ d'.printsModulation = true then
          d'.faults ++ [.modulation] else d'.faults } := by
    intro d' gone
    unfold reportPending report
    by_cases linked : d'.resultCode = .connect
    · simp [linked, connect, gone]
    · simp [linked]
  unfold stop
  simp only
  rw [driver, hooked, setState_idle, reported _ rfl]
  simp only [deleteObjects, endSession, ite_self]
  rfl

theorem Ended.stop : Ended d (d.stop device) := by
  rw [stop_eq]
  exact
    { state := rfl
      command := rfl
      resultCode := rfl
      dp := rfl
      process := rfl
      cid := rfl
      rdObj := rfl
      voiceObj := rfl
      faxObj := rfl
      getBits := by
        intro none
        simp only
        split
        · exact none (by assumption)
        · rfl
      putBits := by
        intro none
        simp only
        split
        · exact none (by assumption)
        · rfl
      bitTimer := rfl
      bitTimerFunc := rfl
      sampleTimer := rfl
      sampleTimerFunc := rfl
      armedAt := rfl
      fired := rfl
      mode := rfl
      session := rfl
      starts := Nat.le_refl _
      connects := by
        intro other
        simp [other]
      faults := by
        intro other
        simp [other]
      opens := Nat.le_refl _
      device := by
        apply Or.inl
        intro untouched
        simp [untouched.1] }

theorem started_stop : (d.stop device).started = (d.started && !device.stop) := by
  rw [stop_eq]

theorem starts_stop : (d.stop device).starts = d.starts := by rw [stop_eq]

end Stop

/-! ### Starting -/

/-- Whether `modem_start` succeeds with these answers. -/
def canStart (d : Desk) (device : Device) : Bool :=
  (!d.started || device.stop) && (decide (d.hook = .off) || device.hook) && device.runtime &&
    (device.comp || !d.compresses) && device.start

/-- The desk of a start that fails agrees with the one before, as far as an end of the
session leaves it. -/
structure Failing (d e : Desk) : Prop where
  busy : e.state ≠ .modemIdle
  resultCode : e.resultCode ≠ .connect
  bitTimer : e.bitTimer = d.bitTimer
  bitTimerFunc : e.bitTimerFunc = d.bitTimerFunc
  sampleTimer : e.sampleTimer = d.sampleTimer
  sampleTimerFunc : e.sampleTimerFunc = d.sampleTimerFunc
  armedAt : e.armedAt = d.armedAt
  fired : e.fired = d.fired
  mode : e.mode = d.mode
  starts : e.starts = d.starts
  connects : e.connects = d.connects
  faults : e.faults = d.faults
  started : e.started = false
  opens : d.opens ≤ e.opens
  device : (e.opens = d.opens ∧ e.fd = d.fd) ∨ 0 < e.opens

theorem Failing.ended {d e : Desk} (failing : Failing d e) (device : Device) :
    Ended d (e.stop device) ∧ (e.stop device).started = false := by
  have ended := Ended.stop e device
  constructor
  · exact
      { ended with
        getBits := fun _ => ended.getBits fun idle => absurd idle failing.busy
        putBits := fun _ => ended.putBits fun idle => absurd idle failing.busy
        bitTimer := ended.bitTimer.trans failing.bitTimer
        bitTimerFunc := ended.bitTimerFunc.trans failing.bitTimerFunc
        sampleTimer := ended.sampleTimer.trans failing.sampleTimer
        sampleTimerFunc := ended.sampleTimerFunc.trans failing.sampleTimerFunc
        armedAt := ended.armedAt.trans failing.armedAt
        fired := ended.fired.trans failing.fired
        mode := ended.mode.trans failing.mode
        starts := failing.starts ▸ ended.starts
        connects := fun _ => (ended.connects failing.resultCode).trans failing.connects
        faults := fun _ => (ended.faults failing.resultCode).trans failing.faults
        opens := failing.opens.trans ended.opens
        device := by
          have opens : (e.stop device).opens = e.opens := by rw [stop_eq]
          rcases failing.device with ⟨same, descriptor⟩ | opened
          · rcases ended.device with kept | opened
            · apply Or.inl
              intro untouched
              rw [← descriptor]
              exact kept ⟨failing.started, same.trans untouched.2⟩
            · exact Or.inr opened
          · exact Or.inr (opens ▸ opened) }
  · rw [started_stop, failing.started]
    rfl

/-- `e` is `d` in the middle of `modem_start`. -/
structure Midway (d e : Desk) : Prop where
  state : e.state = .dpEstab
  resultCode : e.resultCode = .ok
  bitTimer : e.bitTimer = d.bitTimer
  bitTimerFunc : e.bitTimerFunc = d.bitTimerFunc
  sampleTimer : e.sampleTimer = d.sampleTimer
  sampleTimerFunc : e.sampleTimerFunc = d.sampleTimerFunc
  armedAt : e.armedAt = d.armedAt
  fired : e.fired = d.fired
  mode : e.mode = d.mode
  starts : e.starts = d.starts
  connects : e.connects = d.connects
  faults : e.faults = d.faults
  started : e.started = false
  opens : e.opens = d.opens
  fd : e.fd = d.fd
  stops : e.stops = d.stops
  process : e.process = d.process
  rdObj : e.rdObj = d.rdObj
  compresses : e.compresses = d.compresses

section Midway

variable {d e : Desk} (midway : Midway d e) (device : Device)
include midway

theorem Midway.failing : Failing d { e with resultCode := .nocarrier } :=
  { midway with
    busy := by
      simp only
      rw [midway.state]
      decide
    resultCode := by simp
    opens := Nat.le_of_eq midway.opens.symm
    device := Or.inl ⟨midway.opens, midway.fd⟩ }

theorem Midway.refused (refuses : device.start = false) :
    Failing d { e.clearRings.doStart device with resultCode := .nocarrier } :=
  { midway with
    busy := by
      change e.state ≠ _
      rw [midway.state]
      decide
    resultCode := by simp
    started := refuses
    opens := midway.opens ▸ Nat.le_succ _
    device := Or.inr (Nat.succ_pos _) }

theorem Midway.opened (obeys : device.start = true) : Opened d (e.clearRings.doStart device) :=
  { midway with
    session := obeys
    started := obeys
    fd := by
      simp only [doStart]
      rw [obeys]
      exact Int.natCast_nonneg device.fd
    opens := Nat.succ_pos _
    starts := midway.starts ▸ Nat.le_refl _
    connects := fun _ => midway.connects
    faults := fun _ => midway.faults
    stops := fun _ => midway.stops
    process := Or.inl midway.process
    rdObj := fun detector => midway.rdObj ▸ detector }

end Midway

theorem startObjects_cases (d : Desk) (device : Device) :
    ((device.runtime && (device.comp || !d.compresses) && device.start) = true ∧
        d.startObjects device = (d.clearRings.doStart device, true)) ∨
      ((device.runtime && (device.comp || !d.compresses) && device.start) = false ∧
        ∃ e, (e = d ∨ (device.start = false ∧ e = d.clearRings.doStart device)) ∧
          d.startObjects device = (e.startError device, false)) := by
  unfold startObjects
  by_cases lacks : (!device.runtime || (d.compresses && !device.comp)) = true
  · rw [if_pos lacks]
    apply Or.inr
    refine ⟨?_, d, Or.inl rfl, rfl⟩
    revert lacks
    cases device.runtime <;> cases device.comp <;> cases d.compresses <;> simp
  · rw [if_neg lacks]
    have built : (device.runtime && (device.comp || !d.compresses)) = true := by
      revert lacks
      cases device.runtime <;> cases device.comp <;> cases d.compresses <;> simp
    rw [built]
    cases opens : device.start with
    | true => exact Or.inl ⟨rfl, rfl⟩
    | false => exact Or.inr ⟨rfl, _, Or.inr ⟨rfl, rfl⟩, rfl⟩

/-- `modem_start` once the device is stopped: it opens a session or fails. -/
theorem startStopped_cases {d : Desk} (idle : d.started = false) (device : Device) :
    (d.canStart device = true ∧ (d.startStopped device).2 = true ∧
        Opened d (d.startStopped device).1) ∨
      (d.canStart device = false ∧ (d.startStopped device).2 = false ∧
        ∃ e, Failing d e ∧ (d.startStopped device).1 = e.stop device) := by
  have can : d.canStart device = ((decide (d.hook = .off) || device.hook) &&
      (device.runtime && (device.comp || !d.compresses) && device.start)) := by
    simp [canStart, idle, Bool.and_assoc]
  rw [can]
  unfold startStopped
  have begun : Midway d (setState { d with resultCode := .ok } .dpEstab) ∧
      (setState { d with resultCode := .ok } .dpEstab).hook = d.hook := by
    rcases setState_frame { d with resultCode := .ok } .dpEstab with
      ⟨command, getBits, putBits, same⟩
    rw [same]
    exact ⟨⟨rfl, rfl, rfl, rfl, rfl, rfl, rfl, rfl, rfl, rfl, rfl, rfl, idle, rfl, rfl, rfl, rfl,
      rfl, rfl⟩, rfl⟩
  simp only
  generalize setState { d with resultCode := .ok } .dpEstab = e at begun
  rcases begun with ⟨midway, hook⟩
  rw [hook]
  by_cases off : d.hook = .off ∨ device.hook = true
  · have hooked : (decide (d.hook = .off) || device.hook) = true := by simpa using off
    have lifted : Midway d { e with hook := .off, command := false } := { midway with }
    rw [if_pos off, hooked, Bool.true_and, ← lifted.compresses]
    rcases startObjects_cases { e with hook := .off, command := false } device with
      ⟨obeys, opened⟩ | ⟨refuses, f, between, failed⟩
    · rw [opened]
      apply Or.inl
      refine ⟨obeys, rfl, lifted.opened device ?_⟩
      rw [Bool.and_eq_true] at obeys
      exact obeys.2
    · rw [failed]
      apply Or.inr
      refine ⟨refuses, rfl, _, ?_, rfl⟩
      rcases between with rfl | ⟨closed, rfl⟩
      · exact lifted.failing
      · exact lifted.refused device closed
  · have hooked : (decide (d.hook = .off) || device.hook) = false := by simpa using off
    rw [if_neg off, hooked, Bool.false_and]
    apply Or.inr
    exact ⟨rfl, rfl, _, midway.failing, rfl⟩

theorem Ended.trans {d d₁ d' : Desk} (first : Ended d d₁) (second : Ended d₁ d')
    (opens : d₁.opens = d.opens) (started : d₁.started = false) : Ended d d' := by
  have silent : d₁.resultCode ≠ .connect := by
    rw [first.resultCode]
    decide
  exact
    { second with
      getBits := fun none => second.getBits fun _ => first.getBits none
      putBits := fun none => second.putBits fun _ => first.putBits none
      bitTimer := second.bitTimer.trans first.bitTimer
      bitTimerFunc := second.bitTimerFunc.trans first.bitTimerFunc
      sampleTimer := second.sampleTimer.trans first.sampleTimer
      sampleTimerFunc := second.sampleTimerFunc.trans first.sampleTimerFunc
      armedAt := second.armedAt.trans first.armedAt
      fired := second.fired.trans first.fired
      mode := second.mode.trans first.mode
      starts := first.starts.trans second.starts
      connects := fun other => (second.connects silent).trans (first.connects other)
      faults := fun other => (second.faults silent).trans (first.faults other)
      opens := first.opens.trans second.opens
      device := by
        rcases second.device with kept | opened
        · rcases first.device with same | opened
          · apply Or.inl
            intro untouched
            exact (kept ⟨started, opens.trans untouched.2⟩).trans (same untouched)
          · apply Or.inl
            intro untouched
            rw [opens, untouched.2] at opened
            exact absurd opened (Nat.lt_irrefl 0)
        · exact Or.inr opened }

theorem Ended.opened {d d₁ d' : Desk} (first : Ended d d₁) (second : Opened d₁ d')
    (running : d.started = true) : Opened d d' := by
  have silent : d₁.resultCode ≠ .connect := by
    rw [first.resultCode]
    decide
  exact
    { second with
      bitTimer := second.bitTimer.trans first.bitTimer
      bitTimerFunc := second.bitTimerFunc.trans first.bitTimerFunc
      sampleTimer := second.sampleTimer.trans first.sampleTimer
      sampleTimerFunc := second.sampleTimerFunc.trans first.sampleTimerFunc
      armedAt := second.armedAt.trans first.armedAt
      fired := second.fired.trans first.fired
      mode := second.mode.trans first.mode
      starts := first.starts.trans second.starts
      connects := fun other => (second.connects silent).trans (first.connects other)
      faults := fun other => (second.faults silent).trans (first.faults other)
      stops := by
        intro closed
        rw [running] at closed
        cases closed
      process := by
        apply Or.inr
        rcases second.process with same | gone
        · exact same.trans first.process
        · exact gone
      rdObj := by
        intro detector
        have kept := second.rdObj detector
        rw [first.rdObj] at kept
        cases kept }

@[simp]
theorem canStart_stop (d : Desk) (device : Device) :
    (d.stop device).canStart device = d.canStart device := by
  have registers : (d.stop device).compresses = d.compresses := by
    rw [stop_eq]
    rfl
  have hook : (d.stop device).hook = if device.hook then .on else d.hook := by rw [stop_eq]
  unfold canStart
  rw [started_stop, registers, hook]
  cases d.started <;> cases device.stop <;> cases device.hook <;> simp

/-- `modem_start`: it opens a session, or ends as a stop does. -/
theorem start_cases (d : Desk) (device : Device) :
    (d.canStart device = true ∧ (d.start device).2 = true ∧ Opened d (d.start device).1) ∨
      (d.canStart device = false ∧ (d.start device).2 = false ∧ Ended d (d.start device).1 ∧
        ((d.start device).1.started = true → device.stop = false)) := by
  have counted : d.canStart device = canStart { d with starts := d.starts + 1 } device := rfl
  have later : ∀ {d' : Desk}, Ended { d with starts := d.starts + 1 } d' → Ended d d' :=
    fun ended => { ended with starts := Nat.le_of_succ_le ended.starts }
  have opens : ∀ {d' : Desk}, Opened { d with starts := d.starts + 1 } d' → Opened d d' :=
    fun opened => { opened with starts := Nat.le_of_succ_le opened.starts }
  unfold start
  simp only
  rw [counted]
  have asBefore : d.started = Desk.started { d with starts := d.starts + 1 } := rfl
  rw [asBefore]
  generalize { d with starts := d.starts + 1 } = e at later opens
  cases running : e.started with
  | false =>
      simp only [Bool.false_eq_true, if_false]
      rcases startStopped_cases running device with
        ⟨can, done, opened⟩ | ⟨cannot, failed, f, failing, same⟩
      · exact Or.inl ⟨can, done, opens opened⟩
      · apply Or.inr
        rw [same]
        have ended := failing.ended device
        refine ⟨cannot, failed, later ended.1, ?_⟩
        intro started
        rw [ended.2] at started
        cases started
  | true =>
      simp only [if_true]
      have first := Ended.stop e device
      cases stops : device.stop with
      | false =>
          have still : (e.stop device).started = true := by
            rw [started_stop, running, stops]
            rfl
          rw [if_pos still]
          apply Or.inr
          refine ⟨?_, rfl, later first, fun _ => rfl⟩
          simp [canStart, running, stops]
      | true =>
          have closed : (e.stop device).started = false := by
            rw [started_stop, running, stops]
            rfl
          rw [if_neg (by rw [closed]; decide), ← canStart_stop e device]
          rcases startStopped_cases closed device with
            ⟨can, done, opened⟩ | ⟨cannot, failed, f, failing, same⟩
          · exact Or.inl ⟨can, done, opens (first.opened opened running)⟩
          · apply Or.inr
            rw [same]
            have ended := failing.ended device
            refine ⟨cannot, failed, later (first.trans ended.1 (by rw [stop_eq]) closed), ?_⟩
            intro started
            rw [ended.2] at started
            cases started

theorem starts_startStopped (d : Desk) (device : Device) :
    (d.startStopped device).1.starts = d.starts := by
  have begun : (setState { d with resultCode := .ok } .dpEstab).starts = d.starts := by
    rcases setState_frame { d with resultCode := .ok } .dpEstab with ⟨_, _, _, same⟩
    rw [same]
  unfold startStopped startObjects startError
  simp only
  split
  · split
    · rw [starts_stop]
      exact begun
    · split
      · exact begun
      · rw [starts_stop]
        exact begun
  · rw [starts_stop]
    exact begun

theorem starts_start (d : Desk) (device : Device) :
    (d.start device).1.starts = d.starts + 1 := by
  unfold start
  simp only
  split
  · split
    · exact starts_stop _ device
    · rw [starts_startStopped, starts_stop]
  · exact starts_startStopped _ device

/-! ### Hanging up -/

/-- `modem_hup`: nothing happens, a release is given up, or the call ends in 48 samples. -/
theorem hup_cases (d : Desk) (release : Bool) :
    ((d.state = .modemIdle ∨ d.state = .dpDisc) ∧ d.hup release = d) ∨
      (d.state = .ecDisc ∧
        d.hup release = { d with state := .dpDisc, getBits := none, putBits := none }) ∨
      (d.state ≠ .modemIdle ∧ d.state.disc = false ∧
        ∃ state getBits putBits bitTimer bitTimerFunc, state.disc = true ∧
          ((d.bitTimer ≠ 0 → d.bitTimerFunc ≠ none) → bitTimer ≠ 0 → bitTimerFunc ≠ none) ∧
          d.hup release =
            { d with
              state := state
              getBits := getBits
              putBits := putBits
              bitTimer := bitTimer
              bitTimerFunc := bitTimerFunc
              resultCode := if d.resultCode = .ok then .nocarrier else d.resultCode
              sampleTimerFunc := some .runModemStop
              sampleTimer := d.count + 48
              armedAt := d.stops }) := by
  have pumpOff : d.state ≠ .dpDisc → d.hangUp .dpDisc =
      { d with
        state := .dpDisc
        getBits := none
        putBits := none
        resultCode := if d.resultCode = .ok then .nocarrier else d.resultCode
        sampleTimerFunc := some .runModemStop
        sampleTimer := d.count + 48
        armedAt := d.stops } := by
    intro other
    unfold hangUp setState
    rw [if_neg other]
  unfold hup
  cases state : d.state with
  | modemIdle => exact Or.inl ⟨Or.inl rfl, rfl⟩
  | dpDisc => exact Or.inl ⟨Or.inr rfl, rfl⟩
  | ecDisc =>
      apply Or.inr
      apply Or.inl
      refine ⟨rfl, ?_⟩
      unfold setState
      rw [state]
      rfl
  | dpEstab =>
      apply Or.inr
      apply Or.inr
      have other : d.state ≠ .dpDisc := by simp [state]
      exact ⟨by decide, rfl, .dpDisc, none, none, _, _, rfl, id, pumpOff other⟩
  | ecEstab | modemOnline | commandOnline =>
      apply Or.inr
      apply Or.inr
      refine ⟨by decide, rfl, ?_⟩
      have other : d.state ≠ .dpDisc := by simp [state]
      simp only
      split
      · refine ⟨.ecDisc, d.getBits, d.putBits, t401TimeoutBits, some .t401Timeout, rfl, ?_, ?_⟩
        · exact fun _ _ => by simp
        · have live : d.ecStop.state ≠ .ecDisc := by simp [ecStop, state]
          unfold hangUp setState
          rw [if_neg live]
          rfl
      · exact ⟨.dpDisc, none, none, _, _, rfl, id, pumpOff other⟩

theorem link_eq (d : Desk) :
    ∃ command getBits putBits, d.link =
      { d with
        state := .modemOnline
        command := command
        getBits := getBits
        putBits := putBits
        connects := d.connects + 1
        faults :=
          if d.printsModulation && d.dp.isNone then d.faults ++ [.modulation] else d.faults } := by
  rcases setState_frame d .modemOnline with ⟨command, getBits, putBits, same⟩
  refine ⟨command, getBits, putBits, ?_⟩
  unfold link
  rw [same]
  rfl

/-! ### Calling and answering -/

section Calls

variable (d : Desk) (device : Device)

theorem stopStarted_cases :
    (d.started = false ∧ d.stopStarted device = d) ∨
      (d.started = true ∧ d.stopStarted device = d.stop device) := by
  unfold stopStarted
  cases d.started with
  | false => exact Or.inl ⟨rfl, rfl⟩
  | true => exact Or.inr ⟨rfl, rfl⟩

@[simp]
theorem canStart_stopStarted :
    (d.stopStarted device).canStart device = d.canStart device := by
  unfold stopStarted
  split
  · exact canStart_stop d device
  · rfl

/-- `modem_answer`: it is refused, or it arms the timer and starts. -/
theorem answer_cases :
    (d.dp ≠ none ∧ (d.answer device).1 = d) ∨
      (d.dp = none ∧ ∃ due, due ≠ 0 ∧ (d.answer device).1 =
        (((d.stopStarted device).arm .doModemChangeDp due).start device).1) := by
  unfold answer
  split
  · exact Or.inl ⟨by assumption, rfl⟩
  · rename_i free
    apply Or.inr
    refine ⟨not_not.mp free, _, ?_, rfl⟩
    split
    · rename_i delay
      exact Nat.mul_ne_zero delay (by decide)
    · decide

/-- `modem_dial`: it is refused, no pump can be made, or it starts with a pump. -/
theorem dial_cases :
    (d.dp ≠ none ∧ d.dial device = d) ∨
      (d.dp = none ∧ d.dial device = d.stopStarted device) ∨
      (d.dp = none ∧ d.dial device = (start
        { d.stopStarted device with dp := some .callprog, process := some .dp } device).1) := by
  unfold dial dialStart
  by_cases free : d.dp = none
  · rw [if_neg (not_not.mpr free)]
    cases device.dp with
    | none => exact Or.inr (Or.inl ⟨free, rfl⟩)
    | some id => exact Or.inr (Or.inr ⟨free, rfl⟩)
  · rw [if_pos free]
    exact Or.inl ⟨free, rfl⟩

end Calls

end DModem.Desk
