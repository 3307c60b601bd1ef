/-
The sample timer and the sessions.

`modem_stop` resets the sample count but not the one sample timer, so that a session can
end with a timer that is still armed.  The stop that a hang-up schedules, caller ID and
voice clear it; the paths that do not are the conditions here.
-/

import DModem.Modem.StepRule

namespace DModem

namespace Desk

structure InSession (d : Desk) : Prop where
  busy : d.state ≠ .modemIdle → d.session = true
  pump : d.dp ≠ none → d.session = true
  fax : d.process = some .fax → d.session = true
  line : d.started = true → d.rdObj = true → d.session = true
  live : d.session = true → d.started = true
  fired : ∀ pair ∈ d.fired, pair.1 = pair.2

structure Timed (d : Desk) : Prop extends InSession d where
  clear : d.session = false → d.sampleTimer = 0
  armed : d.sampleTimer ≠ 0 → d.armedAt = d.stops
  func : d.sampleTimer = 0 → d.sampleTimerFunc = none

section Timed

variable {d d' : Desk}

theorem InSession.closed (kept : d.InSession) (gone : d.session = false) :
    d.state = .modemIdle ∧ d.dp = none := by
  constructor
  · by_contra busy
    exact absurd (kept.busy busy) (by simp [gone])
  · by_contra pump
    exact absurd (kept.pump pump) (by simp [gone])

theorem InSession.stopped (kept : d.InSession) (closed : d.started = false) :
    d.session = false := by
  cases open_ : d.session with
  | false => rfl
  | true =>
      have started := kept.live open_
      rw [closed] at started
      cases started

theorem InSession.clearTimer (kept : d.InSession) : d.clearTimer.Timed :=
  { kept with
    clear := fun _ => rfl
    armed := fun set => absurd rfl set
    func := fun _ => rfl }

theorem inSession_ended (fired : ∀ pair ∈ d.fired, pair.1 = pair.2) (ended : Ended d d') :
    d'.InSession :=
  { busy := fun busy => absurd ended.state busy
    pump := fun pump => absurd ended.dp pump
    fax := by
      intro fax
      rw [ended.process] at fax
      cases fax
    line := by
      intro _ detector
      rw [ended.rdObj] at detector
      cases detector
    live := by
      intro open_
      rw [ended.session] at open_
      cases open_
    fired := by
      rw [ended.fired]
      exact fired }

theorem timed_ended (fired : ∀ pair ∈ d.fired, pair.1 = pair.2) (off : d.sampleTimer = 0)
    (none : d.sampleTimerFunc = none) (ended : Ended d d') : d'.Timed :=
  { inSession_ended fired ended with
    clear := fun _ => ended.sampleTimer.trans off
    armed := fun set => absurd (ended.sampleTimer.trans off) set
    func := fun _ => ended.sampleTimerFunc.trans none }

theorem timed_opened (fired : ∀ pair ∈ d.fired, pair.1 = pair.2)
    (armed : d.sampleTimer ≠ 0 → d.started = false ∧ d.armedAt = d.stops)
    (func : d.sampleTimer = 0 → d.sampleTimerFunc = none) (opened : Opened d d') : d'.Timed :=
  { busy := fun _ => opened.session
    pump := fun _ => opened.session
    fax := fun _ => opened.session
    line := fun _ _ => opened.session
    live := fun _ => opened.started
    fired := by
      rw [opened.fired]
      exact fired
    clear := by
      intro gone
      rw [opened.session] at gone
      cases gone
    armed := by
      intro set
      rw [opened.sampleTimer] at set
      rw [opened.armedAt, opened.stops (armed set).1]
      exact (armed set).2
    func := by
      intro off
      rw [opened.sampleTimer] at off
      rw [opened.sampleTimerFunc]
      exact func off }

theorem Timed.stop (kept : d.Timed) (off : d.sampleTimer = 0) (device : Device) :
    (d.stop device).Timed :=
  timed_ended kept.fired off (kept.func off) (Ended.stop d device)

theorem Timed.hup (kept : d.Timed) (release : Bool) : (d.hup release).Timed := by
  rcases hup_cases d release with
    ⟨_, same⟩ | ⟨disc, same⟩ | ⟨busy, _, _, _, _, _, _, _, _, same⟩
  · rw [same]
    exact kept
  · rw [same]
    exact
      { kept with
        busy := by
          intro _
          apply kept.busy
          rw [disc]
          decide }
  · have session := kept.busy busy
    rw [same]
    exact
      { kept with
        busy := fun _ => session
        clear := by
          intro gone
          have running : d.session = false := gone
          rw [session] at running
          cases running
        armed := fun _ => rfl
        func := by
          intro off
          cases off }

theorem Timed.fail (kept : d.Timed) (code : ModemResult) (release : Bool) :
    (d.fail code release).Timed :=
  Timed.hup (d := { d with resultCode := code }) { kept with } release

theorem Timed.setState (kept : d.Timed) (session : d.session = true) (newState : ModemState) :
    (d.setState newState).Timed := by
  rcases setState_frame d newState with ⟨_, _, _, same⟩
  rw [same]
  exact { kept with busy := fun _ => session }

theorem Timed.link (kept : d.Timed) (session : d.session = true) : d.link.Timed := by
  rcases link_eq d with ⟨_, _, _, same⟩
  rw [same]
  exact { kept with busy := fun _ => session }

variable (device : Device)

theorem Timed.setHook (kept : d.Timed) (hookState : Hook) : (d.setHook device hookState).Timed := by
  unfold Desk.setHook
  split
  · exact { kept with }
  · exact kept

theorem Timed.stopStarted (kept : d.Timed) (off : d.started = true → d.sampleTimer = 0) :
    (d.stopStarted device).Timed ∧ (d.stopStarted device).sampleTimer = 0 := by
  rcases stopStarted_cases d device with ⟨closed, same⟩ | ⟨running, same⟩
  · rw [same]
    exact ⟨kept, kept.clear (kept.stopped closed)⟩
  · rw [same]
    refine ⟨kept.stop (off running) device, ?_⟩
    rw [stop_eq]
    exact off running

theorem Timed.answer (kept : d.Timed)
    (can : d.dp = none → d.canStart device = true) : (d.answer device).1.Timed := by
  rcases answer_cases d device with ⟨_, same⟩ | ⟨free, due, set, same⟩
  · rw [same]
    exact kept
  · rw [same]
    have able := can free
    have closed : (d.stopStarted device).started = false ∧
        ∀ pair ∈ (d.stopStarted device).fired, pair.1 = pair.2 := by
      rcases stopStarted_cases d device with ⟨closed, alike⟩ | ⟨running, alike⟩
      · rw [alike]
        exact ⟨closed, kept.fired⟩
      · rw [alike, stop_eq]
        refine ⟨?_, kept.fired⟩
        simp [canStart, running] at able
        simp [able]
    rw [← canStart_stopStarted] at able
    generalize d.stopStarted device = e at closed able
    have armedCan : (e.arm .doModemChangeDp due).canStart device = true := able
    rcases start_cases (e.arm .doModemChangeDp due) device with
      ⟨_, _, opened⟩ | ⟨cannot, _, _, _⟩
    · exact timed_opened (d := e.arm .doModemChangeDp due) closed.2
        (fun _ => ⟨closed.1, rfl⟩) (fun off => absurd off set) opened
    · rw [armedCan] at cannot
      cases cannot

theorem Timed.dial (kept : d.Timed)
    (off : d.dp = none → d.started = true → d.sampleTimer = 0) : (d.dial device).Timed := by
  rcases dial_cases d device with ⟨_, same⟩ | ⟨free, same⟩ | ⟨free, same⟩
  · rw [same]
    exact kept
  · rw [same]
    exact (kept.stopStarted device (off free)).1
  · rw [same]
    have stopped := kept.stopStarted device (off free)
    generalize d.stopStarted device = e at stopped
    have none := stopped.1.func stopped.2
    rcases start_cases { e with dp := some .callprog, process := some .dp } device with
      ⟨_, _, opened⟩ | ⟨_, _, ended, _⟩
    · exact timed_opened (d := { e with dp := some .callprog, process := some .dp })
        stopped.1.fired (fun set => absurd stopped.2 set) (fun _ => none) opened
    · exact timed_ended (d := { e with dp := some .callprog, process := some .dp })
        stopped.1.fired stopped.2 none ended

theorem Timed.voiceStop (kept : d.Timed) : (d.voiceStop device).Timed := by
  unfold Desk.voiceStop
  apply Timed.setHook
  apply timed_ended _ _ _ (Ended.stop _ device)
  · exact kept.fired
  · rfl
  · rfl

theorem Timed.setMode (kept : d.Timed) (mode : ModemMode) : (d.setMode device mode).Timed := by
  unfold Desk.setMode
  split
  · exact kept
  · split
    · exact { kept.voiceStop device with }
    · exact { kept with }

theorem Timed.doStart (kept : d.Timed) (gone : d.session = false) (process : Process)
    (other : process ≠ .fax) (rdObj : Bool) (hookState : Hook) :
    Timed (Desk.doStart
      (Desk.setHook { d with process := some process, rdObj := rdObj } device hookState) device) := by
  have free := kept.closed gone
  have begun : Timed (Desk.doStart { d with process := some process, rdObj := rdObj } device) :=
    { kept with
      busy := fun busy => absurd free.1 busy
      pump := fun pump => absurd free.2 pump
      fax := by
        intro fax
        exact absurd (Option.some.inj fax) other
      line := fun started _ => started
      live := id
      clear := fun _ => kept.clear gone }
  unfold Desk.setHook
  split
  · exact { begun with }
  · exact begun

theorem Timed.voiceStart (kept : d.Timed)
    (off : d.started = true → d.rdObj = true → device.voice = false → d.sampleTimer = 0) :
    (d.voiceStart device).Timed := by
  unfold Desk.voiceStart
  split
  · exact kept
  · split
    · exact kept
    · rename_i line
      have detector : d.started = true → d.rdObj = true := by
        intro running
        simpa [running] using line
      have stopped : (d.stopStarted device).session = false ∧
          (d.stopStarted device).InSession := by
        rcases stopStarted_cases d device with ⟨closed, same⟩ | ⟨running, same⟩
        · rw [same]
          exact ⟨kept.stopped closed, kept.toInSession⟩
        · rw [same]
          have ended := Ended.stop d device
          exact ⟨ended.session, inSession_ended kept.fired ended⟩
      simp only
      split
      · rename_i none
        have voiceless : device.voice = false := by simpa using none
        apply And.left
        exact kept.stopStarted device fun running => off running (detector running) voiceless
      · generalize d.stopStarted device = e at stopped
        have bare : Timed (clearTimer { e with voiceObj := true }) :=
          InSession.clearTimer { stopped.2 with }
        exact bare.doStart device stopped.1 .voice (by decide) e.rdObj .off

theorem Timed.cidStart (kept : d.Timed) (timeout : Nat) (long : 0 < modemRate * timeout / modemHz)
    (starts : d.started = true ∨ device.cid = false ∨ device.start = true) :
    (d.cidStart device timeout).Timed := by
  have due : d.count + modemRate * timeout / modemHz ≠ 0 :=
    Nat.ne_of_gt (Nat.add_pos_right _ long)
  unfold Desk.cidStart
  split
  · exact kept
  · split
    · exact { kept with }
    · rename_i made
      split
      · rename_i line
        rw [Bool.and_eq_true] at line
        have session := kept.line line.1 line.2
        exact
          { kept with
            clear := by
              intro gone
              have running : d.session = false := gone
              rw [session] at running
              cases running
            armed := fun _ => rfl
            func := fun off => absurd off due }
      · rename_i quiet between
        have closed : d.started = false := by
          cases running : d.started with
          | false => rfl
          | true => simp [running] at quiet between; simp [quiet] at between
        have obeys : device.start = true := by
          rcases starts with running | none | obeys
          · rw [closed] at running
            cases running
          · simp [none] at made
          · exact obeys
        have begun : Timed (Desk.doStart { d.armCid timeout with process := some .cid } device) :=
          { busy := fun _ => obeys
            pump := fun _ => obeys
            fax := fun _ => obeys
            line := fun _ _ => obeys
            live := id
            fired := kept.fired
            clear := by
              intro gone
              have running : device.start = false := gone
              rw [obeys] at running
              cases running
            armed := fun _ => rfl
            func := fun off => absurd off due }
        unfold Desk.setHook
        split
        · exact { begun with }
        · exact begun

theorem Timed.ringDetectorStart (kept : d.Timed) (closed : d.started = false) :
    (d.ringDetectorStart device).Timed := by
  unfold Desk.ringDetectorStart
  split
  · exact kept
  · exact kept.doStart device (kept.stopped closed) .ringDetector (by decide) device.rd .snooping

theorem InSession.changeDp (kept : d.InSession) (session : d.session = true) (ec : Bool)
    (hung : (d.hup ec).InSession) : (d.changeDp device ec).InSession := by
  unfold Desk.changeDp
  split
  · unfold Desk.faxStart
    split
    · exact
        { kept with
          pump := fun pump => absurd rfl pump
          fax := fun _ => session }
    · exact { kept with pump := fun pump => absurd rfl pump }
  · cases device.dp with
    | none => exact hung
    | some id =>
        exact
          { kept with
            pump := fun _ => session
            fax := fun _ => session }

theorem Timed.changeDp (kept : d.Timed) (session : d.session = true) (ec : Bool) :
    (d.changeDp device ec).Timed := by
  have inside := kept.toInSession.changeDp device session ec (kept.hup ec).toInSession
  revert inside
  unfold Desk.changeDp
  split
  · unfold Desk.faxStart
    split
    · intro inside
      exact InSession.clearTimer inside
    · intro inside
      exact { kept with toInSession := inside }
  · cases device.dp with
    | none =>
        intro _
        exact kept.hup ec
    | some id =>
        intro inside
        exact { kept with toInSession := inside }

theorem inSession_start (fired : ∀ pair ∈ d.fired, pair.1 = pair.2) :
    (d.start device).1.InSession := by
  rcases start_cases d device with ⟨_, _, opened⟩ | ⟨_, _, ended, _⟩
  · exact
      { busy := fun _ => opened.session
        pump := fun _ => opened.session
        fax := fun _ => opened.session
        line := fun _ _ => opened.session
        live := fun _ => opened.started
        fired := by
          rw [opened.fired]
          exact fired }
  · exact inSession_ended fired ended

theorem InSession.answer (kept : d.InSession) : (d.answer device).1.InSession := by
  rcases answer_cases d device with ⟨_, same⟩ | ⟨_, due, _, same⟩
  · rw [same]
    exact kept
  · rw [same]
    apply inSession_start
    change ∀ pair ∈ (d.stopStarted device).fired, pair.1 = pair.2
    rcases stopStarted_cases d device with ⟨_, alike⟩ | ⟨_, alike⟩
    · rw [alike]
      exact kept.fired
    · rw [alike, stop_eq]
      exact kept.fired

@[simp]
theorem canStart_setRings (d : Desk) (rings : UInt8) :
    (d.setRings rings).canStart device = d.canStart device := by
  have registers : (d.setRings rings).compresses = d.compresses := by
    simp [compresses, setRings, sregRingCounter, sregEc, sregComp]
  unfold canStart
  rw [registers]
  rfl

theorem Timed.answerRings (kept : d.Timed)
    (can : d.ringsEnough = true → d.dp = none → d.canStart device = true) :
    (d.answerRings device).Timed := by
  unfold Desk.answerRings
  split
  · rename_i enough
    apply Timed.answer (d := d.setRings 0) device { kept with }
    intro free
    rw [canStart_setRings]
    exact can enough free
  · exact kept

theorem InSession.answerRings (kept : d.InSession) : (d.answerRings device).InSession := by
  unfold Desk.answerRings
  split
  · exact InSession.answer (d := d.setRings 0) device { kept with }
  · exact kept

theorem Timed.cidStop (kept : d.Timed)
    (can : d.ringsEnough = true → (d.rdObj = true → d.dp = none) → d.canStart device = true) :
    (d.cidStop device).Timed := by
  unfold Desk.cidStop
  have cleared := kept.toInSession.clearTimer
  simp only
  split
  · apply Timed.answerRings (d := { d.clearTimer with cid := false }) device { cleared with }
    intro enough free
    exact can enough fun _ => free
  · rename_i bare
    apply Timed.answerRings
    · apply timed_ended _ _ _ (Ended.stop _ device)
      · exact kept.fired
      · rfl
      · rfl
    · intro enough _
      rw [canStart_stop]
      have registers : (Desk.stop { d.clearTimer with process := none } device).sregs = d.sregs := by
        rw [stop_eq]
        rfl
      unfold ringsEnough at enough
      rw [registers] at enough
      exact can enough fun detector => absurd detector bare

theorem InSession.cidStop (kept : d.InSession) : (d.cidStop device).InSession := by
  unfold Desk.cidStop
  apply InSession.answerRings
  split
  · exact { kept with }
  · exact inSession_ended (d := { d.clearTimer with process := none }) kept.fired
      (Ended.stop _ device)

theorem Timed.cidProcess (kept : d.Timed) (status : Int)
    (can : status ≠ 0 → d.ringsEnough = true → (d.rdObj = true → d.dp = none) →
      d.canStart device = true) : (d.cidProcess device status).Timed := by
  unfold Desk.cidProcess
  split
  · rename_i done
    exact kept.cidStop device (can done)
  · exact kept

theorem Timed.countSamples (kept : d.Timed) (ec : Bool) (count : Nat)
    (can : d.sampleTimer ≠ 0 ∧ d.sampleTimer ≤ d.count + count →
      d.sampleTimerFunc = some .modemCidStop → d.ringsEnough = true →
        (d.rdObj = true → d.dp = none) → d.canStart device = true) :
    (d.countSamples device ec count).Timed := by
  unfold Desk.countSamples
  simp only
  split
  · rename_i due
    have session : d.session = true := by
      cases open_ : d.session with
      | true => rfl
      | false => exact absurd (kept.clear open_) due.1
    have expired : Timed (expire { d with count := d.count + count }) :=
      { kept with
        fired := by
          intro pair member
          rcases List.mem_append.mp member with old | new
          · exact kept.fired pair old
          · rw [List.mem_singleton.mp new]
            exact kept.armed due.1
        clear := fun _ => rfl
        armed := fun set => absurd rfl set
        func := fun _ => rfl }
    cases func : d.sampleTimerFunc with
    | none => exact expired
    | some callback =>
        cases callback with
        | runModemStop => exact expired.stop rfl device
        | doModemChangeDp => exact expired.changeDp device session ec
        | modemCidStop => exact expired.cidStop device (can due func)
  · exact { kept with }

theorem Timed.forceHangup (kept : d.Timed) (ec : Bool) : (d.forceHangup device ec).Timed := by
  have hung := kept.hup ec
  unfold Desk.forceHangup
  apply InSession.clearTimer
  unfold Desk.forceTimer
  generalize d.hup ec = e at hung
  cases func : e.sampleTimerFunc with
  | none => exact { hung with }
  | some callback =>
      have session : e.session = true := by
        cases open_ : e.session with
        | true => rfl
        | false =>
            have none := hung.func (hung.clear open_)
            rw [func] at none
            cases none
      cases callback with
      | runModemStop => exact inSession_ended hung.fired (Ended.stop e device)
      | doModemChangeDp => exact (hung.changeDp device session ec).toInSession
      | modemCidStop => exact hung.toInSession.cidStop device

theorem Timed.reset (kept : d.Timed) (ec : Bool)
    (off : d.state = .modemIdle → d.started = true → d.sampleTimer = 0) :
    (d.reset device ec).Timed := by
  have idle : ∀ e : Desk, e.Timed → Timed
      { e.setState .modemIdle with command := true, sregs := sregsInit e.sregs } := by
    intro e timed
    rw [setState_idle]
    exact { timed with busy := fun busy => absurd rfl busy }
  unfold Desk.reset
  simp only
  apply Timed.setMode
  apply idle
  split
  · exact kept.hup ec
  · rename_i quiet
    split
    · rename_i running
      exact kept.stop (off (not_not.mp quiet) running) device
    · split
      · exact kept.setHook device .on
      · exact kept

theorem Timed.voiceProcess (kept : d.Timed) (status : Int) :
    (d.voiceProcess device status).Timed := by
  unfold Desk.voiceProcess
  split_ifs
  · exact { kept with }
  · exact { kept with }
  · exact { kept with }
  · exact kept.voiceStop device
  · exact kept

theorem Timed.faxProcess (kept : d.Timed) (fax : d.process = some .fax) (ec : Bool) (ret : Int)
    (off : ret < 0 → d.sampleTimer = 0) : (d.faxProcess device ec ret).Timed := by
  have session := kept.fax fax
  unfold Desk.faxProcess
  split_ifs
  · exact { kept.setState session .commandOnline with }
  · exact { kept.link session with }
  · exact { kept.setState session .commandOnline with }
  · exact kept.fail _ _
  · rename_i lost
    exact kept.stop (off lost) device
  · exact kept

end Timed

end Desk

namespace Modem

/-! ### Runs -/

/-- `modem_answer` would start, or is refused at once. -/
def answerStarts (m : Modem) (device : Device) : Bool :=
  decide (m.dp ≠ none) || m.desk.canStart device

/-- If `modem_cid_stop` goes on to answer, `modem_start` succeeds. -/
def cidAnswerStarts (m : Modem) (device : Device) : Bool :=
  !m.ringsEnough || (m.rdObj && decide (m.dp ≠ none)) || m.desk.canStart device

def stopsClear (m : Modem) (device : Device) : Call → Bool
  | .answer => m.answerStarts device
  | .dial => decide (m.dp ≠ none) || !m.started || decide (m.sampleTimer = 0)
  | .reset => decide (m.state ≠ .modemIdle) || !m.started || decide (m.sampleTimer = 0)
  | .voiceDevice line =>
      !line || m.voiceObj || !(m.started && m.rdObj) || device.voice || decide (m.sampleTimer = 0)
  | _ => true

def cidRuns (m : Modem) (details : RingDetails) (now : BitVec 32) (device : Device) : Bool :=
  if details.rings && m.ringStartsCid now && m.rdObj then device.cid else m.cid

/-- The step leaves no timer behind. -/
def LeavesNoTimer (m : Modem) : Event → Bool
  | .ringCheck device => !m.ringAnswers || m.answerStarts device
  | .ring now device => !m.ringStartsCid now || m.started || !device.cid || device.start
  | .cidStatus status device => decide (status = 0) || m.cidAnswerStarts device
  | .ringDetails details status now device =>
      !m.cidRuns details now device || decide (status = 0) || m.cidAnswerStarts device
  | .faxStatus ret _ => decide (0 ≤ ret) || decide (m.sampleTimer = 0)
  | .samples count device =>
      !decide (m.sampleTimer ≠ 0 ∧ m.sampleTimer ≤ m.count + count) ||
        decide (m.sampleTimerFunc ≠ some .modemCidStop) || m.cidAnswerStarts device
  | event => (m.callsOf event).all fun made => made.1.stopsClear made.2.2 made.2.1

theorem can_of_answerStarts {m : Modem} {device : Device} (starts : m.answerStarts device = true)
    (free : m.dp = none) : m.desk.canStart device = true := by
  rw [answerStarts, decide_eq_false (not_not.mpr free), Bool.false_or] at starts
  exact starts

theorem can_of_cidAnswerStarts {m : Modem} {device : Device}
    (starts : m.cidAnswerStarts device = true) (enough : m.ringsEnough = true)
    (free : m.rdObj = true → m.dp = none) : m.desk.canStart device = true := by
  unfold cidAnswerStarts at starts
  have open_ : (m.rdObj && decide (m.dp ≠ none)) = false := by
    cases detector : m.rdObj with
    | false => rfl
    | true => simp [free detector]
  rw [enough, open_] at starts
  exact starts

theorem timed_call {m : Modem} (c : Call) (device : Device) (kept : m.desk.Timed)
    (clear : m.stopsClear device c = true) : (m.desk.call device m.cfg.ec c).Timed := by
  cases c with
  | answer => exact kept.answer device (can_of_answerStarts clear)
  | dial =>
      apply kept.dial device
      intro free running
      have pump : m.dp = none := free
      have started : m.started = true := running
      change m.sampleTimer = 0
      simpa [stopsClear, pump, started] using clear
  | hook hookState =>
      unfold Desk.call Desk.hookCall
      simp only
      split
      · exact kept
      · exact (kept.hup _).setHook device hookState
  | online =>
      unfold Desk.call Desk.online
      simp only
      split
      · exact kept
      · rename_i escaped
        apply kept.link
        apply kept.busy
        rw [not_not.mp escaped]
        decide
  | reset =>
      apply kept.reset device
      intro idle running
      have state : m.state = .modemIdle := idle
      have started : m.started = true := running
      change m.sampleTimer = 0
      simpa [stopsClear, state, started] using clear
  | setMode mode => exact kept.setMode device mode
  | setCid requested => exact { kept with }
  | voiceDevice line =>
      unfold Desk.call Desk.voiceSetDevice
      simp only
      split
      · split
        · rename_i lifted
          by_cases made : m.voiceObj = true
          · have object : m.desk.voiceObj = true := made
            unfold Desk.voiceStart
            rw [if_pos object]
            exact kept
          · apply kept.voiceStart device
            intro running detector voiceless
            have started : m.started = true := running
            have object : m.rdObj = true := detector
            change m.sampleTimer = 0
            simpa [stopsClear, lifted, made, started, object, voiceless] using clear
        · split
          · exact kept.voiceStop device
          · exact kept
      · exact kept
  | voiceCommand =>
      unfold Desk.call
      simp only
      split
      · exact { kept with }
      · exact kept
  | setSreg num val => exact { kept with }
  | send bytes => exact kept

theorem timed_ringDetails {m : Modem} (details : RingDetails) (status : Int) (now : BitVec 32)
    (device : Device) (kept : m.desk.Timed) (running : m.started = true)
    (fine : (!m.cidRuns details now device || decide (status = 0) || m.cidAnswerStarts device) =
      true) :
    Desk.Timed (if (m.deskRung details now device).cid then
        (m.deskRung details now device).cidProcess device status
      else m.deskRung details now device) := by
  have rung : (m.deskRung details now device).Timed ∧
      ((m.deskRung details now device).cid = true → m.cidRuns details now device = true) ∧
      (m.deskRung details now device).canStart device = m.desk.canStart device ∧
      (m.deskRung details now device).sregs = m.sregs ∧
      (m.deskRung details now device).rdObj = m.rdObj ∧
      (m.deskRung details now device).dp = m.dp := by
    have deskRunning : m.desk.started = true := running
    have detector : m.desk.rdObj = m.rdObj := rfl
    unfold deskRung cidRuns
    cases rings : details.rings && m.ringStartsCid now with
    | false =>
        exact ⟨kept, id, rfl, rfl, rfl, rfl⟩
    | true =>
        refine ⟨kept.cidStart device _ (by decide) (Or.inl running), ?_⟩
        unfold Desk.cidStart
        rw [deskRunning, detector]
        cases object : m.rdObj with
        | false => exact ⟨id, rfl, rfl, object, rfl⟩
        | true =>
            cases device.cid with
            | false =>
                simp only [Bool.not_true, Bool.and_false, Bool.not_false, Bool.and_true, if_true,
                  Bool.false_eq_true, if_false]
                refine ⟨id, ?_, rfl, trivial, rfl⟩
                unfold Desk.canStart
                rw [deskRunning]
                rfl
            | true =>
                simp only [Bool.not_true, Bool.and_false, Bool.and_true, if_true,
                  Bool.false_eq_true, if_false]
                exact ⟨fun _ => trivial, rfl, rfl, object, rfl⟩
  rcases rung with ⟨timed, runs, can, registers, object, pump⟩
  generalize m.deskRung details now device = d at timed runs can registers object pump
  split
  · rename_i cid
    apply timed.cidProcess device status
    intro done enough free
    rw [can]
    have starts : m.cidAnswerStarts device = true := by
      simpa [runs cid, done] using fine
    apply can_of_cidAnswerStarts starts
    · unfold Desk.ringsEnough at enough
      rw [registers] at enough
      exact enough
    · rw [object, pump] at free
      exact free
  · exact timed

theorem timedSafe :
    StepSafe Desk.Timed (fun m event => m.LeavesNoTimer event = true)
      (fun m c device => m.stopsClear device c = true) where
  bits := fun _ _ kept _ => { kept with }
  untimed := fun kept _ _ => { kept with }
  hup := fun release kept => kept.hup release
  fail := fun code release kept _ => kept.fail code release
  drop := by
    intro d kept pumps
    exact { kept with fax := fun _ => kept.pump pumps.2 }
  pack := fun _ _ _ kept _ _ => { kept with }
  frame := by
    intro m f chars kept pumps _
    have safe := lapmSafe_of (P := Desk.Timed) (fun _ _ kept _ => { kept with })
      (fun code release kept _ => kept.fail code release)
      (fun kept pumps => kept.link (kept.pump pumps.2))
    exact (safe.rxComplete ⟨kept, pumps⟩ f chars).1
  finish := by
    intro m bits kept pumps _ _ _ _
    exact Desk.Timed.link (d := m.desk.pack .async 0 none) { kept with } (kept.pump pumps.2)
  connect := by
    intro m device kept pumps _ _
    have session := kept.pump pumps.2
    have set := kept.setState session .ecEstab
    have same : (m.desk.setState .ecEstab).session = true := by
      rcases Desk.setState_frame m.desk .ecEstab with ⟨_, _, _, alike⟩
      rw [alike]
      exact session
    exact ⟨set, Desk.Timed.link (d := (m.desk.setState .ecEstab).pack .async 0 none)
      { set with } same⟩
  change := fun device kept pumps _ => kept.changeDp device (kept.pump pumps.2) _
  escaped := by
    intro d kept online
    have session : d.session = true := by
      apply kept.busy
      rw [online]
      decide
    exact { kept.setState session .commandOnline with }
  rings := fun _ kept => { kept with }
  ringCheck := by
    intro m device kept fine answers
    apply Desk.Timed.answer (d := m.desk.setRings 0) device { kept with }
    intro free
    rw [Desk.canStart_setRings]
    apply can_of_answerStarts _ free
    simpa [LeavesNoTimer, answers] using fine
  ring := by
    intro m now device kept fine starts
    apply kept.cidStart device _ (by decide)
    have able : m.started = true ∨ device.cid = false ∨ device.start = true := by
      simpa [LeavesNoTimer, starts, or_assoc] using fine
    exact able
  ringDetectorStart := fun device kept _ closed => kept.ringDetectorStart device closed
  select := by
    intro m kept _
    unfold Desk.setFds
    split
    · exact { kept with }
    · exact kept
  readFails := fun device kept _ _ => kept.forceHangup device _
  cidStatus := by
    intro m status device kept fine _
    apply kept.cidProcess device status
    intro done
    have starts : m.cidAnswerStarts device = true := by
      simpa [LeavesNoTimer, done] using fine
    exact can_of_cidAnswerStarts starts
  ringDetails := by
    intro m details status now device kept fine process
    have running : m.started = true := by
      rw [processes, Bool.and_eq_true] at process
      exact process.1
    exact timed_ringDetails details status now device kept running fine
  voiceStatus := fun status device kept _ _ => kept.voiceProcess device status
  faxStatus := by
    intro m ret device kept fine process
    rw [processes, Bool.and_eq_true, decide_eq_true_eq] at process
    apply kept.faxProcess device process.2
    intro lost
    have negative : ¬0 ≤ ret := by omega
    change m.sampleTimer = 0
    simpa [LeavesNoTimer, negative] using fine
  samples := by
    intro m count device kept fine
    apply kept.countSamples device
    intro due func
    have starts : m.cidAnswerStarts device = true := by
      have timer : decide (m.sampleTimer ≠ 0 ∧ m.sampleTimer ≤ m.count + count) = true :=
        decide_eq_true due
      have callback : m.sampleTimerFunc = some .modemCidStop := func
      rw [LeavesNoTimer, timer, callback] at fine
      exact fine
    exact can_of_cidAnswerStarts starts
  call := fun c device kept clear => timed_call c device kept clear
  calls := fun bytes now lines fine => List.all_eq_true.mp fine

/-- In every state of a run that leaves no timer behind, a modem without a session has no
sample timer, and every callback has fired in the session that armed it. -/
theorem timer_in_session (events : List Event)
    (leaves : modemCreate.Along (fun m event => m.LeavesNoTimer event = true) events) :
    ∀ before, before <+: events →
      ((modemCreate.blockRun before).session = false → (modemCreate.blockRun before).sampleTimer = 0) ∧
        ∀ pair ∈ (modemCreate.blockRun before).fired, pair.1 = pair.2 := by
  intro before within
  have initial : modemCreate.desk.Timed :=
    { busy := fun busy => absurd rfl busy
      pump := fun pump => absurd rfl pump
      fax := by decide
      line := by decide
      live := by decide
      fired := by
        intro pair member
        cases member
      clear := fun _ => rfl
      armed := fun set => absurd rfl set
      func := fun _ => rfl }
  have timed := timedSafe.run initial leaves before within
  exact ⟨timed.clear, timed.fired⟩

theorem timer_in_session_answered :
    let events := answeredCall ++ [.hangup, .samples 48 obedient]
    (modemCreate.blockRun events).session = false ∧ (modemCreate.blockRun events).sampleTimer = 0 ∧
      (modemCreate.blockRun events).fired = [(0, 0), (0, 0)] ∧
      ∀ pair ∈ (modemCreate.blockRun events).fired, pair.1 = pair.2 := by
  intro events
  have closed : (modemCreate.blockRun events).session = false := by decide +kernel
  have timed := timer_in_session events (by decide +kernel) events (List.prefix_refl events)
  exact ⟨closed, timed.1 closed, by decide +kernel, timed.2⟩

/-- Caller ID is started by the first ring of a call, and its timer goes off in the call
that ATD started meanwhile: the call is ended by `modem_cid_stop`. -/
theorem cid_timer_ends_call :
    let ring := [.write [65, 84, 35, 67, 73, 68, 61, 49, 13] 0
        [{ calls := [(.setCid true, obedient)], ret := 0 }],
      .ringDetectorStart obedient,
      .ringDetails { ret := 1, freq := 0, duration := 0 } 0 200 obedient]
    let dialled := ring ++
      [.write [65, 84, 68, 13] 300 [{ calls := [(.dial, obedient)], ret := 1 }]]
    (modemCreate.blockRun dialled).state = .dpEstab ∧ (modemCreate.blockRun dialled).stops = 1 ∧
      (modemCreate.blockRun dialled).sampleTimerFunc = some .modemCidStop ∧
      (modemCreate.blockRun (dialled ++ [.samples 38400 obedient])).fired = [(0, 1)] ∧
      (modemCreate.blockRun (dialled ++ [.samples 38400 obedient])).state = .modemIdle := by
  decide +kernel

end Modem

end DModem
