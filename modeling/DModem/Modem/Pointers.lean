/-
The pointers of a session.

`m->dp`, the two timer callbacks and the descriptor of the device are used in places that
rely on the state of the modem for them to be set.  Fax calls are online without a data
pump, voice and ring-detector sessions are idle without a timer, and a closed device keeps
the descriptor -1.
-/

import DModem.Modem.StepRule

namespace DModem

def ModemState.live : ModemState → Bool
  | .ecEstab | .modemOnline | .commandOnline => true
  | _ => false

def Device.obeys (device : Device) : Bool := device.start && device.stop

/-- The processes of a session in `STATE_MODEM_IDLE`. -/
def Process.idles : Process → Bool
  | .voice | .ringDetector | .cid => true
  | _ => false

def Event.device : Event → Option Device
  | .ringCheck device | .ring _ device | .ringDetectorStart device | .readFails device
  | .dpStat _ device | .cidStatus _ device | .ringDetails _ _ _ device | .voiceStatus _ device
  | .faxStatus _ device | .samples _ device => some device
  | _ => none

namespace Desk

structure Sane (d : Desk) : Prop where
  opens : d.opens = 0 → d.fd = 0 ∧ d.started = false
  bitTimer : d.bitTimer ≠ 0 → d.bitTimerFunc ≠ none
  timer : d.sampleTimer ≠ 0 → d.sampleTimerFunc ≠ none
  result : d.resultCode ≠ .connect
  faults : d.faults = []

structure Sound (d : Desk) : Prop extends Sane d where
  busy : d.state ≠ .modemIdle → d.started = true
  pump : d.dp ≠ none → d.started = true
  fd : d.started = true → 0 ≤ d.fd
  line : d.rdObj = true →
    d.state = .modemIdle ∧ d.process = some .ringDetector ∧ d.started = true ∧ d.dp = none
  disc : d.state.disc = true → d.sampleTimerFunc = some .runModemStop
  idle : d.state = .modemIdle → d.started = true →
    d.sampleTimerFunc ≠ none ∨ (d.process.any Process.idles = true ∧ d.dp = none)
  live : d.state.live = true → d.dp ≠ none ∨ d.process = some .fax

section Sound

variable {d d' : Desk}

theorem Sound.closed (kept : d.Sound) (closed : d.started = false) :
    d.state = .modemIdle ∧ d.dp = none ∧ d.rdObj = false := by
  have never : ¬d.started = true := by simp [closed]
  refine ⟨?_, ?_, ?_⟩
  · by_contra busy
    exact never (kept.busy busy)
  · by_contra pump
    exact never (kept.pump pump)
  · cases detector : d.rdObj with
    | false => rfl
    | true => exact absurd (kept.line detector).2.2.1 never

theorem sound_ended (sane : d.Sane) (ended : Ended d d') (closed : d'.started = false) :
    d'.Sound := by
  have never : ¬d'.started = true := by simp [closed]
  exact
    { opens := by
        intro unopened
        refine ⟨?_, closed⟩
        have before : d.opens = 0 := Nat.eq_zero_of_le_zero (unopened ▸ ended.opens)
        have untouched := sane.opens before
        rcases ended.device with same | opened
        · exact (same ⟨untouched.2, before⟩).trans untouched.1
        · rw [unopened] at opened
          cases opened
      bitTimer := by
        rw [ended.bitTimer, ended.bitTimerFunc]
        exact sane.bitTimer
      timer := by
        rw [ended.sampleTimer, ended.sampleTimerFunc]
        exact sane.timer
      result := by
        rw [ended.resultCode]
        decide
      faults := (ended.faults sane.result).trans sane.faults
      busy := fun busy => absurd ended.state busy
      pump := fun pump => absurd ended.dp pump
      fd := fun running => absurd running never
      line := by
        intro detector
        rw [ended.rdObj] at detector
        cases detector
      disc := by
        intro disc
        rw [ended.state] at disc
        cases disc
      idle := fun _ running => absurd running never
      live := by
        intro live
        rw [ended.state] at live
        cases live }

theorem sound_opened (sane : d.Sane) (bare : d.rdObj = false) (opened : Opened d d') :
    d'.Sound :=
  { opens := by
      intro unopened
      exact absurd opened.opens (by simp [unopened])
    bitTimer := by
      rw [opened.bitTimer, opened.bitTimerFunc]
      exact sane.bitTimer
    timer := by
      rw [opened.sampleTimer, opened.sampleTimerFunc]
      exact sane.timer
    result := by
      rw [opened.resultCode]
      decide
    faults := (opened.faults sane.result).trans sane.faults
    busy := fun _ => opened.started
    pump := fun _ => opened.started
    fd := fun _ => opened.fd
    line := by
      intro detector
      have before := opened.rdObj detector
      rw [bare] at before
      cases before
    disc := by
      intro disc
      rw [opened.state] at disc
      cases disc
    idle := by
      intro idle
      rw [opened.state] at idle
      cases idle
    live := by
      intro live
      rw [opened.state] at live
      cases live }

theorem sound_start (sane : d.Sane) (bare : d.rdObj = false) (device : Device)
    (stops : device.stop = true) : (d.start device).1.Sound := by
  rcases start_cases d device with ⟨_, _, opened⟩ | ⟨_, _, ended, running⟩
  · exact sound_opened sane bare opened
  · apply sound_ended sane ended
    cases started : (d.start device).1.started with
    | false => rfl
    | true =>
        have refused := running started
        rw [stops] at refused
        cases refused

theorem Sane.stop (sane : d.Sane) (device : Device) (stops : device.stop = true) :
    (d.stop device).Sound := by
  apply sound_ended sane (Ended.stop d device)
  rw [started_stop, stops]
  exact Bool.and_false _

theorem Sound.hup (kept : d.Sound) (release : Bool) : (d.hup release).Sound := by
  rcases hup_cases d release with
    ⟨_, same⟩ | ⟨state, same⟩ | ⟨busy, _, state, _, _, _, _, disc, set, same⟩
  · rw [same]
    exact kept
  · have running : d.started = true := kept.busy (by simp [state])
    rw [same]
    exact
      { kept with
        busy := fun _ => running
        line := by
          intro detector
          have idle := (kept.line detector).1
          rw [state] at idle
          cases idle
        disc := by
          intro _
          apply kept.disc
          rw [state]
          rfl
        idle := by
          intro idle
          cases idle
        live := by
          intro live
          cases live }
  · rw [same]
    exact
      { kept with
        bitTimer := set kept.bitTimer
        timer := by
          intro _ none
          cases none
        result := by
          simp only
          split
          · decide
          · exact kept.result
        busy := fun _ => kept.busy busy
        line := by
          intro detector
          exact absurd (kept.line detector).1 busy
        disc := fun _ => rfl
        idle := by
          intro idle
          have quiet : state = .modemIdle := idle
          rw [quiet] at disc
          cases disc
        live := by
          intro live
          have open_ : state.live = true := live
          cases state <;> simp [ModemState.live, ModemState.disc] at open_ disc }

theorem Sound.fail (kept : d.Sound) (code : ModemResult) (release : Bool)
    (other : code ≠ .connect) : (d.fail code release).Sound :=
  Sound.hup (d := { d with resultCode := code }) { kept with result := other } release

theorem Sound.setLive (kept : d.Sound) (running : d.started = true) (bare : d.rdObj = false)
    (served : d.dp ≠ none ∨ d.process = some .fax) (newState : ModemState)
    (live : newState.live = true) : (d.setState newState).Sound := by
  have busy : newState ≠ .modemIdle := by
    intro idle
    rw [idle] at live
    cases live
  rcases setState_frame d newState with ⟨_, _, _, same⟩
  rw [same]
  exact
    { kept with
      busy := fun _ => running
      line := by
        intro detector
        have object : d.rdObj = true := detector
        rw [bare] at object
        cases object
      disc := by
        intro disc
        cases newState <;> simp [ModemState.live, ModemState.disc] at live disc
      idle := fun idle => absurd idle busy
      live := fun _ => served }

theorem Sound.link (kept : d.Sound) (running : d.started = true) (bare : d.rdObj = false)
    (served : d.dp ≠ none ∨ d.process = some .fax)
    (named : d.dp = none → d.printsModulation = false) : d.link.Sound := by
  have set := kept.setLive running bare served .modemOnline rfl
  unfold Desk.link connect
  have quiet : ((d.setState .modemOnline).printsModulation &&
      (d.setState .modemOnline).dp.isNone) = false := by
    rcases setState_frame d .modemOnline with ⟨_, _, _, same⟩
    rw [same]
    cases pump : d.dp with
    | none =>
        have silent := named pump
        unfold printsModulation at silent ⊢
        rw [silent]
        rfl
    | some id => exact Bool.and_false _
  rw [if_neg (by simp [quiet])]
  exact { set with }

theorem Sound.bare (kept : d.Sound) (pumps : d.Pumps) : d.rdObj = false := by
  cases detector : d.rdObj with
  | false => rfl
  | true => exact absurd (kept.line detector).2.2.2 pumps.2

theorem Sound.linkPump (kept : d.Sound) (pumps : d.Pumps) : d.link.Sound :=
  kept.link pumps.1 (kept.bare pumps) (Or.inl pumps.2) fun none => absurd none pumps.2

variable (device : Device)

theorem Sound.setHook (kept : d.Sound) (hookState : Hook) : (d.setHook device hookState).Sound := by
  unfold Desk.setHook
  split
  · exact { kept with }
  · exact kept

theorem Sound.stopStarted (kept : d.Sound) (stops : device.stop = true) :
    (d.stopStarted device).Sound ∧ (d.stopStarted device).started = false := by
  rcases stopStarted_cases d device with ⟨closed, same⟩ | ⟨_, same⟩
  · rw [same]
    exact ⟨kept, closed⟩
  · rw [same, started_stop, stops]
    exact ⟨kept.toSane.stop device stops, Bool.and_false _⟩

theorem Sound.answer (kept : d.Sound) (stops : device.stop = true) :
    (d.answer device).1.Sound := by
  rcases answer_cases d device with ⟨_, same⟩ | ⟨_, due, _, same⟩
  · rw [same]
    exact kept
  · rw [same]
    have stopped := kept.stopStarted device stops
    generalize d.stopStarted device = e at stopped
    apply sound_start _ _ device stops
    · exact { stopped.1 with timer := fun _ none => by cases none }
    · exact (stopped.1.closed stopped.2).2.2

theorem Sound.dial (kept : d.Sound) (stops : device.stop = true) : (d.dial device).Sound := by
  have stopped := kept.stopStarted device stops
  rcases dial_cases d device with ⟨_, same⟩ | ⟨_, same⟩ | ⟨_, same⟩
  · rw [same]
    exact kept
  · rw [same]
    exact stopped.1
  · rw [same]
    generalize d.stopStarted device = e at stopped
    apply sound_start _ _ device stops
    · exact { stopped.1 with }
    · exact (stopped.1.closed stopped.2).2.2

theorem Sound.clearTimer (kept : d.Sound) (calm : d.state.disc = false)
    (idles : d.state = .modemIdle → d.started = true →
      d.process.any Process.idles = true ∧ d.dp = none) : d.clearTimer.Sound :=
  { kept with
    timer := fun set => absurd rfl set
    disc := by
      intro disc
      have waits : d.state.disc = true := disc
      rw [calm] at waits
      cases waits
    idle := fun idle running => Or.inr (idles idle running) }

theorem Sound.arm (kept : d.Sound) (calm : d.state.disc = false) (func : SampleTimerFunc)
    (due : Nat) : (d.arm func due).Sound :=
  { kept with
    timer := fun _ none => by cases none
    disc := by
      intro disc
      have waits : d.state.disc = true := disc
      rw [calm] at waits
      cases waits
    idle := fun _ _ => Or.inl fun none => by cases none }

theorem calm_of_idle (idle : d.state = .modemIdle) : d.state.disc = false := by
  rw [idle]
  rfl

theorem Sound.voiceStop (kept : d.Sound) (stops : device.stop = true) :
    (d.voiceStop device).Sound := by
  unfold Desk.voiceStop
  apply Sound.setHook
  apply Sane.stop _ device stops
  exact { kept with timer := fun set => absurd rfl set }

theorem Sound.setMode (kept : d.Sound) (stops : device.stop = true) (mode : ModemMode) :
    (d.setMode device mode).Sound := by
  unfold Desk.setMode
  split
  · exact kept
  · split
    · exact { kept.voiceStop device stops with }
    · exact { kept with }

/-- The device is opened for a session in `STATE_MODEM_IDLE`. -/
theorem Sound.doStart (kept : d.Sound) (closed : d.started = false) (opens : device.start = true)
    (process : Process) (idles : process.idles = true) (rdObj : Bool)
    (detects : rdObj = true → process = .ringDetector) (hookState : Hook) :
    Sound (Desk.doStart
      (Desk.setHook { d with process := some process, rdObj := rdObj } device hookState) device) := by
  have free := kept.closed closed
  have begun : Sound (Desk.doStart { d with process := some process, rdObj := rdObj } device) :=
    { kept with
      opens := by
        intro unopened
        cases unopened
      busy := fun _ => opens
      pump := fun _ => opens
      fd := by
        intro _
        simp only [Desk.doStart, opens, if_true]
        exact Int.natCast_nonneg device.fd
      line := fun detector => ⟨free.1, congrArg some (detects detector), opens, free.2.1⟩
      idle := fun _ _ => Or.inr ⟨idles, free.2.1⟩
      live := by
        intro live
        have open_ : d.state.live = true := live
        rw [free.1] at open_
        cases open_ }
  unfold Desk.setHook
  split
  · exact { begun with }
  · exact begun

theorem Sound.voiceStart (kept : d.Sound) (obeys : device.obeys = true) :
    (d.voiceStart device).Sound := by
  rw [Device.obeys, Bool.and_eq_true] at obeys
  unfold Desk.voiceStart
  split
  · exact kept
  · split
    · exact kept
    · have stopped := kept.stopStarted device obeys.2
      simp only
      split
      · exact stopped.1
      · generalize d.stopStarted device = e at stopped
        have free := stopped.1.closed stopped.2
        have never : ¬e.started = true := by simp [stopped.2]
        have spoken : Sound { e with voiceObj := true } := { stopped.1 with }
        have bare := spoken.clearTimer (calm_of_idle free.1) fun _ running =>
          absurd running never
        exact bare.doStart device stopped.2 obeys.1 .voice rfl e.rdObj
          (fun detector => by rw [free.2.2] at detector; cases detector) .off

theorem Sound.cidStart (kept : d.Sound) (idle : d.state = .modemIdle)
    (opens : device.start = true) (timeout : Nat) : (d.cidStart device timeout).Sound := by
  have armed : (d.armCid timeout).Sound :=
    Sound.arm (d := { d with cid := true }) { kept with } (calm_of_idle idle) _ _
  unfold Desk.cidStart
  split
  · exact kept
  · rename_i line
    split
    · exact { kept with }
    · split
      · exact armed
      · rename_i between
        have closed : d.started = false := by
          cases running : d.started with
          | false => rfl
          | true =>
              rw [running] at line between
              simp only [Bool.true_and, Bool.not_eq_true', Bool.not_eq_false,
                Bool.not_eq_true] at line between
              rw [line] at between
              cases between
        exact armed.doStart device closed opens .cid rfl d.rdObj
          (fun detector => by rw [(kept.closed closed).2.2] at detector; cases detector) .snooping

theorem Sound.ringDetectorStart (kept : d.Sound) (closed : d.started = false)
    (opens : device.start = true) : (d.ringDetectorStart device).Sound := by
  unfold Desk.ringDetectorStart
  split
  · exact kept
  · exact kept.doStart device closed opens .ringDetector rfl device.rd (fun _ => rfl) .snooping

theorem Sound.answerRings (kept : d.Sound) (stops : device.stop = true) :
    (d.answerRings device).Sound := by
  unfold Desk.answerRings
  split
  · exact Sound.answer (d := d.setRings 0) device { kept with } stops
  · exact kept

/-- `modem_cid_stop` leaves a ring-detector session without a timer, or ends the session. -/
theorem Sane.cidStop (sane : d.Sane) (sound : d.rdObj = true → d.Sound)
    (stops : device.stop = true) :
    (d.cidStop device).Sound ∧ (d.cidStop device).state.disc = false ∧
      ((d.cidStop device).state = .modemIdle → (d.cidStop device).started = true →
        (d.cidStop device).process.any Process.idles = true ∧ (d.cidStop device).dp = none) := by
  have answered : ∀ e : Desk, e.Sound → e.state = .modemIdle →
      (e.started = true → e.process.any Process.idles = true ∧ e.dp = none) →
      (e.answerRings device).Sound ∧ (e.answerRings device).state.disc = false ∧
        ((e.answerRings device).state = .modemIdle → (e.answerRings device).started = true →
          (e.answerRings device).process.any Process.idles = true ∧
            (e.answerRings device).dp = none) := by
    intro e sound idle idles
    refine ⟨sound.answerRings device stops, ?_⟩
    unfold Desk.answerRings
    split
    · rcases answer_cases (e.setRings 0) device with ⟨_, same⟩ | ⟨_, due, _, same⟩
      · rw [same]
        exact ⟨calm_of_idle idle, fun _ => idles⟩
      · rw [same]
        rcases start_cases (((e.setRings 0).stopStarted device).arm .doModemChangeDp due) device with
          ⟨_, _, opened⟩ | ⟨_, _, ended, running⟩
        · rw [opened.state]
          exact ⟨rfl, fun quiet => by cases quiet⟩
        · refine ⟨calm_of_idle ended.state, ?_⟩
          intro _ started
          have refused := running started
          rw [stops] at refused
          cases refused
    · exact ⟨calm_of_idle idle, fun _ => idles⟩
  unfold Desk.cidStop
  simp only
  split
  · rename_i detector
    have kept : d.Sound := sound detector
    have line := kept.line detector
    have idles : d.process.any Process.idles = true ∧ d.dp = none := by
      rw [line.2.1]
      exact ⟨rfl, line.2.2.2⟩
    have bare := kept.clearTimer (calm_of_idle line.1) fun _ _ => idles
    exact answered { d.clearTimer with cid := false } { bare with } line.1 fun _ => idles
  · have bare : Sane { d.clearTimer with process := none } :=
      { sane with timer := fun set => absurd rfl set }
    have ended := Ended.stop { d.clearTimer with process := none } device
    apply answered _ (bare.stop device stops) ended.state
    intro running
    rw [started_stop, stops, Bool.not_true, Bool.and_false] at running
    cases running

theorem Sound.cidProcess (kept : d.Sound) (stops : device.stop = true) (status : Int) :
    (d.cidProcess device status).Sound := by
  unfold Desk.cidProcess
  split
  · exact (kept.toSane.cidStop device (fun _ => kept) stops).1
  · exact kept

/-- `do_modem_change_dp` with a fax in a connection or before it, without one outside of a
connection, or with a data pump. -/
theorem Sound.changeDp (kept : d.Sound) (ec : Bool) (running : d.started = true)
    (bare : d.rdObj = false)
    (waits : d.state = .modemIdle → d.sampleTimerFunc ≠ none)
    (fax : d.mode = .fax → if device.fax then d.state ≠ .modemIdle ∧ d.state.disc = false
      else d.state.live = false) : (d.changeDp device ec).Sound := by
  unfold Desk.changeDp
  split
  · rename_i mode
    have safe := fax mode
    unfold Desk.faxStart
    split
    · rename_i made
      rw [if_pos made] at safe
      exact
        { kept with
          timer := fun set => absurd rfl set
          pump := fun pump => absurd rfl pump
          line := by
            intro detector
            have object : d.rdObj = true := detector
            rw [bare] at object
            cases object
          disc := by
            intro disc
            have waits : d.state.disc = true := disc
            rw [safe.2] at waits
            cases waits
          idle := fun idle => absurd idle safe.1
          live := fun _ => Or.inr rfl }
    · rename_i none
      rw [if_neg none] at safe
      exact
        { kept with
          pump := fun pump => absurd rfl pump
          line := by
            intro detector
            have object : d.rdObj = true := detector
            rw [bare] at object
            cases object
          idle := fun idle _ => Or.inl (waits idle)
          live := by
            intro live
            have open_ : d.state.live = true := live
            rw [safe] at open_
            cases open_ }
  · cases device.dp with
    | none => exact kept.hup ec
    | some id =>
        exact
          { kept with
            pump := fun _ => running
            line := by
              intro detector
              have object : d.rdObj = true := detector
              rw [bare] at object
              cases object
            idle := fun idle _ => Or.inl (waits idle)
            live := fun _ => Or.inl fun none => by cases none }

theorem Sound.bareBusy (kept : d.Sound) (busy : d.state ≠ .modemIdle) : d.rdObj = false := by
  cases detector : d.rdObj with
  | false => rfl
  | true => exact absurd (kept.line detector).1 busy

theorem Sound.countSamples (kept : d.Sound) (ec : Bool) (count : Nat)
    (stops : device.stop = true)
    (change : d.sampleTimer ≠ 0 ∧ d.sampleTimer ≤ d.count + count →
      d.sampleTimerFunc = some .doModemChangeDp → d.state ≠ .modemIdle ∧
        (d.mode = .fax → if device.fax then True else d.state.live = false)) :
    (d.countSamples device ec count).Sound := by
  unfold Desk.countSamples
  simp only
  split
  · rename_i due
    have sane : Sane (expire { d with count := d.count + count }) :=
      { kept with timer := fun set => absurd rfl set }
    cases func : d.sampleTimerFunc with
    | none => exact absurd func (kept.timer due.1)
    | some callback =>
        cases callback with
        | runModemStop => exact sane.stop device stops
        | doModemChangeDp =>
            have safe := change due func
            have calm : d.state.disc = false := by
              cases disc : d.state.disc with
              | false => rfl
              | true =>
                  have waits := kept.disc disc
                  rw [func] at waits
                  cases waits
            have expired : Sound (expire { d with count := d.count + count }) :=
              { kept with
                timer := fun set => absurd rfl set
                disc := by
                  intro disc
                  have waits : d.state.disc = true := disc
                  rw [calm] at waits
                  cases waits
                idle := fun idle => absurd idle safe.1 }
            apply expired.changeDp device ec (kept.busy safe.1) (kept.bareBusy safe.1)
            · exact fun idle => absurd idle safe.1
            · intro mode
              have fax := safe.2 mode
              split
              · exact ⟨safe.1, calm⟩
              · rename_i none
                rw [if_neg none] at fax
                exact fax
        | modemCidStop =>
            apply And.left
            apply sane.cidStop device _ stops
            intro detector
            have line := kept.line detector
            exact
              { kept with
                timer := fun set => absurd rfl set
                disc := by
                  intro disc
                  have waits : d.state.disc = true := disc
                  rw [line.1] at waits
                  cases waits
                idle := by
                  intro _ _
                  apply Or.inr
                  change d.process.any Process.idles = true ∧ d.dp = none
                  rw [line.2.1]
                  exact ⟨rfl, line.2.2.2⟩ }
  · exact { kept with }

/-- The forced hang-up: outside of `STATE_MODEM_IDLE` there is a stop to call. -/
theorem Sound.forceHangup (kept : d.Sound) (ec : Bool) (running : d.started = true)
    (stops : device.stop = true)
    (idle : d.state = .modemIdle → d.sampleTimerFunc ≠ some .doModemChangeDp ∧
      (d.process.any Process.idles = true → d.sampleTimer ≠ 0)) :
    (d.forceHangup device ec).Sound := by
  have stopped : ∀ e : Desk, e.Sane → (e.stop device).clearTimer.Sound := by
    intro e sane
    have closed : (e.stop device).started = false := by
      rw [started_stop, stops]
      exact Bool.and_false _
    have ended := Ended.stop e device
    exact (sane.stop device stops).clearTimer (calm_of_idle ended.state) fun _ started => by
      rw [closed] at started
      cases started
  have hung := kept.hup ec
  unfold Desk.forceHangup Desk.forceTimer
  by_cases quiet : d.state = .modemIdle
  · have same : d.hup ec = d := by
      unfold Desk.hup
      rw [quiet]
    rw [same]
    have safe := idle quiet
    have set : d.sampleTimerFunc ≠ none := by
      rcases kept.idle quiet running with set | idles
      · exact set
      · exact kept.timer (safe.2 idles.1)
    cases func : d.sampleTimerFunc with
    | none => exact absurd func set
    | some callback =>
        cases callback with
        | runModemStop => exact stopped d kept.toSane
        | doModemChangeDp => exact absurd func safe.1
        | modemCidStop =>
            have closed := kept.toSane.cidStop device (fun _ => kept) stops
            exact closed.1.clearTimer closed.2.1 closed.2.2
  · have disc : (d.hup ec).state.disc = true := by
      rcases hup_cases d ec with ⟨state, same⟩ | ⟨_, same⟩ | ⟨_, _, state, _, _, _, _, disc, _, same⟩
      · rw [same, state.resolve_left quiet]
        rfl
      · rw [same]
        rfl
      · rw [same]
        exact disc
    rw [hung.disc disc]
    exact stopped _ hung.toSane

theorem Sound.reset (kept : d.Sound) (ec : Bool) (stops : device.stop = true) :
    (d.reset device ec).Sound := by
  have idled : ∀ e : Desk, e.Sound → (e.state ≠ .modemIdle → e.sampleTimerFunc ≠ none) → Sound
      { e.setState .modemIdle with command := true, sregs := sregsInit e.sregs } := by
    intro e sound waits
    rw [setState_idle]
    exact
      { sound with
        busy := fun busy => absurd rfl busy
        line := fun detector => ⟨rfl, (sound.line detector).2⟩
        disc := by
          intro disc
          cases disc
        idle := by
          intro _ running
          by_cases quiet : e.state = .modemIdle
          · exact sound.idle quiet running
          · exact Or.inl (waits quiet)
        live := by
          intro live
          cases live }
  unfold Desk.reset
  simp only
  apply Sound.setMode _ _ stops
  split
  · rename_i busy
    apply idled _ (kept.hup ec)
    intro _
    rcases hup_cases d ec with ⟨state, same⟩ | ⟨state, same⟩ | ⟨_, _, _, _, _, _, _, _, _, same⟩
    · have waits := kept.disc (by rw [state.resolve_left busy]; rfl)
      rw [same, waits]
      decide
    · have waits := kept.disc (by rw [state]; rfl)
      rw [same]
      simp only
      rw [waits]
      decide
    · rw [same]
      simp
  · rename_i quiet
    have idle : d.state = .modemIdle := not_not.mp quiet
    split
    · have ended := Ended.stop d device
      apply idled _ (kept.toSane.stop device stops)
      exact fun busy => absurd ended.state busy
    · split
      · apply idled _ (kept.setHook device .on)
        intro busy
        apply absurd idle
        unfold Desk.setHook at busy
        split at busy
        · exact busy
        · exact busy
      · exact idled _ kept fun busy => absurd idle busy

end Sound

end Desk

namespace Modem

/-! ### Runs -/

def connectNamed (m : Modem) : Bool :=
  decide (m.dp ≠ none) || !m.printsModulation .connect

/-- `do_modem_change_dp` finds a state that a fax call can have. -/
def faxChanges (m : Modem) (device : Device) : Bool :=
  decide (m.mode ≠ .fax) ||
    (if device.fax then decide (m.state ≠ .modemIdle) && !m.state.disc else !m.state.live)

def CallPoints (m : Modem) (c : Call) (device : Device) : Bool :=
  device.obeys && (decide (c ≠ .online) || decide (m.state ≠ .commandOnline) || m.connectNamed)

def StepPoints (m : Modem) : Event → Bool
  | .select => m.started || decide (m.opens = 0)
  | .readFails _ => decide (m.state ≠ .modemIdle) ||
      (decide (m.sampleTimerFunc ≠ some .doModemChangeDp) &&
        (!m.process.any Process.idles || decide (m.sampleTimer ≠ 0)))
  | .dpStat stat device => decide (stat ≠ .changedp) || m.faxChanges device
  | .samples count device =>
      !decide (m.sampleTimer ≠ 0 ∧ m.sampleTimer ≤ m.count + count) ||
        decide (m.sampleTimerFunc ≠ some .doModemChangeDp) ||
          (decide (m.state ≠ .modemIdle) && m.faxChanges device)
  | .voiceStatus status _ => decide (status ≠ voiceStatusConnect) || m.connectNamed
  | .faxStatus ret _ => decide (ret ≠ faxStatusConnect) || m.connectNamed
  | event => (m.callsOf event).all fun made => made.1.CallPoints made.2.1 made.2.2

/-- The device obeys, and what the step uses is set. -/
def Points (m : Modem) (event : Event) : Bool :=
  event.device.all Device.obeys && m.StepPoints event

theorem silent_of_connectNamed {m : Modem} (named : m.connectNamed = true) (bare : m.dp = none) :
    m.desk.printsModulation = false := by
  rw [connectNamed, bare] at named
  have silent : m.printsModulation .connect = false := by simpa using named
  exact silent

theorem fax_of_faxChanges {m : Modem} {device : Device} (changes : m.faxChanges device = true)
    (fax : m.mode = .fax) :
    if device.fax then m.state ≠ .modemIdle ∧ m.state.disc = false else m.state.live = false := by
  rw [faxChanges, decide_eq_false (not_not.mpr fax), Bool.false_or] at changes
  split
  · rename_i made
    rw [if_pos made] at changes
    simpa using changes
  · rename_i none
    rw [if_neg none] at changes
    simpa using changes

theorem sound_call {m : Modem} (c : Call) (device : Device) (kept : m.desk.Sound)
    (points : m.CallPoints c device = true) : (m.desk.call device m.cfg.ec c).Sound := by
  rw [CallPoints, Bool.and_eq_true] at points
  have obeys := points.1
  have stops : device.stop = true := by
    rw [Device.obeys, Bool.and_eq_true] at obeys
    exact obeys.2
  cases c with
  | answer => exact kept.answer device stops
  | dial => exact kept.dial device stops
  | hook hookState =>
      unfold Desk.call Desk.hookCall
      simp only
      split
      · exact kept
      · exact (kept.hup _).setHook device hookState
  | online =>
      unfold Desk.call Desk.online
      simp only
      split
      · exact kept
      · rename_i escaped
        have state : m.state = .commandOnline := not_not.mp escaped
        have named : m.connectNamed = true := by simpa [state] using points.2
        have busy : m.desk.state ≠ .modemIdle := by
          change m.state ≠ .modemIdle
          rw [state]
          decide
        apply kept.link (kept.busy busy) (kept.bareBusy busy)
        · apply kept.live
          change m.state.live = true
          rw [state]
          rfl
        · exact silent_of_connectNamed named
  | reset => exact kept.reset device _ stops
  | setMode mode => exact kept.setMode device stops mode
  | setCid requested => exact { kept with }
  | voiceDevice line =>
      unfold Desk.call Desk.voiceSetDevice
      simp only
      split
      · split
        · exact kept.voiceStart device obeys
        · split
          · exact kept.voiceStop device stops
          · exact kept
      · exact kept
  | voiceCommand =>
      unfold Desk.call
      simp only
      split
      · exact { kept with }
      · exact kept
  | setSreg num val => exact { kept with }
  | send bytes => exact kept

theorem sound_faxProcess {m : Modem} (ret : Int) (device : Device) (kept : m.desk.Sound)
    (stops : device.stop = true) (process : m.processes .fax = true)
    (named : ret = faxStatusConnect → m.connectNamed = true) :
    (m.desk.faxProcess device m.cfg.ec ret).Sound := by
  rw [processes, Bool.and_eq_true, decide_eq_true_eq] at process
  have bare : m.desk.rdObj = false := by
    cases detector : m.desk.rdObj with
    | false => rfl
    | true =>
        have other := (kept.line detector).2.1
        rw [show m.desk.process = some .fax from process.2] at other
        cases other
  unfold Desk.faxProcess
  split_ifs with ok connected lost failed broken
  · exact { kept.setLive process.1 bare (Or.inr process.2) .commandOnline rfl with }
  · have online := kept.link process.1 bare (Or.inr process.2)
      (silent_of_connectNamed (named connected))
    exact { online with }
  · exact { kept.setLive process.1 bare (Or.inr process.2) .commandOnline rfl with }
  · exact kept.fail _ _ (by decide)
  · exact kept.toSane.stop device stops
  · exact kept

theorem sound_voiceProcess {m : Modem} (status : Int) (device : Device) (kept : m.desk.Sound)
    (stops : device.stop = true)
    (named : status = voiceStatusConnect → m.connectNamed = true) :
    (m.desk.voiceProcess device status).Sound := by
  unfold Desk.voiceProcess
  split_ifs with ok connected failed broken
  · exact { kept with }
  · have quiet : (m.desk.printsModulation && m.desk.dp.isNone) = false := by
      cases pump : m.desk.dp with
      | none =>
          rw [silent_of_connectNamed (named connected) pump]
          rfl
      | some id => exact Bool.and_false _
    unfold Desk.connect
    rw [if_neg (by simp [quiet])]
    exact { kept with }
  · exact { kept with }
  · exact kept.voiceStop device stops
  · exact kept

theorem obeys_of_points {m : Modem} {event : Event} {device : Device}
    (points : m.Points event = true) (its : event.device = some device) :
    device.start = true ∧ device.stop = true := by
  rw [Points, Bool.and_eq_true, its] at points
  have obeys := points.1
  rw [Option.all_some, Device.obeys, Bool.and_eq_true] at obeys
  exact obeys

theorem step_of_points {m : Modem} {event : Event} (points : m.Points event = true) :
    m.StepPoints event = true := by
  rw [Points, Bool.and_eq_true] at points
  exact points.2

theorem soundSafe :
    StepSafe Desk.Sound (fun m event => m.Points event = true)
      (fun m c device => m.CallPoints c device = true) where
  bits := fun _ _ kept set => { kept with bitTimer := set kept.bitTimer }
  untimed := fun kept running none => absurd none (kept.bitTimer running)
  hup := fun release kept => kept.hup release
  fail := fun code release kept other => kept.fail code release other
  drop := by
    intro d kept pumps
    exact
      { kept with
        line := by
          intro detector
          exact absurd (kept.line detector).2.2.2 pumps.2
        idle := by
          intro idle running
          rcases kept.idle idle running with set | idles
          · exact Or.inl set
          · exact absurd idles.2 pumps.2
        live := fun _ => Or.inl pumps.2 }
  pack := fun _ _ _ kept _ set => { kept with bitTimer := set }
  frame := by
    intro m f chars kept pumps _
    have safe := lapmSafe_of (P := Desk.Sound)
      (fun _ _ kept set => { kept with bitTimer := set kept.bitTimer })
      (fun code release kept other => kept.fail code release other)
      (fun kept pumps => kept.linkPump pumps)
    exact (safe.rxComplete ⟨kept, pumps⟩ f chars).1
  finish := by
    intro m bits kept pumps _ _ _ _
    exact Desk.Sound.linkPump (d := m.desk.pack .async 0 none)
      { kept with bitTimer := fun running => absurd rfl running } pumps
  connect := by
    intro m device kept pumps _ _
    have set := kept.setLive pumps.1 (kept.bare pumps) (Or.inl pumps.2) .ecEstab rfl
    refine ⟨set, ?_⟩
    exact Desk.Sound.linkPump (d := (m.desk.setState .ecEstab).pack .async 0 none)
      { set with bitTimer := fun running => absurd rfl running }
      (Desk.setState_pumps pumps .ecEstab)
  change := by
    intro m device kept pumps fine
    have points := step_of_points fine
    apply kept.changeDp device _ pumps.1 (kept.bare pumps)
    · intro idle
      rcases kept.idle idle pumps.1 with set | idles
      · exact set
      · exact absurd idles.2 pumps.2
    · apply fax_of_faxChanges
      simpa [StepPoints] using points
  escaped := by
    intro d kept online
    have busy : d.state ≠ .modemIdle := by
      rw [online]
      decide
    have served := kept.live (by rw [online]; rfl)
    exact { kept.setLive (kept.busy busy) (kept.bareBusy busy) served .commandOnline rfl with }
  rings := fun _ kept => { kept with }
  ringCheck := by
    intro m device kept fine _
    exact Desk.Sound.answer (d := m.desk.setRings 0) device { kept with }
      (obeys_of_points fine rfl).2
  ring := by
    intro m now device kept fine starts
    apply kept.cidStart device _ (obeys_of_points fine rfl).1
    simp only [ringStartsCid, Bool.and_eq_true, decide_eq_true_eq] at starts
    exact starts.1.1.1.1
  ringDetectorStart := fun device kept fine closed =>
    kept.ringDetectorStart device closed (obeys_of_points fine rfl).1
  select := by
    intro m kept fine
    have points : (m.started || decide (m.opens = 0)) = true := step_of_points fine
    unfold Desk.setFds
    rw [if_neg]
    · exact kept
    · rw [Bool.or_eq_true, decide_eq_true_eq] at points
      rcases points with running | unopened
      · exact Int.not_lt.mpr (kept.fd running)
      · rw [(kept.opens unopened).1]
        decide
  readFails := by
    intro m device kept fine running
    apply kept.forceHangup device _ running (obeys_of_points fine rfl).2
    intro idle
    have state : m.state = .modemIdle := idle
    have points := step_of_points fine
    rw [StepPoints, decide_eq_false (not_not.mpr state), Bool.false_or, Bool.and_eq_true,
      decide_eq_true_eq, Bool.or_eq_true, decide_eq_true_eq] at points
    refine ⟨points.1, ?_⟩
    intro idles
    have process : m.process.any Process.idles = true := idles
    rw [process] at points
    exact points.2.resolve_left (by decide)
  cidStatus := fun status device kept fine _ =>
    kept.cidProcess device (obeys_of_points fine rfl).2 status
  ringDetails := by
    intro m details status now device kept fine _
    have obeys := obeys_of_points fine rfl
    have rung : (m.deskRung details now device).Sound := by
      unfold deskRung
      split
      · rename_i starts
        apply kept.cidStart device _ obeys.1
        simp only [ringStartsCid, Bool.and_eq_true, decide_eq_true_eq] at starts
        exact starts.2.1.1.1.1
      · exact kept
    split
    · exact rung.cidProcess device obeys.2 status
    · exact rung
  voiceStatus := by
    intro m status device kept fine _
    apply sound_voiceProcess status device kept (obeys_of_points fine rfl).2
    intro connected
    have points := step_of_points fine
    simpa [StepPoints, connected] using points
  faxStatus := by
    intro m ret device kept fine process
    apply sound_faxProcess ret device kept (obeys_of_points fine rfl).2 process
    intro connected
    have points := step_of_points fine
    simpa [StepPoints, connected] using points
  samples := by
    intro m count device kept fine
    apply kept.countSamples device _ count (obeys_of_points fine rfl).2
    intro due func
    have points := step_of_points fine
    have timer : decide (m.sampleTimer ≠ 0 ∧ m.sampleTimer ≤ m.count + count) = true :=
      decide_eq_true due
    have callback : m.sampleTimerFunc = some .doModemChangeDp := func
    rw [StepPoints, timer, callback] at points
    simp only [Bool.not_true, ne_eq, not_true_eq_false, decide_false, Bool.or_self,
      Bool.false_or, Bool.and_eq_true, decide_eq_true_eq] at points
    refine ⟨points.1, ?_⟩
    intro fax
    have changes := fax_of_faxChanges points.2 fax
    split
    · trivial
    · rename_i none
      rw [if_neg none] at changes
      exact changes
  call := fun c device kept points => sound_call c device kept points
  calls := by
    intro m bytes now lines fine
    exact List.all_eq_true.mp (step_of_points fine)

/-- In every run whose steps keep to the condition, no pointer is used that is not set. -/
theorem no_faults (events : List Event)
    (points : modemCreate.Along (fun m event => m.Points event = true) events) :
    ∀ before, before <+: events → (modemCreate.blockRun before).faults = [] := by
  intro before within
  have initial : modemCreate.desk.Sound :=
    { opens := fun _ => ⟨rfl, rfl⟩
      bitTimer := fun running => absurd rfl running
      timer := fun set => absurd rfl set
      result := by decide
      faults := rfl
      busy := fun busy => absurd rfl busy
      pump := fun pump => absurd rfl pump
      fd := by decide
      line := by decide
      disc := by decide
      idle := by decide
      live := by decide }
  exact (soundSafe.run initial points before within).faults

theorem no_faults_lost_device :
    let events := answeredCall ++ [.select, .readFails obedient]
    (modemCreate.blockRun events).state = .modemIdle ∧ (modemCreate.blockRun events).faults = [] := by
  intro events
  constructor
  · decide +kernel
  · apply no_faults events
    · decide +kernel
    · exact List.prefix_refl events

def voiceLine : List Event :=
  [.write [65, 84, 43, 70, 67, 76, 65, 83, 83, 61, 56, 13] 0
      [{ calls := [(.setMode .voice, obedient)], ret := 0 }],
    .write [65, 84, 43, 86, 76, 83, 61, 49, 13] 100
      [{ calls := [(.voiceDevice true, obedient)], ret := 0 }]]

def faxAnswer : List Event :=
  [.write [65, 84, 38, 65, 49, 13] 0
      [{ calls := [(.setSreg sregConnnectMsgFormat 1, obedient)], ret := 0 }],
    .write [65, 84, 43, 70, 67, 76, 65, 83, 83, 61, 49, 13] 100
      [{ calls := [(.setMode .fax, obedient)], ret := 0 }],
    .write [65, 84, 65, 13] 200 [{ calls := [(.answer, obedient)], ret := 1 }]]

/-- After a hang-up the closed descriptor goes into the select set; a voice session that
loses its device has no callback to force; a fax connection has no modulation to print. -/
theorem unset_pointers_used :
    (modemCreate.blockRun (answeredCall ++ [.hangup, .samples 48 obedient, .select])).faults =
        [.deviceFd] ∧
      (modemCreate.blockRun (voiceLine ++ [.select, .readFails obedient])).faults =
        [.sampleTimerFunc] ∧
      (modemCreate.blockRun (faxAnswer ++ [.samples 19200 obedient,
        .faxStatus faxStatusConnect obedient])).faults = [.modulation] := by
  decide +kernel

end Modem

end DModem
