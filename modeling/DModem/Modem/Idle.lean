/-
An idle modem has no call.

`modem_reset` sets the state to `STATE_MODEM_IDLE` right after a hang-up that only
schedules the stop, and a timer that a failed answer left armed creates a data pump
whenever it expires.  Every other path keeps the state word, the pump, the bit routines
and the process together.
-/

import DModem.Modem.StepRule

namespace DModem

namespace Desk

/-- In `STATE_MODEM_IDLE` there is no data pump, and nothing that would serve one. -/
def Uncalled (d : Desk) : Prop :=
  d.state = .modemIdle →
    d.dp = none ∧ d.getBits = none ∧ d.putBits = none ∧ d.process ≠ some .dp

section Uncalled

variable {d d' : Desk}

theorem uncalled_of_busy (busy : d.state ≠ .modemIdle) : d.Uncalled :=
  fun idle => absurd idle busy

theorem Uncalled.busy (kept : d.Uncalled) (pumps : d.Pumps) : d.state ≠ .modemIdle :=
  fun idle => pumps.2 (kept idle).1

theorem Uncalled.ended (kept : d.Uncalled) (ended : Ended d d') : d'.Uncalled := by
  intro _
  refine ⟨ended.dp, ended.getBits fun idle => (kept idle).2.1,
    ended.putBits fun idle => (kept idle).2.2.1, ?_⟩
  rw [ended.process]
  decide

theorem Uncalled.hup (kept : d.Uncalled) (release : Bool) : (d.hup release).Uncalled := by
  rcases hup_cases d release with
    ⟨_, same⟩ | ⟨_, same⟩ | ⟨_, _, state, _, _, _, _, disc, _, same⟩
  · rw [same]
    exact kept
  · rw [same]
    exact uncalled_of_busy (by simp)
  · rw [same]
    apply uncalled_of_busy
    simp only
    intro idle
    rw [idle] at disc
    cases disc

theorem Uncalled.fail (kept : d.Uncalled) (code : ModemResult) (release : Bool) :
    (d.fail code release).Uncalled :=
  Uncalled.hup (d := { d with resultCode := code }) kept release

theorem Uncalled.unprocessed (kept : d.Uncalled) : Uncalled { d with process := none } := by
  intro idle
  have free := kept idle
  exact ⟨free.1, free.2.1, free.2.2.1, by simp⟩

theorem uncalled_link (d : Desk) : d.link.Uncalled := by
  rcases link_eq d with ⟨_, _, _, same⟩
  rw [same]
  exact uncalled_of_busy (by simp)

theorem uncalled_setState (d : Desk) (newState : ModemState) (busy : newState ≠ .modemIdle) :
    (d.setState newState).Uncalled := by
  rcases setState_frame d newState with ⟨_, _, _, same⟩
  rw [same]
  exact uncalled_of_busy busy

variable (device : Device)

theorem Uncalled.stop (kept : d.Uncalled) : (d.stop device).Uncalled :=
  kept.ended (Ended.stop d device)

theorem Uncalled.doStart (kept : d.Uncalled) : (d.doStart device).Uncalled := kept

theorem Uncalled.stopStarted (kept : d.Uncalled) : (d.stopStarted device).Uncalled := by
  rcases stopStarted_cases d device with ⟨_, same⟩ | ⟨_, same⟩
  · rw [same]
    exact kept
  · rw [same]
    exact kept.stop device

theorem uncalled_start
    (free : d.state = .modemIdle → d.getBits = none ∧ d.putBits = none) :
    (d.start device).1.Uncalled := by
  rcases start_cases d device with ⟨_, _, opened⟩ | ⟨_, _, ended, _⟩
  · apply uncalled_of_busy
    rw [opened.state]
    decide
  · intro _
    refine ⟨ended.dp, ended.getBits fun idle => (free idle).1,
      ended.putBits fun idle => (free idle).2, ?_⟩
    rw [ended.process]
    decide

theorem Uncalled.answer (kept : d.Uncalled) : (d.answer device).1.Uncalled := by
  rcases answer_cases d device with ⟨_, same⟩ | ⟨_, due, _, same⟩
  · rw [same]
    exact kept
  · rw [same]
    apply uncalled_start
    intro idle
    have stopped := kept.stopStarted device idle
    exact ⟨stopped.2.1, stopped.2.2.1⟩

theorem Uncalled.dial (kept : d.Uncalled) : (d.dial device).Uncalled := by
  rcases dial_cases d device with ⟨_, same⟩ | ⟨_, same⟩ | ⟨_, same⟩
  · rw [same]
    exact kept
  · rw [same]
    exact kept.stopStarted device
  · rw [same]
    apply uncalled_start
    intro idle
    have stopped := kept.stopStarted device idle
    exact ⟨stopped.2.1, stopped.2.2.1⟩

theorem Uncalled.setHook (kept : d.Uncalled) (hookState : Hook) :
    (d.setHook device hookState).Uncalled := by
  unfold Desk.setHook
  split
  · exact kept
  · exact kept

theorem Uncalled.voiceStop (kept : d.Uncalled) : (d.voiceStop device).Uncalled := by
  unfold Desk.voiceStop
  apply Uncalled.setHook
  apply Uncalled.stop
  exact kept.unprocessed

theorem Uncalled.setMode (kept : d.Uncalled) (mode : ModemMode) :
    (d.setMode device mode).Uncalled := by
  unfold Desk.setMode
  split
  · exact kept
  · split
    · exact kept.voiceStop device
    · exact kept

theorem Uncalled.other (kept : d.Uncalled) (process : Process) (other : process ≠ .dp) :
    Uncalled { d with process := some process } := by
  intro idle
  have free := kept idle
  refine ⟨free.1, free.2.1, free.2.2.1, ?_⟩
  intro same
  exact other (Option.some.inj same)

theorem Uncalled.voiceStart (kept : d.Uncalled) : (d.voiceStart device).Uncalled := by
  unfold Desk.voiceStart
  split
  · exact kept
  · split
    · exact kept
    · have stopped := kept.stopStarted device
      generalize d.stopStarted device = e at stopped
      simp only
      split
      · exact stopped
      · apply Uncalled.doStart
        apply Uncalled.setHook
        exact stopped.other .voice (by decide)

theorem Uncalled.cidStart (kept : d.Uncalled) (timeout : Nat) :
    (d.cidStart device timeout).Uncalled := by
  unfold Desk.cidStart
  split
  · exact kept
  · split
    · exact kept
    · split
      · exact kept
      · apply Uncalled.doStart
        apply Uncalled.setHook
        exact kept.other .cid (by decide)

theorem Uncalled.ringDetectorStart (kept : d.Uncalled) :
    (d.ringDetectorStart device).Uncalled := by
  unfold Desk.ringDetectorStart
  split
  · exact kept
  · apply Uncalled.doStart
    apply Uncalled.setHook
    exact kept.other .ringDetector (by decide)

theorem Uncalled.answerRings (kept : d.Uncalled) : (d.answerRings device).Uncalled := by
  unfold Desk.answerRings
  split
  · exact Uncalled.answer (d := d.setRings 0) device kept
  · exact kept

theorem Uncalled.cidStop (kept : d.Uncalled) : (d.cidStop device).Uncalled := by
  unfold Desk.cidStop
  apply Uncalled.answerRings
  split
  · exact kept
  · apply Uncalled.stop
    exact kept.unprocessed

theorem Uncalled.cidProcess (kept : d.Uncalled) (status : Int) :
    (d.cidProcess device status).Uncalled := by
  unfold Desk.cidProcess
  split
  · exact kept.cidStop device
  · exact kept

theorem Uncalled.faxStart (kept : d.Uncalled) : (d.faxStart device).Uncalled := by
  unfold Desk.faxStart
  split
  · exact kept.other .fax (by decide)
  · exact kept

/-- `do_modem_change_dp` must not make a pump in the idle state. -/
theorem Uncalled.changeDp (kept : d.Uncalled) (ec : Bool)
    (calm : d.state = .modemIdle → d.mode = .fax ∨ device.dp = none) :
    (d.changeDp device ec).Uncalled := by
  unfold Desk.changeDp
  split
  · have faxed := kept.faxStart device
    intro idle
    exact ⟨rfl, (faxed idle).2⟩
  · rename_i data
    cases made : device.dp with
    | none => exact kept.hup ec
    | some id =>
        apply uncalled_of_busy
        intro idle
        rcases calm idle with fax | none
        · exact data fax
        · rw [made] at none
          cases none

theorem Uncalled.callTimer (kept : d.Uncalled) (ec : Bool) (func : SampleTimerFunc)
    (calm : d.state = .modemIdle → func = .doModemChangeDp → d.mode = .fax ∨ device.dp = none) :
    (d.callTimer device ec func).Uncalled := by
  cases func with
  | runModemStop => exact kept.stop device
  | doModemChangeDp => exact kept.changeDp device ec fun idle => calm idle rfl
  | modemCidStop => exact kept.cidStop device

/-- `modem_reset` must not find a data call. -/
theorem Uncalled.reset (kept : d.Uncalled) (ec : Bool)
    (calm : d.state ≠ .modemIdle → d.dp = none ∧ d.process ≠ some .dp) :
    (d.reset device ec).Uncalled := by
  unfold Desk.reset
  simp only
  apply Uncalled.setMode
  have closed : ∀ e : Desk, (e.state = .modemIdle → e.getBits = none ∧ e.putBits = none) →
      e.dp = none → e.process ≠ some .dp → (e.setState .modemIdle).Uncalled := by
    intro e free pump process
    rw [setState_idle]
    intro _
    refine ⟨pump, ?_, ?_, process⟩
    · simp only
      split
      · exact (free (by assumption)).1
      · rfl
    · simp only
      split
      · exact (free (by assumption)).2
      · rfl
  have whole : ∀ e : Desk, e.Uncalled → e.dp = none → e.process ≠ some .dp →
      (e.setState .modemIdle).Uncalled := by
    intro e uncalled
    apply closed
    intro idle
    exact ⟨(uncalled idle).2.1, (uncalled idle).2.2.1⟩
  change Uncalled (setState _ _)
  split
  · rename_i busy
    have free := calm busy
    apply whole _ (kept.hup ec)
    · rcases hup_cases d ec with ⟨_, same⟩ | ⟨_, same⟩ | ⟨_, _, _, _, _, _, _, _, _, same⟩
      · rw [same]
        exact free.1
      · rw [same]
        exact free.1
      · rw [same]
        exact free.1
    · rcases hup_cases d ec with ⟨_, same⟩ | ⟨_, same⟩ | ⟨_, _, _, _, _, _, _, _, _, same⟩
      · rw [same]
        exact free.2
      · rw [same]
        exact free.2
      · rw [same]
        exact free.2
  · rename_i idle
    have free := kept (not_not.mp idle)
    split
    · have ended := Ended.stop d device
      apply whole _ (kept.ended ended) ended.dp
      rw [ended.process]
      decide
    · split
      · have hooked := kept.setHook device .on
        apply whole _ hooked
        · unfold Desk.setHook
          split <;> exact free.1
        · unfold Desk.setHook
          split <;> exact free.2.2.2
      · exact whole _ kept free.1 free.2.2.2

end Uncalled

end Desk

namespace Modem

/-! ### Runs -/

/-- The sample timer expires within `count` samples. -/
def timerDue (m : Modem) (count : Nat) : Bool :=
  decide (m.sampleTimer ≠ 0 ∧ m.sampleTimer ≤ m.count + count)

/-- `do_modem_change_dp` called in `STATE_MODEM_IDLE` would make a pump. -/
def pumpsIdle (m : Modem) (device : Device) : Bool :=
  decide (m.state = .modemIdle ∧ m.sampleTimerFunc = some .doModemChangeDp ∧ m.mode ≠ .fax ∧
    device.dp ≠ none)

/-- `modem_reset` called now would leave a data call behind. -/
def resetsCall (m : Modem) (c : Call) : Bool :=
  decide (c = .reset ∧ m.state ≠ .modemIdle ∧ (m.dp ≠ none ∨ m.process = some .dp))

/-- The step does not leave a call without its state. -/
def ClosesCalls (m : Modem) : Event → Bool
  | .samples count device => !(m.timerDue count && m.pumpsIdle device)
  | .readFails device => !m.pumpsIdle device
  | event => (m.callsOf event).all fun made => !made.1.resetsCall made.2.1

theorem uncalled_call {m : Modem} (c : Call) (device : Device) (kept : m.desk.Uncalled)
    (calm : m.resetsCall c = false) : (m.desk.call device m.cfg.ec c).Uncalled := by
  cases c with
  | answer => exact kept.answer device
  | dial => exact kept.dial device
  | hook hookState =>
      unfold Desk.call Desk.hookCall
      simp only
      split
      · exact kept
      · exact Desk.Uncalled.setHook device (kept.hup _) hookState
  | online =>
      unfold Desk.call Desk.online
      simp only
      split
      · exact kept
      · exact Desk.uncalled_link _
  | reset =>
      apply kept.reset device
      intro busy
      have free : ¬(m.state ≠ .modemIdle ∧ (m.dp ≠ none ∨ m.process = some .dp)) := by
        simpa [resetsCall] using calm
      constructor
      · by_contra pump
        exact free ⟨busy, Or.inl pump⟩
      · intro process
        exact free ⟨busy, Or.inr process⟩
  | setMode mode => exact kept.setMode device mode
  | setCid requested => exact kept
  | voiceDevice line =>
      unfold Desk.call Desk.voiceSetDevice
      simp only
      split
      · split
        · exact kept.voiceStart device
        · split
          · exact kept.voiceStop device
          · exact kept
      · exact kept
  | voiceCommand =>
      unfold Desk.call
      simp only
      split
      · exact kept
      · exact kept
  | setSreg num val => exact kept
  | send bytes => exact kept

theorem uncalled_samples {m : Modem} (count : Nat) (device : Device) (kept : m.desk.Uncalled)
    (calm : (m.timerDue count && m.pumpsIdle device) = false) :
    (m.desk.countSamples device m.cfg.ec count).Uncalled := by
  unfold Desk.countSamples
  simp only
  split
  · rename_i due
    cases func : m.desk.sampleTimerFunc with
    | none => exact kept
    | some callback =>
        apply Desk.Uncalled.callTimer (d := Desk.expire { m.desk with count := m.count + count })
        · exact kept
        · intro idle change
          subst change
          by_contra makes
          rw [not_or] at makes
          have timer : m.timerDue count = true := decide_eq_true due
          have pump : m.pumpsIdle device = true := decide_eq_true ⟨idle, func, makes.1, makes.2⟩
          rw [timer, pump] at calm
          cases calm
  · exact kept

theorem uncalled_readFails {m : Modem} (device : Device) (kept : m.desk.Uncalled)
    (calm : m.pumpsIdle device = false) :
    (m.desk.forceHangup device m.cfg.ec).Uncalled := by
  have hung := kept.hup m.cfg.ec
  have forced : ((m.desk.hup m.cfg.ec).forceTimer device m.cfg.ec).Uncalled := by
    unfold Desk.forceTimer
    cases func : (m.desk.hup m.cfg.ec).sampleTimerFunc with
    | none => exact hung
    | some callback =>
        apply hung.callTimer
        intro idle change
        subst change
        -- a hang-up in any other state schedules the stop
        rcases Desk.hup_cases m.desk m.cfg.ec with
          ⟨_, same⟩ | ⟨_, same⟩ | ⟨_, _, _, _, _, _, _, disc, _, same⟩
        · rw [same] at func idle ⊢
          by_contra makes
          rw [not_or] at makes
          have pump : m.pumpsIdle device = true := decide_eq_true ⟨idle, func, makes.1, makes.2⟩
          rw [pump] at calm
          cases calm
        · rw [same] at idle
          cases idle
        · rw [same] at idle
          simp only at idle
          rw [idle] at disc
          cases disc
  exact forced

theorem uncalledSafe :
    StepSafe Desk.Uncalled (fun m event => m.ClosesCalls event = true)
      (fun m c _ => m.resetsCall c = false) where
  bits := fun _ _ kept _ => kept
  untimed := fun kept _ _ => kept
  hup := fun release kept => kept.hup release
  fail := fun code release kept _ => kept.fail code release
  drop := fun kept _ => kept.unprocessed
  pack := fun _ _ _ kept pumps _ => Desk.uncalled_of_busy (kept.busy pumps)
  frame := by
    intro m f chars kept pumps _
    have safe := lapmSafe_of (P := Desk.Uncalled) (fun _ _ kept _ => kept)
      (fun code release kept _ => kept.fail code release) (fun _ _ => Desk.uncalled_link _)
    exact (safe.rxComplete ⟨kept, pumps⟩ f chars).1
  finish := fun _ _ _ _ _ _ _ => Desk.uncalled_link _
  connect := fun _ _ _ _ _ => ⟨Desk.uncalled_setState _ .ecEstab (by decide), Desk.uncalled_link _⟩
  change := fun device kept pumps _ =>
    kept.changeDp device _ fun idle => absurd idle (kept.busy pumps)
  escaped := fun _ _ => Desk.uncalled_setState _ .commandOnline (by decide)
  rings := fun _ kept => kept
  ringCheck := by
    intro m device kept _ _
    exact Desk.Uncalled.answer (d := m.desk.setRings 0) device kept
  ring := fun _ device kept _ _ => kept.cidStart device _
  ringDetectorStart := fun device kept _ _ => kept.ringDetectorStart device
  select := by
    intro m kept _
    unfold Desk.setFds
    split
    · exact kept
    · exact kept
  readFails := by
    intro m device kept fine _
    rw [ClosesCalls, Bool.not_eq_true'] at fine
    exact uncalled_readFails device kept fine
  cidStatus := fun status device kept _ _ => kept.cidProcess device status
  ringDetails := by
    intro m details status now device kept _ _
    have ready : (m.deskRung details now device).Uncalled := by
      unfold deskRung
      split
      · exact kept.cidStart device _
      · exact kept
    split
    · exact ready.cidProcess device status
    · exact ready
  voiceStatus := by
    intro m status device kept _ _
    unfold Desk.voiceProcess
    split_ifs
    · exact kept
    · exact kept
    · exact kept
    · exact kept.voiceStop device
    · exact kept
  faxStatus := by
    intro m ret device kept _ _
    unfold Desk.faxProcess
    split_ifs
    · exact Desk.uncalled_setState _ .commandOnline (by decide)
    · exact Desk.uncalled_link m.desk
    · exact Desk.uncalled_setState _ .commandOnline (by decide)
    · exact kept.fail _ _
    · exact kept.stop device
    · exact kept
  samples := by
    intro m count device kept fine
    rw [ClosesCalls, Bool.not_eq_true'] at fine
    exact uncalled_samples count device kept fine
  call := fun c device kept calm => uncalled_call c device kept calm
  calls := by
    intro m bytes now lines fine made member
    have all := List.all_eq_true.mp fine made member
    simpa using all

/-- In every state of a run that ends its calls before it forgets them, idle means that
there is no call. -/
theorem idle_uncalled (events : List Event)
    (closes : modemCreate.Along (fun m event => m.ClosesCalls event = true) events) :
    ∀ before, before <+: events → (modemCreate.blockRun before).desk.Uncalled := by
  apply uncalledSafe.run _ closes
  intro _
  exact ⟨rfl, rfl, rfl, by decide⟩

theorem idle_uncalled_after_hangup :
    let events := answeredCall ++ [.hangup, .samples 48 obedient]
    (modemCreate.blockRun events).state = .modemIdle ∧ (modemCreate.blockRun events).desk.Uncalled := by
  intro events
  constructor
  · decide +kernel
  · apply idle_uncalled events
    · decide +kernel
    · exact List.prefix_refl _

/-- ATZ after the escape sequence leaves an idle modem with a data pump, whose link puts it
online again. -/
theorem reset_keeps_pump :
    let events := answeredCall ++
      [.write [43, 43, 43] 100 [], .escape,
        .write [65, 84, 90, 13] 300 [{ calls := [(.reset, obedient)], ret := 0 }]]
    (modemCreate.blockRun events).state = .modemIdle ∧ (modemCreate.blockRun events).dp = some .v21 ∧
      ¬(modemCreate.blockRun events).desk.Uncalled ∧
      (modemCreate.blockRun (events ++ [.dpStat .connect obedient])).state = .modemOnline := by
  intro events
  have idle : (modemCreate.blockRun events).state = .modemIdle := by decide +kernel
  have pump : (modemCreate.blockRun events).dp = some .v21 := by decide +kernel
  refine ⟨idle, pump, ?_, by decide +kernel⟩
  intro uncalled
  have none := (uncalled idle).1
  have same : (modemCreate.blockRun events).desk.dp = some .v21 := pump
  rw [same] at none
  cases none

end Modem

end DModem
