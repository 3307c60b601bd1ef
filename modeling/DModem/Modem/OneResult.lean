/-
The results of a command line.

`modem_at_process` prints OK or ERROR for a line, and a call that the line makes may have
printed a result before.  Settings print one at most; A, D and O come last.
-/

import DModem.Modem.CommandLine
import DModem.Modem.Results

namespace DModem

/-! ### Quiet -/

namespace Modem

def Call.leavesQuiet (quiet : Bool) : Call → Bool
  | .setSreg num val => if num = sregQuiet then val != 0 else quiet
  | .reset => false
  | _ => quiet

def AtLine.endsQuiet (line : AtLine) (quiet : Bool) : Bool :=
  line.calls.foldl (fun quiet made => made.1.leavesQuiet quiet) quiet

end Modem

namespace Desk

section Quiet

variable (d : Desk) (device : Device)

/-- S14. -/
def quiet : UInt8 := d.sregs sregQuiet

theorem quiet_stop : (d.stop device).quiet = d.quiet := by
  rw [stop_eq]
  rfl

theorem quiet_stopStarted : (d.stopStarted device).quiet = d.quiet := by
  unfold stopStarted
  split
  · exact quiet_stop d device
  · rfl

theorem quiet_setState (newState : ModemState) : (d.setState newState).quiet = d.quiet := by
  obtain ⟨command, getBits, putBits, same⟩ := setState_frame d newState
  rw [same]
  rfl

theorem quiet_setHook (hookState : Hook) : (d.setHook device hookState).quiet = d.quiet := by
  unfold setHook
  split <;> rfl

theorem quiet_hup (release : Bool) : (d.hup release).quiet = d.quiet := by
  rcases hup_cases d release with ⟨-, same⟩ | ⟨-, same⟩ | ⟨-, -, _, _, _, _, _, -, -, same⟩
  · rw [same]
  · rw [same]
    rfl
  · rw [same]
    rfl

theorem quiet_clearRings : d.clearRings.quiet = d.quiet := by
  have apart : sregQuiet ≠ sregRingCounter := by decide
  exact Function.update_of_ne apart 0 d.sregs

theorem quiet_startObjects : (d.startObjects device).1.quiet = d.quiet := by
  unfold startObjects
  split
  · exact quiet_stop { d with resultCode := .nocarrier } device
  · split
    · exact quiet_clearRings d
    · exact (quiet_stop { d.clearRings.doStart device with resultCode := .nocarrier } device).trans
        (quiet_clearRings d)

theorem quiet_startStopped : (d.startStopped device).1.quiet = d.quiet := by
  unfold startStopped
  have begun := quiet_setState { d with resultCode := .ok } .dpEstab
  simp only
  generalize setState { d with resultCode := .ok } .dpEstab = ready at begun
  split
  · exact (quiet_startObjects { ready with hook := .off, command := false } device).trans begun
  · exact (quiet_stop { ready with resultCode := .nocarrier } device).trans begun

theorem quiet_start : (d.start device).1.quiet = d.quiet := by
  unfold start
  simp only
  split
  · have stopped := quiet_stop { d with starts := d.starts + 1 } device
    split
    · exact stopped
    · exact (quiet_startStopped _ device).trans stopped
  · exact quiet_startStopped { d with starts := d.starts + 1 } device

theorem quiet_answer : (d.answer device).1.quiet = d.quiet := by
  rcases answer_cases d device with ⟨-, same⟩ | ⟨-, due, -, same⟩
  · rw [same]
  · rw [same, quiet_start]
    exact quiet_stopStarted d device

theorem quiet_dial : (d.dial device).quiet = d.quiet := by
  rcases dial_cases d device with ⟨-, same⟩ | ⟨-, same⟩ | ⟨-, same⟩
  · rw [same]
  · rw [same]
    exact quiet_stopStarted d device
  · rw [same, quiet_start]
    exact quiet_stopStarted d device

theorem quiet_online : d.online.quiet = d.quiet := by
  unfold online
  split
  · rfl
  · obtain ⟨command, getBits, putBits, same⟩ := link_eq d
    rw [same]
    rfl

theorem quiet_voiceStop : (d.voiceStop device).quiet = d.quiet :=
  (quiet_setHook _ device .on).trans
    (quiet_stop { clearTimer { d with process := none } with voiceObj := false } device)

theorem quiet_voiceStart : (d.voiceStart device).quiet = d.quiet := by
  unfold voiceStart
  split
  · rfl
  · split
    · rfl
    · have stopped := quiet_stopStarted d device
      simp only
      split
      · exact stopped
      · exact (quiet_setHook
          { clearTimer { d.stopStarted device with voiceObj := true } with process := some .voice }
          device .off).trans stopped

theorem quiet_setMode (mode : ModemMode) : (d.setMode device mode).quiet = d.quiet := by
  unfold setMode
  split
  · rfl
  · split
    · exact quiet_voiceStop d device
    · rfl

theorem quiet_reset (ec : Bool) : (d.reset device ec).quiet = 0 := by
  unfold reset
  simp only
  rw [quiet_setMode]
  rfl

theorem quiet_call (ec : Bool) (c : Modem.Call) :
    ((d.call device ec c).quiet != 0) = c.leavesQuiet (d.quiet != 0) := by
  cases c with
  | answer => exact congrArg (· != 0) (quiet_answer d device)
  | dial => exact congrArg (· != 0) (quiet_dial d device)
  | online => exact congrArg (· != 0) (quiet_online d)
  | reset => exact congrArg (· != 0) (quiet_reset d device ec)
  | setMode mode => exact congrArg (· != 0) (quiet_setMode d device mode)
  | hook hookState =>
      change ((if d.hook = hookState then d else (d.hup ec).setHook device hookState).quiet != 0) =
        (d.quiet != 0)
      split
      · rfl
      · exact congrArg (· != 0) ((quiet_setHook _ device hookState).trans (quiet_hup d ec))
  | voiceDevice line =>
      change ((if d.mode = .voice then d.voiceSetDevice device line else d).quiet != 0) =
        (d.quiet != 0)
      unfold voiceSetDevice
      split
      · split
        · exact congrArg (· != 0) (quiet_voiceStart d device)
        · split
          · exact congrArg (· != 0) (quiet_voiceStop d device)
          · rfl
      · rfl
  | voiceCommand =>
      change ((if d.mode = .voice ∧ d.voiceObj then { d with command := false } else d).quiet !=
        0) = (d.quiet != 0)
      split <;> rfl
  | setSreg num val =>
      change (Function.update d.sregs num val sregQuiet != 0) =
        if num = sregQuiet then val != 0 else d.sregs sregQuiet != 0
      split
      · rename_i same
        rw [same, Function.update_self]
      · rename_i other
        rw [Function.update_of_ne (Ne.symm other)]
  | setCid | send => rfl

end Quiet

end Desk

namespace Modem

section Line

variable (m : Modem) (device : Device)

theorem isQuiet_call (c : Call) : (m.call device c).isQuiet = c.leavesQuiet m.isQuiet := by
  have registers := Desk.quiet_call m.desk device m.cfg.ec c
  rw [← desk_call] at registers
  exact registers

theorem isQuiet_line (line : AtLine) :
    (m.processAtCommand line).isQuiet = line.endsQuiet m.isQuiet := by
  unfold processAtCommand AtLine.endsQuiet
  induction line.calls generalizing m with
  | nil => rfl
  | cons made calls ih => rw [List.foldl_cons, ih, isQuiet_call, List.foldl_cons]

/-! ### The calls of a line -/

def lineResults (calls : List (Call × Device)) : Nat :=
  ((m.callTrace calls).map fun made => made.1.callResults made.2.2 made.2.1).sum

/-- No call of the line prints a result in the state in which it is made. -/
def Silent (line : AtLine) : Prop :=
  ∀ made ∈ m.callTrace line.calls, made.1.speaks made.2.2 made.2.1 = false

theorem results_line (line : AtLine) :
    (m.processAtCommand line).results = m.results + m.lineResults line.calls := by
  unfold processAtCommand lineResults
  induction line.calls generalizing m with
  | nil => rfl
  | cons made calls ih =>
      rw [List.foldl_cons, ih, results_call, callTrace.eq_2, List.map_cons, List.sum_cons,
        Nat.add_assoc]

theorem trace_append (calls later : List (Call × Device)) :
    m.callTrace (calls ++ later) =
      m.callTrace calls ++
        (calls.foldl (fun m step => m.call step.2 step.1) m).callTrace later := by
  induction calls generalizing m with
  | nil => rfl
  | cons made calls ih =>
      rw [List.cons_append, callTrace.eq_2, ih, callTrace.eq_2, List.cons_append, List.foldl_cons]

variable {m device}

theorem callResults_zero (c : Call) :
    m.callResults device c = 0 ↔ m.speaks device c = false := by
  cases c with
  | answer =>
      unfold callResults speaks
      cases m.dp.isNone <;> cases m.started && m.pends <;> cases m.startError device <;> simp
  | dial =>
      unfold callResults speaks
      cases m.dp.isNone <;> cases m.started && m.pends <;>
        cases device.dp.isSome && m.startError device <;> simp
  | hook | online | reset | setMode | setCid | voiceDevice | voiceCommand | setSreg | send =>
      exact Bool.toNat_eq_zero

theorem lineResults_zero (line : AtLine) : m.lineResults line.calls = 0 ↔ m.Silent line := by
  unfold lineResults Silent
  rw [List.sum_eq_zero_iff, List.forall_mem_map]
  constructor
  · intro none made member
    exact (callResults_zero _).mp (none made member)
  · intro silent made member
    exact (callResults_zero _).mpr (silent made member)

theorem atRest_settings {line : AtLine} (rest : m.desk.AtRest) (each : line.AllSettings) :
    m.Silent line ∧ (m.processAtCommand line).desk.AtRest := by
  obtain ⟨calls, ret⟩ := line
  unfold Silent processAtCommand
  unfold AtLine.AllSettings at each
  simp only at each ⊢
  induction calls generalizing m with
  | nil => exact ⟨fun _ absent => absurd absent List.not_mem_nil, rest⟩
  | cons made calls ih =>
      obtain ⟨setting, settings⟩ := List.forall_mem_cons.mp each
      obtain ⟨silent, still⟩ := ih (atRest_call rest setting) settings
      exact ⟨List.forall_mem_cons.mpr ⟨silent_of_atRest rest setting, silent⟩, still⟩

theorem settings_cases {line : AtLine} (each : line.AllSettings) :
    m.Silent line ∨
      m.lineResults line.calls = 1 ∧ (m.processAtCommand line).desk.AtRest := by
  obtain ⟨calls, ret⟩ := line
  unfold processAtCommand
  unfold AtLine.AllSettings at each
  simp only at each ⊢
  induction calls generalizing m with
  | nil => exact Or.inl fun _ absent => absurd absent List.not_mem_nil
  | cons made calls ih =>
      obtain ⟨setting, settings⟩ := List.forall_mem_cons.mp each
      have counted : m.lineResults (made :: calls) =
          m.callResults made.2 made.1 + (m.call made.2 made.1).lineResults calls := rfl
      cases speaks : m.speaks made.2 made.1 with
      | true =>
          -- the first result leaves the modem at rest, so that it is the last
          have one : m.callResults made.2 made.1 = 1 := by
            rw [callResults_setting setting, speaks]
            rfl
          have rest := atRest_speaks setting speaks
          have later : AtLine.AllSettings { calls := calls, ret := ret } := settings
          obtain ⟨silent, still⟩ := atRest_settings rest later
          have none := (lineResults_zero _).mpr silent
          exact Or.inr ⟨by rw [counted, one, none], still⟩
      | false =>
          have none := (callResults_zero made.1).mpr speaks
          rcases ih settings with silent | ⟨one, rest⟩
          · exact Or.inl (List.forall_mem_cons.mpr ⟨speaks, silent⟩)
          · exact Or.inr ⟨by rw [counted, none, one], rest⟩

/-! ### A, D and O -/

theorem answers_start : (m.modemStart device).2 = m.desk.canStart device := by
  have same : (m.modemStart device).2 = (m.desk.start device).2 :=
    congrArg Prod.snd (desk_start m device)
  rw [same]
  rcases Desk.start_cases m.desk device with ⟨can, done, -⟩ | ⟨cannot, failed, -⟩
  · rw [can, done]
  · rw [cannot, failed]

theorem startError_canStart (can : m.desk.canStart device = true) :
    m.startError device = false := by
  unfold Desk.canStart at can
  simp only [Bool.and_eq_true] at can
  obtain ⟨⟨⟨⟨-, hook⟩, runtime⟩, comp⟩, start⟩ := can
  have lifts : (decide (m.hook = .off) || device.hook) = true := hook
  have packs : (m.desk.compresses && !device.comp) = false := by
    cases compresses : m.desk.compresses with
    | false => rfl
    | true =>
        rw [compresses, Bool.not_true, Bool.or_false] at comp
        rw [comp]
        rfl
  unfold startError startFails
  rw [lifts, runtime, packs, start]
  simp

theorem answered_answer (answered : (m.modemAnswer device).2 = true) :
    m.startError device = false := by
  apply startError_canStart
  have same : (m.modemAnswer device).2 = (m.desk.answer device).2 :=
    congrArg Prod.snd (desk_answer m device)
  rw [same] at answered
  unfold Desk.answer at answered
  split at answered
  · cases answered
  · rw [← Desk.canStart_stopStarted]
    generalize m.desk.stopStarted device = ready at answered ⊢
    rcases Desk.start_cases (ready.arm _ _) device with ⟨can, -, -⟩ | ⟨-, failed, -⟩
    · exact can
    · rw [failed] at answered
      cases answered

theorem answered_dial (answered : (m.modemDial device).2 = true) :
    m.startError device = false := by
  apply startError_canStart
  have dialled := desk_dialStart m device
  unfold modemDial at answered
  simp only at answered
  generalize m.modemDialStart device = started at answered dialled
  split at answered
  · rename_i ready
    rw [answers_start] at answered
    have desk : started.1.desk = (m.desk.dialStart device).1 := congrArg Prod.fst dialled
    have dials : started.2 = (m.desk.dialStart device).2 := congrArg Prod.snd dialled
    rw [desk] at answered
    rw [dials] at ready
    unfold Desk.dialStart at answered ready
    split at answered
    · rename_i refused
      rw [if_pos refused] at ready
      cases ready
    · rename_i free
      rw [if_neg free] at ready
      rw [← Desk.canStart_stopStarted]
      cases pump : device.dp with
      | none =>
          rw [pump] at ready
          cases ready
      | some id =>
          rw [pump] at answered
          exact answered
  · cases answered

theorem callResults_answered {final : Call} (connects : final.isSetting = false)
    (answered : m.answers device final = true) :
    m.callResults device final ≤ 1 ∧ (m.desk.AtRest → m.callResults device final = 0) := by
  cases final with
  | answer =>
      have fine := answered_answer answered
      unfold callResults
      simp only
      rw [fine, Bool.and_false, Bool.toNat_false, Nat.add_zero]
      refine ⟨Bool.toNat_le _, fun rest => ?_⟩
      rw [AtRest.pends rest, Bool.and_false, Bool.and_false]
      rfl
  | dial =>
      have fine := answered_dial answered
      unfold callResults
      simp only
      rw [fine, Bool.and_false, Bool.and_false, Bool.toNat_false, Nat.add_zero]
      refine ⟨Bool.toNat_le _, fun rest => ?_⟩
      rw [AtRest.pends rest, Bool.and_false, Bool.and_false]
      rfl
  | online =>
      refine ⟨Bool.toNat_le _, fun rest => ?_⟩
      have idle : m.state = .modemIdle := rest.state
      have refused : m.modemOnline.2 = false := by
        unfold modemOnline
        rw [idle]
        rfl
      exact absurd (answered.symm.trans refused) (by decide)
  | hook | reset | setMode | setCid | voiceDevice | voiceCommand | setSreg | send => cases connects

/-- A quiet modem prints nothing at `A`, `D` and `O`. -/
theorem silent_of_quiet {final : Call} (connects : final.isSetting = false)
    (quiet : m.isQuiet = true) : m.speaks device final = false := by
  have pends : m.pends = false := by
    unfold pends
    rw [quiet]
    exact Bool.and_false _
  have fine : m.startError device = false := by
    unfold startError
    rw [quiet]
    exact Bool.and_false _
  cases final with
  | answer =>
      unfold speaks
      simp only
      rw [pends, fine, Bool.and_false, Bool.or_false, Bool.and_false]
  | dial =>
      unfold speaks
      simp only
      rw [pends, fine, Bool.and_false, Bool.and_false, Bool.or_false, Bool.and_false]
  | online =>
      unfold speaks
      simp only
      rw [quiet]
      exact Bool.and_false _
  | hook | reset | setMode | setCid | voiceDevice | voiceCommand | setSreg | send => cases connects

/-! ### The line -/

/-- The end of a line prints at most one result, and exactly one if the command fails. -/
def OneFinalResult (m : Modem) (line : AtLine) (later : List AtLine) : Prop :=
  (m.atEndLine (line :: later)).1.results ≤ m.results + 1 ∧
    (m.closeLine.notCommand = false → line.ret < 0 →
      (m.atEndLine (line :: later)).1.results = m.results + 1)

/-- A line that is accepted is silent, or quiet at its end; one that fails is silent exactly if
it is not quiet at its end.  A line that goes on without OK needs nothing. -/
def PrintsOnce (m : Modem) (line : AtLine) : Prop :=
  0 < line.ret ∨
    line.ret = 0 ∧ (line.endsQuiet m.isQuiet = true ∨ m.Silent line) ∨
    line.ret < 0 ∧ (m.Silent line ↔ line.endsQuiet m.isQuiet = false)

theorem results_echoIf (bytes : List UInt8) : (m.echoIf bytes).results = m.results := by
  unfold echoIf
  split
  · exact List.countP_append
  · rfl

theorem results_eraseLine : m.eraseLine.results = m.results := by
  unfold eraseLine
  exact (results_echoIf _).trans ((results_echoIf _).trans (results_echoIf _))

theorem results_finishLine (ret : Int) :
    (m.finishLine ret).results = m.results + (decide (ret ≤ 0) && !m.isQuiet).toNat := by
  unfold finishLine
  by_cases fails : ret < 0
  · rw [if_pos fails, decide_eq_true (le_of_lt fails)]
    exact results_printed m .error
  · rw [if_neg fails]
    by_cases fine : ret = 0
    · rw [if_pos fine, decide_eq_true (le_of_eq fine)]
      exact results_printed m .ok
    · rw [if_neg fine, decide_eq_false (by omega)]
      rfl

theorem results_endLine (line : AtLine) (later : List AtLine) :
    (m.atEndLine (line :: later)).1.results =
      m.results + if m.closeLine.notCommand then 0
        else (m.closeLine.echoIf m.crlf).lineResults line.calls +
          (decide (line.ret ≤ 0) &&
            !line.endsQuiet (m.closeLine.echoIf m.crlf).isQuiet).toNat := by
  unfold atEndLine
  simp only
  by_cases other : m.closeLine.notCommand = true
  · rw [if_pos other, if_pos other]
    exact results_eraseLine
  · rw [if_neg other, if_neg other]
    simp only [List.headD_cons]
    rw [results_finishLine, results_line, results_echoIf, isQuiet_line, ← Nat.add_assoc]
    rfl

theorem once_iff {printed : Nat} {ret : Int} {quiet : Bool} {silent : Prop}
    (none : printed = 0 ↔ silent) (few : printed ≤ 1 ∨ ret < 0 ∧ quiet = false) :
    (printed + (decide (ret ≤ 0) && !quiet).toNat ≤ 1 ∧
        (ret < 0 → printed + (decide (ret ≤ 0) && !quiet).toNat = 1)) ↔
      0 < ret ∨ ret = 0 ∧ (quiet = true ∨ silent) ∨ ret < 0 ∧ (silent ↔ quiet = false) := by
  rw [← none]
  rcases lt_trichotomy ret 0 with fails | fine | goes
  · have reports : decide (ret ≤ 0) = true := decide_eq_true (le_of_lt fails)
    have notFine : ret ≠ 0 := ne_of_lt fails
    have stops : ¬0 < ret := not_lt_of_gt fails
    cases quiet with
    | true =>
        have few : printed ≤ 1 := by simpa using few
        simp only [reports, fails, notFine, stops, Bool.not_true, Bool.and_false,
          Bool.toNat_false, Nat.add_zero, true_implies, false_and, true_and, false_or,
          Bool.true_eq_false, iff_false]
        omega
    | false =>
        simp only [reports, fails, notFine, stops, Bool.not_false, Bool.and_true,
          Bool.toNat_true, true_implies, false_and, true_and, false_or, iff_true]
        omega
  · subst fine
    have few : printed ≤ 1 := few.resolve_right fun fails => absurd fails.1 (lt_irrefl 0)
    cases quiet with
    | true => simpa using few
    | false => simp
  · have silent : decide (ret ≤ 0) = false := decide_eq_false (by omega)
    have few : printed ≤ 1 := few.resolve_right fun fails => absurd fails.1 (by omega)
    have stops : ¬ret < 0 := not_lt_of_gt goes
    simp [silent, few, goes, stops]

theorem lineResults_last (calls : List (Call × Device)) (final : Call) (device : Device) :
    m.lineResults (calls ++ [(final, device)]) =
      m.lineResults calls +
        (calls.foldl (fun m step => m.call step.2 step.1) m).callResults device final := by
  unfold lineResults
  rw [trace_append, List.map_append, List.sum_append]
  rfl

theorem endsQuiet_last {line : AtLine} {final : Call} {device : Device} {ret : Int}
    (connects : final.isSetting = false) (quiet : Bool) :
    (line.andThen { calls := [(final, device)], ret := ret }).endsQuiet quiet =
      line.endsQuiet quiet := by
  unfold AtLine.endsQuiet AtLine.andThen
  rw [List.foldl_append]
  cases final with
  | answer | dial | online => rfl
  | hook | reset | setMode | setCid | voiceDevice | voiceCommand | setSreg | send => cases connects

theorem settings_few {line : AtLine} (each : line.AllSettings) : m.lineResults line.calls ≤ 1 := by
  rcases settings_cases each with silent | ⟨one, -⟩
  · rw [(lineResults_zero line).mpr silent]
    exact Nat.zero_le 1
  · exact le_of_eq one

theorem made_few {line : AtLine} (made : line.Made m) :
    m.lineResults line.calls ≤ 1 ∨ line.ret < 0 ∧ line.endsQuiet m.isQuiet = false := by
  cases made with
  | settings each => exact Or.inl (settings_few each)
  | @last settings final device each connects =>
      have counted : m.lineResults (settings.andThen
          { calls := [(final, device)]
            ret := if (m.processAtCommand settings).answers device final then 1 else -1 }).calls =
          m.lineResults settings.calls +
            (m.processAtCommand settings).callResults device final :=
        lineResults_last settings.calls final device
      rw [counted, endsQuiet_last connects, ← isQuiet_line]
      cases answered : (m.processAtCommand settings).answers device final with
      | true =>
          obtain ⟨most, idle⟩ := callResults_answered connects answered
          apply Or.inl
          rcases settings_cases each with silent | ⟨one, rest⟩
          · rw [(lineResults_zero settings).mpr silent, Nat.zero_add]
            exact most
          · rw [one, idle rest]
      | false =>
          cases quiet : (m.processAtCommand settings).isQuiet with
          | false => exact Or.inr ⟨neg_one_lt_zero, rfl⟩
          | true =>
              have silent : (m.processAtCommand settings).callResults device final = 0 :=
                (callResults_zero final).mpr (silent_of_quiet connects quiet)
              apply Or.inl
              rw [silent]
              exact settings_few each

theorem made_iff {line : AtLine} (later : List AtLine)
    (made : line.Made (m.closeLine.echoIf m.crlf)) :
    m.OneFinalResult line later ↔
      m.closeLine.notCommand = true ∨ (m.closeLine.echoIf m.crlf).PrintsOnce line := by
  unfold OneFinalResult PrintsOnce
  rw [results_endLine]
  cases other : m.closeLine.notCommand with
  | true => simp
  | false =>
      have once := once_iff (lineResults_zero line) (made_few made)
      simp only [Bool.false_eq_true, if_false, false_or, true_implies]
      rw [← once, Nat.add_le_add_iff_left, Nat.add_left_cancel_iff]

/-- **One final result.** What `process_at_command` does with a line is a list of calls with a
result, and the end of the line prints one result, as it should, if and only if none of the
calls prints one before OK or ERROR, and a line that fails is not quiet. -/
theorem one_final_result_iff {board : At.Board} {c : At.Console} {text : List UInt8}
    {run : At.Run} (m : Modem) (later : List AtLine)
    (ready : c.modem = m.closeLine.echoIf m.crlf)
    (ran : At.processAtCommand board c text = some run) :
    ∃ line : AtLine, line.Made c.modem ∧ c.modem.processAtCommand line = run.console.modem ∧
      line.ret = run.ret ∧
      (m.OneFinalResult line later ↔
        m.closeLine.notCommand = true ∨ c.modem.PrintsOnce line) := by
  obtain ⟨line, made, same, ret⟩ := At.processAtCommand_makes ran
  refine ⟨line, made, same, ret, ?_⟩
  rw [ready] at made ⊢
  exact made_iff later made

end Line

/-- `ATA` that is answered prints no result. -/
theorem answer_reports_once :
    ∃ line : AtLine, line.ret = 1 ∧ typedAnswer.OneFinalResult line [] := by
  have runs : (At.processAtCommand At.plainBoard
      { At.freshConsole with modem := typedAnswer.closeLine.echoIf typedAnswer.crlf }
      [65, 84, 65, 0]).map At.Run.ret = some 1 := by decide +kernel
  obtain ⟨run, ran, ret⟩ := Option.map_eq_some_iff.mp runs
  obtain ⟨line, -, -, same, once⟩ := one_final_result_iff typedAnswer [] rfl ran
  have answered : line.ret = 1 := same.trans ret
  refine ⟨line, answered, once.mpr (Or.inr (Or.inl ?_))⟩
  rw [answered]
  decide

def refusing : Device := { obedient with start := false }

/-- `ATA` fails: NO CARRIER comes from `modem_start`, ERROR from `modem_at_process`. -/
theorem answer_reports_twice :
    (At.processAtCommand { At.plainBoard with device := fun _ => refusing }
        { At.freshConsole with modem := typedAnswer.closeLine.echoIf typedAnswer.crlf }
        [65, 84, 65, 0]).map At.Run.ret = some (-1) ∧
      ¬ typedAnswer.OneFinalResult { calls := [(.answer, refusing)], ret := -1 } [] := by
  unfold OneFinalResult
  decide +kernel

end Modem

end DModem
