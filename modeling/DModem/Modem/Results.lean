/-
What a call of the command interpreter prints.

`modem_stop` prints the result that is pending, the error path of `modem_start` NO CARRIER,
`modem_online` CONNECT, each unless the modem is quiet.  A setting prints one result at most,
and leaves the modem at rest then.
-/

import DModem.At.Settings
import DModem.Modem.Cause
import DModem.Modem.Tty

namespace DModem

def Output.isResult : Output → Bool
  | .result _ => true
  | _ => false

namespace Modem

def results (m : Modem) : Nat := m.out.countP Output.isResult

/-- `modem_stop` prints a result. -/
def pends (m : Modem) : Bool := decide (m.resultCode ≠ .ok) && !m.isQuiet

/-- `modem_start` does not get to its end. -/
def startFails (m : Modem) (device : Device) : Bool :=
  !(decide (m.hook = .off) || device.hook) || !device.runtime ||
    (m.desk.compresses && !device.comp) || !device.start

/-- `modem_start` prints NO CARRIER. -/
def startError (m : Modem) (device : Device) : Bool :=
  (!m.started || device.stop) && m.startFails device && !m.isQuiet

/-- `modem_set_mode` ends a voice session and prints a result. -/
def leavesVoice (m : Modem) (mode : ModemMode) : Bool :=
  decide (m.mode ≠ mode ∧ m.mode = .voice) && m.voiceObj && m.pends

def resetSregs (m : Modem) : Modem := { m with sregs := sregsInit m.sregs }

def speaks (m : Modem) (device : Device) : Call → Bool
  | .answer => m.dp.isNone && (m.started && m.pends || m.startError device)
  | .dial => m.dp.isNone && (m.started && m.pends || device.dp.isSome && m.startError device)
  | .online => decide (m.state = .commandOnline) && !m.isQuiet
  | .reset =>
      if m.state ≠ .modemIdle then (m.modemHup true).resetSregs.leavesVoice .data
      else if m.started then m.pends
      else m.resetSregs.leavesVoice .data
  | .setMode mode => m.leavesVoice mode
  | .voiceDevice line =>
      decide (m.mode = .voice) && (if line then !m.voiceObj && (m.started && m.rdObj)
        else m.voiceObj) && m.pends
  | .hook _ | .setCid _ | .voiceCommand | .setSreg .. | .send _ => false

/-- The results that a call prints; only `A` and `D` may print two. -/
def callResults (m : Modem) (device : Device) : Call → Nat
  | .answer =>
      (m.dp.isNone && (m.started && m.pends)).toNat + (m.dp.isNone && m.startError device).toNat
  | .dial =>
      (m.dp.isNone && (m.started && m.pends)).toNat +
        (m.dp.isNone && (device.dp.isSome && m.startError device)).toNat
  | c => (m.speaks device c).toNat

section Frame

variable (m : Modem) (device : Device)

theorem results_of_out {m m' : Modem} (out : m'.out = m.out) : m'.results = m.results :=
  congrArg (List.countP Output.isResult) out

theorem out_setState (newState : ModemState) : (m.modemSetState newState).out = m.out := by
  obtain ⟨state, command, getChars, putChars, getBits, putBits, same⟩ := m.setState_frame newState
  rw [same]

theorem out_setHook (hookState : Hook) : (m.modemSetHook device hookState).1.out = m.out := by
  unfold modemSetHook
  split_ifs <;> rfl

theorem out_putCtrl (bytes : List UInt8) : (m.putCtrl bytes).out = m.out := by
  unfold putCtrl
  split <;> rfl

theorem out_ecStop : m.modemEcStop.out = m.out :=
  out_putCtrl (setPhase { m with bitTimer := 0, packerProcess := false } .disc) _

theorem out_defaultResult : m.defaultResult.out = m.out := by
  unfold defaultResult
  split <;> rfl

theorem out_scheduled : m.defaultResult.scheduleModemStop.out = m.out := out_defaultResult m

theorem out_hup (isLocal : Bool) : (m.modemHup isLocal).out = m.out := by
  unfold modemHup
  cases m.state with
  | modemIdle | dpDisc => rfl
  | dpEstab => exact (out_scheduled _).trans (out_setState m .dpDisc)
  | ecDisc => exact out_setState m .dpDisc
  | ecEstab | modemOnline | commandOnline =>
      simp only
      split
      · exact (out_scheduled _).trans ((out_setState _ .ecDisc).trans (out_ecStop m))
      · exact (out_scheduled _).trans (out_setState m .dpDisc)

theorem results_printed (code : ModemResult) :
    (m.modemReportResult code).results = m.results + (!m.isQuiet).toNat := by
  rw [report_eq]
  unfold results printed
  rw [List.countP_append]
  cases m.isQuiet with
  | true => rfl
  | false => rfl

theorem results_stop : (m.modemStop device).results = m.results + m.pends.toNat := by
  unfold results pends
  rw [out_modemStop, List.countP_append]
  unfold printed
  by_cases none : m.resultCode = .ok
  · rw [if_pos none, none]
    rfl
  · rw [if_neg none, decide_eq_true none]
    cases m.isQuiet with
    | true => rfl
    | false => rfl

theorem results_startError :
    (m.modemStartError device).1.results = m.results + (!m.isQuiet).toNat :=
  results_stop { m with resultCode := .nocarrier } device

theorem isQuiet_of_sregs {m m' : Modem} (sregs : m'.sregs = m.sregs) : m'.isQuiet = m.isQuiet :=
  congrArg (fun sregs : Nat → UInt8 => sregs sregQuiet != 0) sregs

theorem isQuiet_clearRings : m.clearRings.isQuiet = m.isQuiet := by
  have apart : sregQuiet ≠ sregRingCounter := by decide
  unfold isQuiet clearRings
  simp [apart]

theorem results_startObjects (comp : (m.cfg.ec && m.cfg.comp != 0) = m.desk.compresses) :
    (m.modemStartObjects device).1.results =
      m.results + ((!device.runtime || (m.desk.compresses && !device.comp) || !device.start) &&
        !m.isQuiet).toNat := by
  unfold modemStartObjects
  rw [comp]
  cases device.runtime with
  | false => exact results_startError m device
  | true =>
      simp only [Bool.not_true, Bool.false_or, Bool.false_eq_true, if_false]
      cases refused : m.desk.compresses && !device.comp with
      | true => exact results_startError m device
      | false =>
          simp only [Bool.false_or]
          rw [if_neg Bool.false_ne_true]
          have first : (if m.desk.compresses = true then m.modemCompInit else m).results =
              m.results ∧
              (if m.desk.compresses = true then m.modemCompInit else m).isQuiet = m.isQuiet := by
            split
            · exact ⟨rfl, rfl⟩
            · exact ⟨rfl, rfl⟩
          generalize (if m.desk.compresses = true then m.modemCompInit else m) = packed at first ⊢
          have second : (if packed.cfg.ec = true then packed.lapmInit else packed).results =
              m.results ∧
              (if packed.cfg.ec = true then packed.lapmInit else packed).isQuiet =
                m.isQuiet := by
            split
            · exact first
            · exact first
          generalize (if packed.cfg.ec = true then packed.lapmInit else packed) = built
            at second ⊢
          have opened : (built.clearRings.doModemStart device).1.results = m.results := second.1
          have quiet : (built.clearRings.doModemStart device).1.isQuiet = m.isQuiet :=
            (isQuiet_clearRings built).trans second.2
          have answer : (built.clearRings.doModemStart device).2 = device.start := rfl
          generalize built.clearRings.doModemStart device = started at opened quiet answer ⊢
          rw [← answer]
          cases started.2 with
          | true => exact opened
          | false =>
              have reported := results_startError started.1 device
              rw [opened, quiet] at reported
              exact reported

theorem setHook_sregs (hookState : Hook) :
    (m.modemSetHook device hookState).1.sregs = m.sregs := by
  unfold modemSetHook
  split_ifs <;> rfl

/-- `modem_start` with the hook off. -/
theorem results_startHooked {raised : Modem} (registers : raised.sregs = m.sregs)
    (config : (raised.cfg.ec && raised.cfg.comp != 0) = m.desk.compresses)
    (out : raised.out = m.out) :
    (modemStartObjects { raised with xmit := [], command := false } device).1.results =
      m.results + ((!true || !device.runtime || (m.desk.compresses && !device.comp) ||
        !device.start) && !m.isQuiet).toNat := by
  have same : (desk { raised with xmit := [], command := false }).compresses =
      m.desk.compresses :=
    congrArg (fun sregs : Nat → UInt8 => sregs sregEc != 0 && sregs sregComp != 0) registers
  have quiet : isQuiet { raised with xmit := [], command := false } = m.isQuiet :=
    isQuiet_of_sregs registers
  have objects := results_startObjects { raised with xmit := [], command := false } device
    (config.trans same.symm)
  have kept : results { raised with xmit := [], command := false } = m.results :=
    results_of_out out
  rw [same, kept, quiet] at objects
  rw [objects, Bool.not_true, Bool.false_or]

theorem results_startStopped :
    (m.modemStartStopped device).1.results =
      m.results + (m.startFails device && !m.isQuiet).toNat := by
  have compresses := setupConfig_compresses { m with resultCode := .ok }
  obtain ⟨state, command, getChars, putChars, getBits, putBits, same⟩ :=
    (modemSetupConfig { m with resultCode := .ok }).setState_frame .dpEstab
  have ready : ∀ begun : Modem, begun = (modemSetupConfig { m with resultCode := .ok }
      ).modemSetState .dpEstab → begun.out = m.out ∧ begun.hook = m.hook ∧
        begun.sregs = m.sregs ∧ (begun.cfg.ec && begun.cfg.comp != 0) = m.desk.compresses := by
    rintro begun rfl
    rw [same]
    exact ⟨rfl, rfl, rfl, compresses⟩
  obtain ⟨out, hook, sregs, config⟩ := ready _ rfl
  unfold modemStartStopped startFails
  simp only
  generalize (modemSetupConfig { m with resultCode := .ok }).modemSetState .dpEstab = begun
    at out hook sregs config ⊢
  rw [← hook]
  have registers : (begun.modemSetHook device .off).1.sregs = m.sregs :=
    (setHook_sregs begun device .off).trans sregs
  have lifted : (begun.modemSetHook device .off).1.out = m.out :=
    (out_setHook begun device .off).trans out
  by_cases off : begun.hook = .off ∨ device.hook = true
  · have obeys : (decide (begun.hook = .off) || device.hook) = true := by simpa using off
    rw [if_pos ((setHook_obeys begun device .off).mpr off), obeys]
    have kept := setHook_cfg begun device .off
    exact results_startHooked m device registers (by rw [kept, config]) lifted
  · have refuses : (decide (begun.hook = .off) || device.hook) = false := by
      rw [Bool.or_eq_false_iff, decide_eq_false_iff_not]
      exact ⟨fun hook => off (Or.inl hook),
        Bool.eq_false_iff.mpr fun obeys => off (Or.inr obeys)⟩
    rw [if_neg (fun obeys => off ((setHook_obeys begun device .off).mp obeys)), refuses,
      results_startError, results_of_out lifted, isQuiet_of_sregs registers]
    rfl

/-! ### The calls -/

theorem sregs_stop : (m.modemStop device).sregs = m.sregs := by
  have same : (m.modemStop device).desk.sregs = m.sregs := by
    rw [desk_stop, Desk.stop_eq]
    rfl
  exact same

theorem startFails_stop : (m.modemStop device).startFails device = m.startFails device := by
  have sregs : (m.modemStop device).desk.compresses = m.desk.compresses := by
    rw [desk_stop, Desk.stop_eq]
    rfl
  unfold startFails
  rw [hook_stop, sregs]
  cases device.hook with
  | true => simp
  | false => simp

theorem pends_stop : (m.modemStop device).pends = false := by
  have none : (m.modemStop device).desk.resultCode = .ok := by rw [desk_stop, Desk.stop_eq]
  have code : (m.modemStop device).resultCode = .ok := none
  unfold pends
  rw [code]
  rfl

theorem startError_stop : (m.modemStop device).startError device = m.startError device := by
  unfold startError
  rw [started_stop, startFails_stop, isQuiet_of_sregs (sregs_stop m device)]
  cases m.started with
  | true => cases device.stop <;> rfl
  | false => rfl

theorem startError_idle (idle : m.started = false) :
    m.startError device = (m.startFails device && !m.isQuiet) := by
  unfold startError
  rw [idle]
  rfl

theorem results_startCounted :
    (if m.started then
        if (m.modemStop device).started then (m.modemStop device, false)
        else (m.modemStop device).modemStartStopped device
      else m.modemStartStopped device).1.results =
      m.results + ((m.started && m.pends).toNat + (m.startError device).toNat) := by
  by_cases running : m.started = true
  · rw [if_pos running, running, Bool.true_and, ← startError_stop, ← Nat.add_assoc,
      ← results_stop m device]
    by_cases stuck : (m.modemStop device).started = true
    · have refuses : device.stop = false := by
        rw [started_stop, running] at stuck
        simpa using stuck
      have none : (m.modemStop device).startError device = false := by
        unfold startError
        rw [stuck, refuses]
        rfl
      rw [if_pos stuck, none]
      rfl
    · rw [if_neg stuck, results_startStopped, startError_idle _ _ (Bool.eq_false_iff.mpr stuck)]
  · have idle := Bool.eq_false_iff.mpr running
    rw [if_neg running, results_startStopped, idle, startError_idle _ _ idle]
    simp

theorem results_start :
    (m.modemStart device).1.results =
      m.results + ((m.started && m.pends).toNat + (m.startError device).toNat) :=
  results_startCounted { m with starts := m.starts + 1 } device

/-- `if (m->started) modem_stop(m)`, and what is to come of a start after it. -/
theorem results_stopped :
    (if m.started then m.modemStop device else m).results =
        m.results + (m.started && m.pends).toNat ∧
      ((if m.started then m.modemStop device else m).started &&
        (if m.started then m.modemStop device else m).pends) = false ∧
      (if m.started then m.modemStop device else m).startError device = m.startError device := by
  by_cases running : m.started = true
  · rw [if_pos running, running, pends_stop, Bool.true_and, Bool.and_false]
    exact ⟨results_stop m device, rfl, startError_stop m device⟩
  · have idle := Bool.eq_false_iff.mpr running
    rw [if_neg running, idle]
    exact ⟨rfl, rfl, rfl⟩

/-- A start after `if (m->started) modem_stop(m)`. -/
theorem results_restart {ready armed : Modem}
    (stopped : ready.results = m.results + (m.started && m.pends).toNat ∧
      (ready.started && ready.pends) = false ∧ ready.startError device = m.startError device)
    (results : armed.results = ready.results)
    (pending : (armed.started && armed.pends) = (ready.started && ready.pends))
    (begins : armed.startError device = ready.startError device) :
    (armed.modemStart device).1.results =
      m.results + ((m.started && m.pends).toNat + (m.startError device).toNat) := by
  rw [results_start, results, pending, begins, stopped.1, stopped.2.1, stopped.2.2,
    Bool.toNat_false, Nat.zero_add, Nat.add_assoc]

theorem results_answer :
    (m.modemAnswer device).1.results = m.results + m.callResults device .answer := by
  unfold modemAnswer callResults
  cases pump : m.dp with
  | none =>
      have stopped := results_stopped m device
      simp only [ne_eq, not_true_eq_false, if_false, Option.isNone_none, Bool.true_and]
      generalize (if m.started then m.modemStop device else m) = ready at stopped
      exact results_restart m device stopped rfl rfl rfl
  | some id => rfl

theorem results_dial :
    (m.modemDial device).1.results = m.results + m.callResults device .dial := by
  unfold modemDial modemDialStart callResults
  cases pump : m.dp with
  | none =>
      have stopped := results_stopped m device
      simp only [ne_eq, not_true_eq_false, if_false, Option.isNone_none, Bool.true_and]
      generalize (if m.started then m.modemStop device else m) = ready at stopped
      cases device.dp with
      | none => exact stopped.1
      | some id => exact results_restart m device stopped rfl rfl rfl
  | some id => rfl

theorem results_voiceStop :
    (m.modemVoiceStop device).results = m.results + m.pends.toNat := by
  unfold modemVoiceStop
  rw [results_of_out (out_setHook _ device .on), results_stop]
  rfl

theorem results_setMode (mode : ModemMode) :
    (m.modemSetMode mode device).results = m.results + (m.leavesVoice mode).toNat := by
  unfold modemSetMode
  by_cases same : m.mode = mode
  · have keeps : m.leavesVoice mode = false := by
      unfold leavesVoice
      rw [decide_eq_false fun changes => changes.1 same]
      rfl
    rw [if_pos same, keeps]
    rfl
  · have stopped :
        (if m.mode = .voice ∧ m.voiceObj = true then m.modemVoiceStop device else m).results =
          m.results + (m.leavesVoice mode).toNat := by
      unfold leavesVoice
      by_cases voice : m.mode = .voice ∧ m.voiceObj = true
      · have leaves : (decide (m.mode ≠ mode ∧ m.mode = .voice) && m.voiceObj && m.pends) =
            m.pends := by
          rw [decide_eq_true ⟨same, voice.1⟩, voice.2]
          rfl
        rw [if_pos voice, leaves]
        exact results_voiceStop m device
      · have keeps : (decide (m.mode ≠ mode ∧ m.mode = .voice) && m.voiceObj) = false := by
          rw [Bool.and_eq_false_iff, decide_eq_false_iff_not, ← Bool.not_eq_true]
          by_cases other : m.mode = .voice
          · exact Or.inr fun object => voice ⟨other, object⟩
          · exact Or.inl fun changes => other changes.2
        rw [if_neg voice, keeps]
        rfl
    rw [if_neg same, ← stopped]
    rfl

/-- What `modem_reset` does to the state and the registers. -/
def cleared (m : Modem) : Modem :=
  { m.modemSetState .modemIdle with command := true, sregs := sregsInit m.sregs }

theorem cleared_same : m.cleared.results = m.results ∧
    m.cleared.leavesVoice .data = m.resetSregs.leavesVoice .data := by
  unfold cleared
  obtain ⟨state, command, getChars, putChars, getBits, putBits, same⟩ := m.setState_frame .modemIdle
  rw [same]
  exact ⟨rfl, rfl⟩

/-- The end of `modem_reset`. -/
theorem results_clear :
    (m.cleared.modemSetMode .data device).results =
      m.results + (m.resetSregs.leavesVoice .data).toNat := by
  rw [results_setMode, m.cleared_same.1, m.cleared_same.2]

theorem reset_eq :
    m.modemReset device =
      (if m.state ≠ .modemIdle then m.modemHup true
        else if m.started then m.modemStop device
        else if m.hook ≠ .on then (m.modemSetHook device .on).1
        else m).cleared.modemSetMode .data device := by
  have registers (ready : Modem) : (ready.modemSetState .modemIdle).sregs = ready.sregs := by
    obtain ⟨state, command, getChars, putChars, getBits, putBits, same⟩ :=
      ready.setState_frame .modemIdle
    rw [same]
  unfold modemReset cleared
  simp only
  rw [registers]

theorem results_reset :
    (m.modemReset device).results = m.results + m.callResults device .reset := by
  unfold callResults speaks
  simp only
  rw [reset_eq]
  by_cases idle : m.state = .modemIdle
  · rw [if_neg (not_not.mpr idle), if_neg (not_not.mpr idle)]
    by_cases running : m.started = true
    · rw [if_pos running, if_pos running, results_clear, results_stop]
      have closed : (m.modemStop device).resetSregs.leavesVoice .data = false := by
        have none : (m.modemStop device).desk.resultCode = .ok := by rw [desk_stop, Desk.stop_eq]
        have code : (m.modemStop device).resetSregs.resultCode = .ok := none
        unfold leavesVoice pends
        rw [code]
        simp
      rw [closed]
      rfl
    · rw [if_neg running, if_neg running, results_clear]
      by_cases hook : m.hook = .on
      · rw [if_neg (not_not.mpr hook)]
      · rw [if_pos hook]
        have kept := results_of_out (out_setHook m device .on)
        rw [kept]
        unfold modemSetHook
        split_ifs <;> rfl
  · rw [if_pos idle, if_pos idle, results_clear, results_of_out (out_hup m true)]

theorem results_voiceBegin :
    (if !device.voice then (m, false)
      else
        (modemSetHook { clearSampleTimer { m with voiceObj := true } with process := some .voice }
          device .off).1.doModemStart device).1.results = m.results := by
  cases device.voice with
  | false => rfl
  | true =>
      exact results_of_out (out_setHook
        { clearSampleTimer { m with voiceObj := true } with process := some .voice } device .off)

theorem results_voiceStart :
    (m.modemVoiceStart device).1.results =
      m.results + (!m.voiceObj && (m.started && m.rdObj) && m.pends).toNat := by
  unfold modemVoiceStart
  by_cases object : m.voiceObj = true
  · rw [if_pos object, object]
    rfl
  · rw [if_neg object, Bool.eq_false_iff.mpr object]
    by_cases refuses : (m.started && !m.rdObj) = true
    · have none : (m.started && m.rdObj) = false := by
        cases running : m.started <;> simp_all
      rw [if_pos refuses, none]
      rfl
    · rw [if_neg refuses]
      have stopped := (results_stopped m device).1
      have pending : (!false && (m.started && m.rdObj) && m.pends) = (m.started && m.pends) := by
        cases running : m.started <;> simp_all
      rw [pending, ← stopped]
      exact results_voiceBegin (if m.started then m.modemStop device else m) device

theorem results_voiceDevice (line : Bool) :
    (m.call device (.voiceDevice line)).results =
      m.results + (m.speaks device (.voiceDevice line)).toNat := by
  change (if m.mode = .voice then m.modemVoiceSetDevice line device else m).results = _
  unfold speaks
  by_cases voice : m.mode = .voice
  · simp only [if_pos voice, decide_eq_true voice, Bool.true_and]
    unfold modemVoiceSetDevice
    cases line with
    | true => exact results_voiceStart m device
    | false =>
        simp only [Bool.false_eq_true, if_false]
        cases m.voiceObj with
        | true => exact results_voiceStop m device
        | false => rfl
  · simp only [if_neg voice, decide_eq_false voice, Bool.false_and]
    rfl

theorem results_hook (hookState : Hook) : (m.modemHook device hookState).1.results = m.results := by
  unfold modemHook
  split
  · rfl
  · refine results_of_out ((out_setHook _ device hookState).trans ?_)
    split
    · exact out_hup m true
    · rfl

theorem results_online :
    m.modemOnline.1.results =
      m.results + (decide (m.state = .commandOnline) && !m.isQuiet).toNat := by
  unfold modemOnline
  by_cases waits : m.state = .commandOnline
  · rw [if_neg (not_not.mpr waits), decide_eq_true waits, results_printed]
    obtain ⟨state, command, getChars, putChars, getBits, putBits, same⟩ :=
      setState_frame { m with command := false } .modemOnline
    rw [same]
    rfl
  · rw [if_pos waits, decide_eq_false waits]
    rfl

theorem results_call (c : Call) :
    (m.call device c).results = m.results + m.callResults device c := by
  cases c with
  | answer => exact results_answer m device
  | dial => exact results_dial m device
  | hook hookState => exact results_hook m device hookState
  | online => exact results_online m
  | reset => exact results_reset m device
  | setMode mode => exact results_setMode m device mode
  | voiceDevice line => exact results_voiceDevice m device line
  | voiceCommand =>
      change (if m.mode = .voice then m.modemVoiceCommand else m).results = m.results
      unfold modemVoiceCommand
      split_ifs <;> rfl
  | setCid | setSreg => rfl
  | send bytes => exact List.countP_append

end Frame

end Modem

/-! ### Rest -/

structure Desk.AtRest (d : Desk) : Prop where
  state : d.state = .modemIdle
  code : d.resultCode = .ok

namespace Desk

variable {d : Desk} {device : Device}

theorem atRest_stop (d : Desk) (device : Device) : (d.stop device).AtRest := by
  rw [stop_eq]
  exact ⟨rfl, rfl⟩

theorem AtRest.setHook (rest : d.AtRest) (device : Device) (hookState : Hook) :
    (d.setHook device hookState).AtRest := by
  unfold Desk.setHook
  split
  · exact ⟨rest.state, rest.code⟩
  · exact rest

theorem atRest_voiceStop (d : Desk) (device : Device) : (d.voiceStop device).AtRest :=
  (atRest_stop _ device).setHook device .on

theorem AtRest.setMode (rest : d.AtRest) (mode : ModemMode) : (d.setMode device mode).AtRest := by
  unfold Desk.setMode
  split
  · exact rest
  · split
    · have stopped := atRest_voiceStop d device
      exact ⟨stopped.state, stopped.code⟩
    · exact ⟨rest.state, rest.code⟩

theorem AtRest.stopStarted (rest : d.AtRest) : (d.stopStarted device).AtRest := by
  unfold Desk.stopStarted
  split
  · exact atRest_stop d device
  · exact rest

/-- `modem_voice_start` once the device is stopped. -/
theorem AtRest.voiceBegin (rest : d.AtRest) :
    AtRest (if !device.voice then d
      else (Desk.setHook { clearTimer { d with voiceObj := true } with process := some .voice }
        device .off).doStart device) := by
  split
  · exact rest
  · have begun : AtRest { clearTimer { d with voiceObj := true } with process := some .voice } :=
      ⟨rest.state, rest.code⟩
    have lifted := begun.setHook device .off
    exact ⟨lifted.state, lifted.code⟩

theorem AtRest.voiceStart (rest : d.AtRest) : (d.voiceStart device).AtRest := by
  unfold Desk.voiceStart
  split
  · exact rest
  · split
    · exact rest
    · exact AtRest.voiceBegin rest.stopStarted

theorem AtRest.reset (rest : d.AtRest) (ec : Bool) : (d.reset device ec).AtRest := by
  unfold Desk.reset
  simp only
  apply AtRest.setMode
  have closed : ∀ e : Desk, e.AtRest → (e.setState .modemIdle).AtRest := by
    intro e kept
    rw [setState_idle]
    exact ⟨rfl, kept.code⟩
  rw [if_neg (not_not.mpr rest.state)]
  split
  · have stopped := closed _ (atRest_stop d device)
    exact ⟨stopped.state, stopped.code⟩
  · split
    · have hooked := closed _ (rest.setHook device .on)
      exact ⟨hooked.state, hooked.code⟩
    · have same := closed _ rest
      exact ⟨same.state, same.code⟩

theorem AtRest.call (rest : d.AtRest) (ec : Bool) {c : Modem.Call} (setting : c.isSetting = true) :
    (d.call device ec c).AtRest := by
  cases c with
  | answer | dial | online => cases setting
  | hook hookState =>
      change (if d.hook = hookState then d else (d.hup ec).setHook device hookState).AtRest
      have idle : d.hup ec = d := by
        unfold Desk.hup
        rw [rest.state]
      rw [idle]
      split
      · exact rest
      · exact rest.setHook device hookState
  | reset => exact rest.reset ec
  | setMode mode => exact rest.setMode mode
  | voiceDevice line =>
      change (if d.mode = .voice then d.voiceSetDevice device line else d).AtRest
      unfold Desk.voiceSetDevice
      split
      · split
        · exact rest.voiceStart
        · split
          · exact atRest_voiceStop d device
          · exact rest
      · exact rest
  | voiceCommand =>
      change (if d.mode = .voice ∧ d.voiceObj then { d with command := false } else d).AtRest
      split
      · exact ⟨rest.state, rest.code⟩
      · exact rest
  | setCid | setSreg | send => exact ⟨rest.state, rest.code⟩

end Desk

namespace Modem

section Rest

variable {m : Modem} {device : Device}

theorem atRest_leaves {mode : ModemMode} (leaves : m.leavesVoice mode = true) :
    (m.modemSetMode mode device).desk.AtRest := by
  unfold leavesVoice at leaves
  simp only [Bool.and_eq_true, decide_eq_true_eq] at leaves
  obtain ⟨⟨⟨other, voice⟩, object⟩, -⟩ := leaves
  have deskOther : ¬m.desk.mode = mode := other
  have deskVoice : m.desk.mode = .voice ∧ m.desk.voiceObj = true := ⟨voice, object⟩
  have stopped := Desk.atRest_voiceStop m.desk device
  rw [desk_setMode, Desk.setMode, if_neg deskOther, if_pos deskVoice]
  exact ⟨stopped.state, stopped.code⟩

theorem atRest_clear (leaves : m.resetSregs.leavesVoice .data = true) :
    (m.cleared.modemSetMode .data device).desk.AtRest :=
  atRest_leaves (m.cleared_same.2.trans leaves)

theorem atRest_reset (speaks : m.speaks device .reset = true) :
    (m.modemReset device).desk.AtRest := by
  unfold Modem.speaks at speaks
  rw [reset_eq]
  simp only at speaks
  split at speaks
  · rename_i busy
    rw [if_pos busy]
    exact atRest_clear speaks
  · rename_i idle
    rw [if_neg idle]
    split at speaks
    · rename_i running
      have stopped := Desk.atRest_stop m.desk device
      have closed : (m.modemStop device).cleared.desk.AtRest := by
        obtain ⟨state, command, getChars, putChars, getBits, putBits, same⟩ :=
          (m.modemStop device).setState_frame .modemIdle
        have idle := desk_setState (m.modemStop device) .modemIdle
        rw [desk_stop, Desk.setState_idle] at idle
        have state : ((m.modemStop device).modemSetState .modemIdle).desk.state = .modemIdle := by
          rw [idle]
        have code : ((m.modemStop device).modemSetState .modemIdle).desk.resultCode = .ok := by
          rw [idle]
          exact stopped.code
        exact ⟨state, code⟩
      rw [if_pos running, desk_setMode]
      exact closed.setMode .data
    · rename_i idle
      rw [if_neg idle]
      have same : (if m.hook ≠ .on then (m.modemSetHook device .on).1 else m
          ).resetSregs.leavesVoice .data = m.resetSregs.leavesVoice .data := by
        unfold modemSetHook
        split_ifs <;> rfl
      exact atRest_clear (same.trans speaks)

theorem callResults_setting {c : Call} (setting : c.isSetting = true) :
    m.callResults device c = (m.speaks device c).toNat := by
  cases c with
  | answer | dial | online => cases setting
  | hook | reset | setMode | setCid | voiceDevice | voiceCommand | setSreg | send => rfl

theorem atRest_speaks {c : Call} (setting : c.isSetting = true)
    (speaks : m.speaks device c = true) : (m.call device c).desk.AtRest := by
  cases c with
  | answer | dial | online => cases setting
  | reset => exact atRest_reset speaks
  | setMode mode => exact atRest_leaves speaks
  | voiceDevice line =>
      unfold Modem.speaks at speaks
      simp only [Bool.and_eq_true, decide_eq_true_eq] at speaks
      obtain ⟨⟨voice, stops⟩, -⟩ := speaks
      have deskVoice : m.desk.mode = .voice := voice
      rw [desk_call]
      unfold Desk.call Desk.voiceSetDevice
      simp only
      rw [if_pos deskVoice]
      cases line with
      | true =>
          simp only [if_true, Bool.and_eq_true, Bool.not_eq_eq_eq_not, Bool.not_true] at stops ⊢
          obtain ⟨object, running, ring⟩ := stops
          have deskObject : ¬m.desk.voiceObj = true := Bool.eq_false_iff.mp object
          have started : m.desk.started = true := running
          have detector : ¬(m.desk.started && !m.desk.rdObj) = true := by
            rw [started, show m.desk.rdObj = true from ring]
            decide
          unfold Desk.voiceStart Desk.stopStarted
          rw [if_neg deskObject, if_neg detector, if_pos started]
          exact (Desk.atRest_stop m.desk device).voiceBegin
      | false =>
          simp only [Bool.false_eq_true, if_false] at stops ⊢
          have deskObject : m.desk.voiceObj = true := stops
          rw [if_pos deskObject]
          exact Desk.atRest_voiceStop m.desk device
  | hook | setCid | voiceCommand | setSreg | send => cases speaks

theorem atRest_call (rest : m.desk.AtRest) {c : Call} (setting : c.isSetting = true) :
    (m.call device c).desk.AtRest := by
  rw [desk_call]
  exact rest.call m.cfg.ec setting

theorem AtRest.pends (rest : m.desk.AtRest) : m.pends = false := by
  have code : m.resultCode = .ok := rest.code
  unfold Modem.pends
  rw [code]
  rfl

theorem silent_of_atRest (rest : m.desk.AtRest) {c : Call} (setting : c.isSetting = true) :
    m.speaks device c = false := by
  have code : m.resultCode = .ok := rest.code
  have pends : m.pends = false := AtRest.pends rest
  have kept : m.resetSregs.pends = false := by
    have code : m.resetSregs.resultCode = .ok := code
    unfold Modem.pends
    rw [code]
    rfl
  cases c with
  | answer | dial | online => cases setting
  | reset =>
      have idle : ¬m.state ≠ .modemIdle := not_not.mpr rest.state
      unfold Modem.speaks
      simp only
      rw [if_neg idle]
      unfold leavesVoice
      rw [pends, kept, Bool.and_false, ite_self]
  | setMode mode =>
      unfold Modem.speaks leavesVoice
      simp only
      rw [pends, Bool.and_false]
  | voiceDevice line =>
      unfold Modem.speaks
      simp only
      rw [pends, Bool.and_false]
  | hook | setCid | voiceCommand | setSreg | send => rfl

end Rest

end Modem

end DModem
