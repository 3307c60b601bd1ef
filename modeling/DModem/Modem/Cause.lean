/-
The cause of a failure that is printed.

`modem_update_status` sets the result code for every status that ends a call, `modem_hup` only
where none is set.  What `modem_stop` prints is the last cause, not the first, and on a quiet
modem nothing.
-/

import DModem.Modem.StepRule

namespace DModem

def Status.cause (status : Status) : Option ModemResult :=
  match status with
  | .ok | .dpLink | .packLink | .ecLink => none
  | status => some (Modem.resultOf status)

/-- The causes among the reports of a call. -/
def causes (statuses : List Status) : List ModemResult := statuses.filterMap Status.cause

namespace Modem

/-- The statuses that `modem_update_status` gets one after the other; what else happens in
between leaves the result code alone. -/
inductive Reported : Modem → List Status → Modem → Prop
  | done {m m' : Modem} (same : m'.resultCode = m.resultCode) : Reported m [] m'
  | report {m m' m'' : Modem} {status : Status} {later : List Status}
      (same : m'.resultCode = m.resultCode)
      (rest : Reported (m'.modemUpdateStatus status) later m'') : Reported m (status :: later) m''

/-- `modem_stop` prints the first cause. -/
def PrintsFirst (statuses : List Status) (m : Modem) (device : Device) : Prop :=
  ∀ first, (causes statuses).head? = some first →
    (m.modemStop device).out = m.out ++ [.result first]

section Update

variable (m : Modem)

theorem result_desk : m.resultCode = m.desk.resultCode := rfl

theorem result_hup (isLocal : Bool) (known : m.resultCode ≠ .ok) :
    (m.modemHup isLocal).resultCode = m.resultCode := by
  have known' : m.desk.resultCode ≠ .ok := known
  rw [result_desk, desk_hup]
  rcases Desk.hup_cases m.desk (isLocal && m.cfg.ec) with
    ⟨-, same⟩ | ⟨-, same⟩ | ⟨-, -, state, getBits, putBits, bitTimer, func, -, -, same⟩
  · rw [same]
    rfl
  · rw [same]
    rfl
  · rw [same]
    exact if_neg known'

theorem result_fail (code : ModemResult) (isLocal : Bool) (cause : code ≠ .ok) :
    (modemHup { m with resultCode := code } isLocal).resultCode = code :=
  result_hup { m with resultCode := code } isLocal cause

theorem result_link (d : Desk) : d.link.resultCode = d.resultCode := by
  obtain ⟨command, getBits, putBits, link⟩ := Desk.link_eq d
  rw [link]

theorem result_packLink : m.packLink.resultCode = m.resultCode := by
  rw [result_desk, result_desk]
  rcases desk_packLink m with ⟨bitTimer, func, packed, -⟩ | ⟨-, linked⟩
  · rw [packed]
    rfl
  · rw [linked, result_link]
    rfl

theorem result_setState (newState : ModemState) :
    (m.modemSetState newState).resultCode = m.resultCode := by
  obtain ⟨state, command, getChars, putChars, getBits, putBits, same⟩ := m.setState_frame newState
  rw [same]

theorem result_detectorStart : m.modemDetectorStart.resultCode = m.resultCode := by
  unfold modemDetectorStart
  split <;> rfl

theorem result_dpLink : m.dpLink.resultCode = m.resultCode := by
  have missing : (if m.dp = none then m.logFault .dpLink else m).resultCode = m.resultCode := by
    split <;> rfl
  unfold dpLink
  simp only
  generalize (if m.dp = none then m.logFault .dpLink else m) = pump at missing
  have config : (if pump.dp.any DpId.nonEc then { pump with cfg := { pump.cfg with ec := false } }
      else pump).resultCode = m.resultCode := by
    split <;> exact missing
  generalize (if pump.dp.any DpId.nonEc then { pump with cfg := { pump.cfg with ec := false } }
    else pump) = chosen at config
  have begun := (result_setState chosen .ecEstab).trans config
  split
  · exact (result_detectorStart _).trans begun
  · exact (result_packLink _).trans begun

theorem result_ecLink : m.ecLink.resultCode = m.resultCode := by
  rw [result_desk, desk_ecLink, result_link]
  rfl

theorem result_update (status : Status) :
    (m.modemUpdateStatus status).resultCode = status.cause.getD m.resultCode := by
  cases status with
  | ok => rfl
  | dpLink => exact result_dpLink m
  | packLink => exact result_packLink m
  | ecLink => exact result_ecLink m
  | nocarrier | error | nodialtone | busy | noanswer | dpError | packError | ecRelease | ecError =>
      exact result_fail m _ _ (by decide)

end Update

section Reports

variable {m m' : Modem} {statuses : List Status}

theorem result_reported (reported : Reported m statuses m') :
    m'.resultCode = (causes statuses).getLast?.getD m.resultCode := by
  induction reported with
  | done same => exact same
  | @report m m' m'' status later same rest ih =>
      have set := result_update m' status
      rw [same] at set
      rw [ih, set]
      unfold causes
      cases cause : status.cause with
      | none => rw [List.filterMap_cons_none cause]; rfl
      | some code =>
          rw [List.filterMap_cons_some cause, List.getLast?_cons]
          simp

/-- Until it reports the result `modem_stop` does not touch the output. -/
theorem report_untouched (m : Modem) (device : Device) :
    ∃ idle : Modem, idle.out = m.out ∧ idle.resultCode = m.resultCode ∧ idle.sregs = m.sregs ∧
      m.modemStop device = idle.reportPending.endSession := by
  refine ⟨_, ?_, ?_, ?_, rfl⟩
  · obtain ⟨state, command, getChars, putChars, getBits, putBits, same⟩ :=
      ((driverStop { m with process := none } device).modemSetHook device .on).1.deleteObjects
        |>.setState_frame .modemIdle
    rw [same]
    change ((driverStop { m with process := none } device).modemSetHook device .on).1.out = _
    unfold modemSetHook driverStop
    split_ifs <;> rfl
  · rw [result_setState]
    change ((driverStop { m with process := none } device).modemSetHook device .on).1.resultCode = _
    unfold modemSetHook driverStop
    split_ifs <;> rfl
  · obtain ⟨state, command, getChars, putChars, getBits, putBits, same⟩ :=
      ((driverStop { m with process := none } device).modemSetHook device .on).1.deleteObjects
        |>.setState_frame .modemIdle
    rw [same]
    change ((driverStop { m with process := none } device).modemSetHook device .on).1.sregs = _
    unfold modemSetHook driverStop
    split_ifs <;> rfl

theorem out_modemStop (m : Modem) (device : Device) :
    (m.modemStop device).out =
      m.out ++ if m.resultCode = .ok then [] else m.printed m.resultCode := by
  obtain ⟨idle, out, code, sregs, stopped⟩ := report_untouched m device
  have same : m.printed m.resultCode = idle.printed idle.resultCode := by
    unfold printed isQuiet
    rw [sregs, code]
  rw [stopped, ← out, same, ← code]
  unfold reportPending
  by_cases pending : idle.resultCode = .ok
  · rw [if_pos pending, if_pos pending, List.append_nil]
    rfl
  · rw [if_neg pending, if_neg pending, report_eq]
    rfl

theorem causes_ne_ok {code : ModemResult} (member : code ∈ causes statuses) : code ≠ .ok := by
  obtain ⟨status, -, cause⟩ := List.mem_filterMap.mp member
  cases status with
  | ok | dpLink | packLink | ecLink => cases cause
  | nocarrier | error | nodialtone | busy | noanswer | dpError | packError | ecRelease | ecError =>
      cases cause
      decide

/-- A call that failed prints its first cause exactly if the modem is not quiet and that cause
is also the last. -/
theorem first_cause_printed_iff (fresh : m.resultCode = .ok) (reported : Reported m statuses m')
    (device : Device) :
    PrintsFirst statuses m' device ↔
      causes statuses = [] ∨
        m'.isQuiet = false ∧ (causes statuses).head? = (causes statuses).getLast? := by
  have code := result_reported reported
  rw [fresh] at code
  unfold PrintsFirst
  rw [out_modemStop, code]
  cases whole : causes statuses with
  | nil => simp
  | cons first rest =>
      obtain ⟨last, found⟩ : ∃ last, (first :: rest).getLast? = some last :=
        ⟨_, List.getLast?_eq_some_getLast (List.cons_ne_nil first rest)⟩
      have failed : last ≠ .ok := by
        have member := List.mem_of_getLast? found
        rw [← whole] at member
        exact causes_ne_ok member
      rw [found, Option.getD_some, if_neg failed, List.head?_cons]
      unfold printed
      constructor
      · intro prints
        have same := List.append_cancel_left (prints first rfl)
        cases quiet : m'.isQuiet with
        | true =>
            rw [quiet, if_pos rfl] at same
            cases same
        | false =>
            rw [quiet, if_neg Bool.false_ne_true] at same
            cases same
            exact Or.inr ⟨rfl, rfl⟩
      · rintro (none | ⟨quiet, same⟩) other begins
        · cases none
        · cases same
          cases begins
          rw [quiet, if_neg Bool.false_ne_true]

end Reports

def dialled : Modem := (modemCreate.modemDial obedient).1

theorem dialled_fresh : dialled.resultCode = .ok := by decide +kernel

theorem first_cause_printed_busy :
    PrintsFirst [.busy] (dialled.modemUpdateStatus .busy) obedient :=
  (first_cause_printed_iff dialled_fresh (.report rfl (.done rfl)) obedient).mpr
    (Or.inr ⟨by decide +kernel, rfl⟩)

/-- The line is busy, and the next fragment of the block ends in an error: NO CARRIER. -/
theorem busy_printed_as_nocarrier :
    dialled.resultCode = .ok ∧
      Reported dialled [.busy, .dpError]
        ((dialled.dpReturns .busy obedient).dpReturns .error obedient) ∧
      ¬ PrintsFirst [.busy, .dpError]
        ((dialled.dpReturns .busy obedient).dpReturns .error obedient) obedient := by
  have reported : Reported dialled [.busy, .dpError]
      ((dialled.dpReturns .busy obedient).dpReturns .error obedient) :=
    .report rfl (.report rfl (.done rfl))
  refine ⟨dialled_fresh, reported, fun prints => ?_⟩
  have shown := prints .busy rfl
  rw [out_modemStop, result_reported reported] at shown
  have same := List.append_cancel_left shown
  have loud : ((dialled.dpReturns .busy obedient).dpReturns .error obedient).isQuiet = false := by
    decide +kernel
  rw [printed, loud] at same
  cases same

end Modem

end DModem
