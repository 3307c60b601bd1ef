/-
The state machine of `modem.c`: `modem_set_state`, `modem_hup` and
`modem_update_status`, with the start functions of the packers that a link report
runs.

The `hangup` operation of a data pump only concerns the pump and is left out, and
so are the carrier bit of `modem_info` and the loudspeaker.
-/

import DModem.Modem.State

namespace DModem

/-- The status codes of `modem.h`. -/
inductive Status where
  | ok
  | nocarrier
  | error
  | nodialtone
  | busy
  | noanswer
  | dpLink
  | dpError
  | packLink
  | packError
  | ecLink
  | ecRelease
  | ecError
  deriving DecidableEq, Repr

def ModemState.disc : ModemState → Bool
  | .ecDisc | .dpDisc => true
  | _ => false

/-- `NONEC_DP`. -/
def DpId.nonEc : DpId → Bool
  | .v21 | .v23 | .b103 => true
  | _ => false

def sregQuiet : Nat := 14
def sregVerbose : Nat := 15
def sregConnnectMsgFormat : Nat := 70

namespace Modem

/-- `IS_QUIET`. -/
def isQuiet (m : Modem) : Bool := m.sregs sregQuiet != 0

def logFault (m : Modem) (fault : Fault) : Modem := { m with faults := m.faults ++ [fault] }

/-- The report prints the name of the modulation, and reads `m->dp->id` for it. -/
def printsModulation (m : Modem) (code : ModemResult) : Bool :=
  decide (code = .connect) && m.sregs sregQuiet == 0 && m.sregs sregVerbose != 0 &&
    m.sregs sregConnnectMsgFormat &&& 1 != 0

/-- `modem_report_result`.  A quiet modem prints nothing. -/
def modemReportResult (m : Modem) (code : ModemResult) : Modem :=
  let m := { m with reports := m.reports ++ [code] }
  if m.isQuiet then m
  else
    { m with
      out := m.out ++ [.result code]
      faults :=
        if m.printsModulation code && m.dp.isNone then m.faults ++ [.modulation] else m.faults }

/-- What `modem_report_result` writes. -/
def printed (m : Modem) (code : ModemResult) : List Output :=
  if m.isQuiet then [] else [.result code]

theorem report_eq (m : Modem) (code : ModemResult) :
    m.modemReportResult code =
      { m with
        out := m.out ++ m.printed code
        reports := m.reports ++ [code]
        faults :=
          if m.printsModulation code && m.dp.isNone then m.faults ++ [.modulation]
          else m.faults } := by
  have same : isQuiet { m with reports := m.reports ++ [code] } = m.isQuiet := rfl
  unfold modemReportResult printed
  simp only [same]
  cases quiet : m.isQuiet with
  | true =>
      have registered : (m.sregs sregQuiet == 0) = false := by
        unfold isQuiet at quiet
        simpa using quiet
      simp [printsModulation, registered]
  | false => rfl

theorem report_other (m : Modem) {code : ModemResult} (other : code ≠ .connect) :
    m.modemReportResult code =
      { m with out := m.out ++ m.printed code, reports := m.reports ++ [code] } := by
  have silent : m.printsModulation code = false := by
    unfold printsModulation
    rw [decide_eq_false other]
    rfl
  rw [report_eq, silent]
  rfl

theorem report_lapm (m : Modem) (code : ModemResult) :
    (m.modemReportResult code).lapm = m.lapm := by
  rw [report_eq]

def modemSetState (m : Modem) (newState : ModemState) : Modem :=
  if m.state = newState then m
  else
    match newState with
    | .modemIdle =>
        { m with
          state := .modemIdle
          command := true
          getChars := none
          putChars := none
          getBits := none
          putBits := none }
    | .dpEstab =>
        { m with
          state := .dpEstab
          command := false
          getChars := none
          putChars := none
          getBits := none
          putBits := none }
    | .ecEstab =>
        { m with
          state := .ecEstab
          command := false
          getChars := none
          putChars := none }
    | .modemOnline =>
        { m with
          state := .modemOnline
          command := false
          putChars := some (if m.cfg.ec && m.cfg.comp &&& 0x1 != 0 then .comp else .plain)
          getChars := some (if m.cfg.ec && m.cfg.comp &&& 0x2 != 0 then .comp else .plain) }
    | .commandOnline =>
        { m with
          state := .commandOnline
          command := true
          getChars := none
          putChars := none }
    | .ecDisc =>
        { m with
          state := .ecDisc
          getChars := none
          putChars := none }
    | .dpDisc =>
        { m with
          state := .dpDisc
          getChars := none
          putChars := none
          getBits := none
          putBits := none }

def scheduleModemStop (m : Modem) : Modem :=
  { m with
    sampleTimerFunc := some .runModemStop
    sampleTimer := m.count + 48
    armedAt := m.stops }

/-- `if (m->result_code == 0) m->result_code = RESULT_NOCARRIER`. -/
def defaultResult (m : Modem) : Modem :=
  if m.resultCode = .ok then { m with resultCode := .nocarrier } else m

def modemHup (m : Modem) (isLocal : Bool) : Modem :=
  match m.state with
  | .modemIdle => m
  | .dpEstab => ((m.modemSetState .dpDisc).defaultResult).scheduleModemStop
  | .ecEstab | .modemOnline | .commandOnline =>
      let m :=
        if isLocal && m.cfg.ec then m.modemEcStop.modemSetState .ecDisc
        else m.modemSetState .dpDisc
      m.defaultResult.scheduleModemStop
  | .ecDisc => m.modemSetState .dpDisc
  | .dpDisc => m

/-! ### Starting the packers -/

def odp : UInt8 × UInt8 := (0x88, 0x89)
def adp : UInt8 × UInt8 := (0xa2, 0xc2)

def modemDetectorStart (m : Modem) : Modem :=
  if m.caller then
    { m with
      detector :=
        { txCount := 0, rxCount := 0, ecEnable := false, txPattern := odp, rxPattern := adp }
      bitTimerFunc := some .detectorStart
      bitTimer := 64 * 8 }
  else
    { m with
      detector :=
        { txCount := 0, rxCount := 0, ecEnable := false, txPattern := adp, rxPattern := odp }
      bitTimerFunc := some .detectorFinish
      bitTimer := 28800 * 3 / 4 }

/-- `modem_hdlc_start`: the framer is detached and the timer cleared. -/
def hdlcStart (m : Modem) : Modem :=
  { m with getTxFrame := false, bitTimerFunc := none, bitTimer := 0 }

def modemAsyncStart (m : Modem) : Modem := { m with bitTimerFunc := none, bitTimer := 0 }

def modemEcStart (m : Modem) : Modem :=
  if m.caller then
    { m with
      getTxFrame := false
      bitTimer := 48 * 8
      bitTimerFunc := some .modemEcNegotiate
      packerProcess := false }
  else { m with getTxFrame := true, packerProcess := false }

/-! ### Status reports -/

def logLink (m : Modem) : Modem := { m with links := m.links ++ [(m.state, m.lapm.state)] }

/-- `case STATUS_EC_LINK`. -/
def ecLink (m : Modem) : Modem :=
  (m.logLink.modemSetState .modemOnline).modemReportResult .connect

/-- `case STATUS_PACK_LINK`. -/
def packLink (m : Modem) : Modem :=
  if m.cfg.ec then
    modemEcStart { m.hdlcStart with getBits := some .hdlc, putBits := some .hdlc }
  else ecLink { m.modemAsyncStart with getBits := some .async, putBits := some .async }

/-- `case STATUS_DP_LINK`. -/
def dpLink (m : Modem) : Modem :=
  let m := if m.dp = none then m.logFault .dpLink else m
  let nonEc := m.dp.any DpId.nonEc
  let m := if nonEc then { m with cfg := { m.cfg with ec := false } } else m
  let m := m.modemSetState .ecEstab
  if m.cfg.ec && m.cfg.ecDetector && !(m.caller && m.qcLapm) then
    { m.modemDetectorStart with getBits := some .detector, putBits := some .detector }
  else m.packLink

def resultOf : Status → ModemResult
  | .nodialtone => .nodialtone
  | .busy => .busy
  | .noanswer => .noanswer
  | _ => .nocarrier

def modemUpdateStatus (m : Modem) (status : Status) : Modem :=
  match status with
  | .ok => m
  | .dpLink => m.dpLink
  | .packLink => m.packLink
  | .ecLink => m.ecLink
  | .ecRelease | .ecError =>
      modemHup { m with resultCode := .nocarrier } (m.state = .ecDisc)
  | _ => modemHup { m with resultCode := resultOf status } m.state.disc

end Modem

end DModem
