/-
What LAPM leaves alone.

The functions of `modem_ec.c` reach the rest of the modem through status reports and
through the character routines.  `outer` collects what none of them changes, with the
reports of `STATUS_EC_LINK` as the one exception.
-/

import DModem.Modem.Effects

namespace DModem

structure Outer where
  links : List (ModemState × LapmPhase)
  connects : Nat
  written : Nat
  starts : Nat
  caller : Bool
  detector : DetectState
  qcLapm : Bool
  dp : Option DpId
  count : Nat
  started : Bool
  hook : Hook
  process : Option Process
  sregs : Nat → UInt8
  atCount : Nat
  atLine : Nat → UInt8
  xmit : List Queued
  escapeCount : Nat
  lastEscCheck : BitVec 32
  escapeTimer : Bool
  commandText : List Queued

/-- A report of `STATUS_EC_LINK` in the given states. -/
def Outer.linked (o : Outer) (entry : ModemState × LapmPhase) : Outer :=
  { o with
    links := o.links ++ [entry]
    connects := o.connects + 1
    written := o.written + if o.sregs sregQuiet = 0 then 1 else 0 }

namespace Modem

def connects (m : Modem) : Nat := m.reports.countP (· = .connect)

/-- The number of CONNECT results written to the terminal. -/
def connectsWritten (m : Modem) : Nat := m.out.countP (· = .result .connect)

def outer (m : Modem) : Outer :=
  { links := m.links
    connects := m.connects
    written := m.connectsWritten
    starts := m.starts
    caller := m.caller
    detector := m.detector
    qcLapm := m.qcLapm
    dp := m.dp
    count := m.count
    started := m.started
    hook := m.hook
    process := m.process
    sregs := m.sregs
    atCount := m.atCount
    atLine := m.atLine
    xmit := m.xmit
    escapeCount := m.escapeCount
    lastEscCheck := m.lastEscCheck
    escapeTimer := m.escapeTimer
    commandText := m.commandText }

section Outer

variable (m : Modem)

@[simp]
theorem outer_putCtrl (bytes : List UInt8) : (m.putCtrl bytes).outer = m.outer := by
  unfold putCtrl
  split <;> rfl

@[simp]
theorem outer_setState (newState : ModemState) : (m.modemSetState newState).outer = m.outer := by
  unfold modemSetState
  split
  · rfl
  · cases newState <;> rfl

@[simp]
theorem outer_scheduled : m.defaultResult.scheduleModemStop.outer = m.outer := by
  unfold defaultResult
  split <;> rfl

@[simp]
theorem outer_setPhase (phase : LapmPhase) : (m.setPhase phase).outer = m.outer := rfl

@[simp]
theorem outer_timerStart : m.timerStart.outer = m.outer := rfl

@[simp]
theorem outer_timerStop : m.timerStop.outer = m.outer := rfl

@[simp]
theorem outer_reset : m.reset.outer = m.outer := rfl

@[simp]
theorem outer_lapmDisconnect : m.lapmDisconnect.outer = m.outer := by
  simp [lapmDisconnect, txDisc, txUnnum]

@[simp]
theorem outer_ecStop : m.modemEcStop.outer = m.outer :=
  outer_lapmDisconnect { m with bitTimer := 0, packerProcess := false }

@[simp]
theorem outer_hup (isLocal : Bool) : (m.modemHup isLocal).outer = m.outer := by
  unfold modemHup
  cases m.state with
  | modemIdle | dpDisc => rfl
  | dpEstab | ecDisc => simp
  | ecEstab | modemOnline | commandOnline =>
      simp only
      split <;> simp

@[simp]
theorem outer_release : (m.modemUpdateStatus .ecRelease).outer = m.outer :=
  outer_hup { m with resultCode := .nocarrier } _

@[simp]
theorem outer_error : (m.modemUpdateStatus .error).outer = m.outer :=
  outer_hup { m with resultCode := .nocarrier } _

@[simp]
theorem outer_link :
    (m.modemUpdateStatus .ecLink).outer = m.outer.linked (m.state, m.lapm.state) := by
  have set := outer_setState m.logLink .modemOnline
  change ((m.logLink.modemSetState .modemOnline).modemReportResult .connect).outer = _
  generalize m.logLink.modemSetState .modemOnline = online at set
  have reported : (online.modemReportResult .connect).outer =
      { online.outer with
        connects := online.outer.connects + 1
        written := online.outer.written + if online.sregs sregQuiet = 0 then 1 else 0 } := by
    rw [report_eq]
    by_cases quiet : online.sregs sregQuiet = 0
    · simp [outer, connects, connectsWritten, printed, isQuiet, quiet]
    · simp [outer, connects, connectsWritten, printed, isQuiet, quiet]
  have sregs : online.sregs = m.sregs := congrArg Outer.sregs set
  rw [reported, set, sregs]
  rfl

@[simp]
theorem outer_txReady (addr pf : UInt8) : (m.txReady addr pf).outer = m.outer := by
  unfold txReady
  split
  · exact outer_putCtrl m _
  · exact outer_putCtrl m _

@[simp]
theorem outer_rejectInfo : m.rejectInfo.outer = m.outer := by
  unfold rejectInfo
  split <;> rfl

@[simp]
theorem outer_ackInfo (nr : Nat) : (m.ackInfo nr).outer = m.outer := by
  unfold ackInfo
  split
  · exact outer_lapmDisconnect m
  · simp only
    unfold ackTimer
    split_ifs <;> rfl

@[simp]
theorem outer_peerAck (peerBusy : Bool) (nr : Nat) :
    ((m.setPeerBusy peerBusy).ackInfo nr).outer = m.outer :=
  outer_ackInfo (m.setPeerBusy peerBusy) nr

theorem outer_txInfo (chars : Chars) : (m.txInfo chars).1.outer = m.outer := by
  unfold txInfo
  simp only
  split_ifs
  · rfl
  · rfl
  · rfl
  · cases chars.get with
    | none => exact outer_release m
    | some given =>
        simp only
        split <;> rfl
  · rfl

theorem outer_callPutChars (chars : Chars) (bytes : List UInt8) (n : Int) :
    (m.callPutChars chars bytes n).1.outer = m.outer := by
  have logged : ∀ bytes' : List UInt8,
      outer { m with out := m.out ++ [.data bytes'] } = m.outer := by
    intro bytes'
    simp [outer, connects, connectsWritten]
  unfold callPutChars
  split
  · rfl
  · simp only
    split
    · exact (outer_error _).trans (logged _)
    · exact logged _

theorem outer_recvInfo (f : Hdlc.Frame) (chars : Chars) :
    (m.recvInfo f chars).outer = m.outer := by
  have put := outer_callPutChars m chars (f.buf.drop 3) ((f.count : Int) - 3)
  unfold recvInfo
  simp only
  split
  · exact put
  · exact put

theorem outer_respondInfo (f : Hdlc.Frame) (chars : Chars) :
    (m.respondInfo f chars).outer = m.outer := by
  unfold respondInfo
  split
  · exact outer_putCtrl m _
  · split
    · exact outer_putCtrl m _
    · simp only
      split
      · exact outer_txInfo m chars
      · exact (outer_putCtrl _ _).trans (outer_txInfo m chars)

theorem outer_rxInfo (f : Hdlc.Frame) (chars : Chars) : (m.rxInfo f chars).outer = m.outer := by
  have acked := outer_ackInfo m (Frame.nr f)
  unfold rxInfo
  generalize m.ackInfo (Frame.nr f) = after at acked
  simp only
  split
  · split
    · exact (outer_putCtrl _ _).trans acked
    · exact acked
  · split
    · split
      · exact acked
      · exact (outer_putCtrl after _).trans acked
    · rw [outer_respondInfo]
      exact (outer_recvInfo { after with lapm := { after.lapm with reject := false } }
        f chars).trans acked

theorem outer_answerSuper (f : Hdlc.Frame) (chars : Chars) :
    (m.answerSuper f chars).outer = m.outer := by
  unfold answerSuper
  split
  · exact outer_txReady m _ _
  · simp only
    split
    · exact outer_txInfo m chars
    · exact (outer_txReady _ _ _).trans (outer_txInfo m chars)

theorem outer_rxSuperCmd (f : Hdlc.Frame) (chars : Chars) :
    (m.rxSuperCmd f chars).outer = m.outer := by
  unfold rxSuperCmd
  simp only
  split
  · exact (outer_answerSuper _ f chars).trans (outer_peerAck m false _)
  · split
    · split
      · exact (outer_txReady _ _ _).trans (outer_peerAck m true _)
      · exact outer_peerAck m true _
    · split
      · rw [outer_answerSuper]
        split
        · exact (outer_rejectInfo _).trans (outer_peerAck m false _)
        · exact outer_peerAck m false _
      · rfl

theorem outer_rxSuperRsp (f : Hdlc.Frame) : (m.rxSuperRsp f).outer = m.outer := by
  have ready := outer_peerAck m false (Frame.nr f)
  have busy := outer_peerAck m true (Frame.nr f)
  unfold rxSuperRsp
  generalize (m.setPeerBusy false).ackInfo (Frame.nr f) = readyAcked at ready
  generalize (m.setPeerBusy true).ackInfo (Frame.nr f) = busyAcked at busy
  simp only
  split_ifs <;> simp [ready, busy]

@[simp]
theorem outer_rxXid (f : Hdlc.Frame) : (m.rxXid f).outer = m.outer := by
  rcases rxXid_frame m f with ⟨l, _, _, _, _, _, _, same⟩
  rw [same]
  rfl

@[simp]
theorem outer_lapmConnect : m.lapmConnect.outer = m.outer := by
  unfold lapmConnect
  split
  · rfl
  · simp [txSabme, txUnnum]

theorem outer_rxXidRsp (f : Hdlc.Frame) : (m.rxXidRsp f).outer = m.outer := by
  unfold rxXidRsp
  split
  · have taken := outer_rxXid m f
    generalize m.rxXid f = parsed at taken
    have cleared : (timerStop
        { parsed with lapm := { parsed.lapm with config := false } }).outer = m.outer := taken
    simp only
    generalize timerStop { parsed with lapm := { parsed.lapm with config := false } } = stopped
      at cleared
    have ready : outer { stopped with lapm := { stopped.lapm with busy := false } } =
        m.outer := cleared
    generalize { stopped with lapm := { stopped.lapm with busy := false } } = readied at ready
    split
    · exact (outer_lapmConnect _).trans cleared
    · exact (outer_putCtrl _ _).trans ready
    · exact cleared
  · rfl

theorem outer_t401Timeout : m.t401Timeout.outer = m.outer := by
  unfold t401Timeout
  split
  · unfold t401Exhausted
    have counted : outer { m with lapm := { m.lapm with rtxCount := 0 } } = m.outer := rfl
    simp only
    generalize { m with lapm := { m.lapm with rtxCount := 0 } } = stopped at counted
    cases m.lapm.state with
    | estab | disc => simp [counted]
    | data => simp [counted]
    | idle => exact counted
  · have resent : ∀ m' : Modem, m'.t401Resend.outer = m'.outer := by
      intro m'
      unfold t401Resend
      split
      · exact outer_putCtrl m' _
      · cases m'.lapm.state with
        | estab | disc => exact outer_putCtrl m' _
        | data => exact outer_txReady m' _ _
        | idle => rfl
    exact resent { m with lapm := { m.lapm with rtxCount := m.lapm.rtxCount + 1 } }

theorem outer_lapmConfig : m.lapmConfig.outer = m.outer := by
  unfold lapmConfig txXid
  simp only [outer_timerStart, outer_putCtrl]
  split
  · exact outer_putCtrl _ _
  · rfl

theorem outer_sendInfo : m.sendInfo.1.outer = m.outer := by
  unfold sendInfo
  simp only
  split <;> rfl

theorem outer_getTxFrame (chars : Chars) : (m.lapmGetTxFrame chars).1.outer = m.outer := by
  unfold lapmGetTxFrame
  simp only
  split
  · rfl
  · split
    · rfl
    · have filled : (if m.lapm.txInfo = m.lapm.infoList then m.txInfo chars
          else (m, true)).1.outer = m.outer := by
        split
        · exact outer_txInfo m chars
        · rfl
      generalize (if m.lapm.txInfo = m.lapm.infoList then m.txInfo chars else (m, true)) = sent
        at filled
      split
      · exact (outer_sendInfo _).trans filled
      · exact filled

theorem outer_pushRestData (chars : Chars) : (m.pushRestData chars).outer = m.outer := by
  have put := outer_callPutChars m chars (m.lapm.rxBuf.drop m.lapm.rxHead) m.lapm.rxCount
  unfold pushRestData
  generalize m.callPutChars chars (m.lapm.rxBuf.drop m.lapm.rxHead) m.lapm.rxCount = handed at put
  simp only
  split_ifs
  · rfl
  · exact (outer_putCtrl
      { handed.1 with
        lapm :=
          { handed.1.lapm with
            rxHead := 0
            rxCount := handed.1.lapm.rxCount - handed.2
            busy := false } } _).trans put
  · exact put
  · exact put
  · rfl

end Outer

end Modem

end DModem
