/-
An invariant rule for the LAPM functions.

A property of a modem that depends on its desk alone, and that hang-ups and link reports
keep, is kept by every function of `modem_ec.c`.  All else that they change on the desk is
the bit timer, and it is never left running without a callback.
-/

import DModem.Modem.Panel
import DModem.Modem.Effects

namespace DModem.Modem

def TimerSet (m : Modem) : Prop := m.bitTimer ≠ 0 → m.bitTimerFunc ≠ none

def SameDesk (m m' : Modem) : Prop :=
  m'.desk = { m.desk with bitTimer := m'.bitTimer, bitTimerFunc := m'.bitTimerFunc }

structure LapmQuiet (P : Modem → Prop) : Prop where
  quiet : ∀ {m m' : Modem}, P m → SameDesk m m' → (m.TimerSet → m'.TimerSet) → P m'
  fail : ∀ (m : Modem) (isLocal : Bool), P m →
    P (modemHup { m with resultCode := .nocarrier } isLocal)

structure LapmSafe (P : Modem → Prop) : Prop extends LapmQuiet P where
  link : ∀ m : Modem, P m → P m.ecLink

section Timer

theorem timerSet_stopped {m : Modem} (off : m.bitTimer = 0) : m.TimerSet :=
  fun running => absurd off running

theorem timerSet_t401 {m : Modem} (func : m.bitTimerFunc = some .t401Timeout) : m.TimerSet := by
  intro _ none
  rw [func] at none
  cases none

end Timer

section Rule

variable {P : Modem → Prop} (safe : LapmQuiet P) {m : Modem}
include safe

theorem LapmQuiet.release (kept : P m) : P (m.modemUpdateStatus .ecRelease) :=
  safe.fail m _ kept

theorem LapmQuiet.error (kept : P m) : P (m.modemUpdateStatus .error) :=
  safe.fail m _ kept

theorem LapmQuiet.putCtrl (kept : P m) (bytes : List UInt8) : P (m.putCtrl bytes) := by
  unfold Modem.putCtrl
  split
  · exact kept
  · exact safe.quiet kept rfl id

theorem LapmQuiet.lapm (kept : P m) (l : LapmState) : P { m with lapm := l } :=
  safe.quiet kept rfl id

theorem LapmQuiet.reset (kept : P m) : P m.reset := safe.quiet kept rfl id

theorem LapmQuiet.setPhase (kept : P m) (phase : LapmPhase) : P (m.setPhase phase) :=
  safe.quiet kept rfl id

theorem LapmQuiet.timerStart (kept : P m) : P m.timerStart :=
  safe.quiet kept rfl fun _ => timerSet_t401 rfl

theorem LapmQuiet.timerStop (kept : P m) : P m.timerStop :=
  safe.quiet kept rfl fun _ => timerSet_stopped rfl

theorem LapmQuiet.lapmDisconnect (kept : P m) : P m.lapmDisconnect :=
  safe.timerStart (safe.putCtrl (safe.setPhase kept .disc) _)

theorem LapmQuiet.txReady (kept : P m) (addr pf : UInt8) : P (m.txReady addr pf) := by
  unfold Modem.txReady
  split
  · exact safe.putCtrl kept _
  · exact safe.putCtrl kept _

theorem LapmQuiet.rejectInfo (kept : P m) : P m.rejectInfo := by
  unfold Modem.rejectInfo
  split
  · exact kept
  · exact safe.lapm kept _

theorem LapmQuiet.ackInfo (kept : P m) (nr : Nat) : P (m.ackInfo nr) := by
  unfold Modem.ackInfo
  split
  · exact safe.lapmDisconnect kept
  · have acked := safe.lapm kept (ackLoop 128 m.lapm nr).1
    simp only
    unfold ackTimer
    split
    · split
      · exact safe.timerStart (safe.timerStop acked)
      · exact safe.timerStop acked
    · exact acked

theorem LapmQuiet.txInfo (kept : P m) (chars : Chars) : P (m.txInfo chars).1 := by
  unfold Modem.txInfo
  simp only
  split_ifs
  · exact kept
  · exact safe.quiet kept rfl id
  · exact kept
  · cases chars.get with
    | none => exact safe.fail m _ kept
    | some given =>
        simp only
        split
        · exact kept
        · exact safe.quiet kept rfl id
  · exact kept

theorem LapmQuiet.callPutChars (kept : P m) (chars : Chars) (bytes : List UInt8) (n : Int) :
    P (m.callPutChars chars bytes n).1 := by
  have logged : ∀ bytes' : List UInt8, P { m with out := m.out ++ [.data bytes'] } := by
    intro bytes'
    have same : SameDesk m { m with out := m.out ++ [.data bytes'] } := by simp [SameDesk, desk]
    exact safe.quiet kept same id
  unfold Modem.callPutChars
  split
  · exact kept
  · simp only
    split
    · exact safe.error (logged _)
    · exact logged _

theorem LapmQuiet.recvInfo (kept : P m) (f : Hdlc.Frame) (chars : Chars) :
    P (m.recvInfo f chars) := by
  have put := safe.callPutChars kept chars (f.buf.drop 3) ((f.count : Int) - 3)
  unfold Modem.recvInfo
  simp only
  split
  · exact safe.quiet put rfl id
  · exact put

theorem LapmQuiet.respondInfo (kept : P m) (f : Hdlc.Frame) (chars : Chars) :
    P (m.respondInfo f chars) := by
  unfold Modem.respondInfo
  split
  · exact safe.putCtrl kept _
  · split
    · exact safe.putCtrl kept _
    · have sent := safe.txInfo kept chars
      simp only
      split
      · exact sent
      · exact safe.putCtrl sent _

theorem LapmQuiet.rxInfo (kept : P m) (f : Hdlc.Frame) (chars : Chars) : P (m.rxInfo f chars) := by
  have acked := safe.ackInfo kept (Frame.nr f)
  unfold Modem.rxInfo
  generalize m.ackInfo (Frame.nr f) = after at acked
  simp only
  split
  · split
    · exact safe.putCtrl acked _
    · exact acked
  · split
    · split
      · exact acked
      · exact safe.lapm (safe.putCtrl acked _) _
    · have received := safe.recvInfo
        (safe.lapm acked { after.lapm with reject := false }) f chars
      exact safe.respondInfo (safe.lapm received _) f chars

theorem LapmQuiet.peerAck (kept : P m) (peerBusy : Bool) (nr : Nat) :
    P ((m.setPeerBusy peerBusy).ackInfo nr) :=
  safe.ackInfo (safe.lapm kept _) nr

theorem LapmQuiet.answerSuper (kept : P m) (f : Hdlc.Frame) (chars : Chars) :
    P (m.answerSuper f chars) := by
  unfold Modem.answerSuper
  split
  · exact safe.txReady kept _ _
  · have sent := safe.txInfo kept chars
    simp only
    split
    · exact sent
    · exact safe.txReady sent _ _

theorem LapmQuiet.rxSuperCmd (kept : P m) (f : Hdlc.Frame) (chars : Chars) :
    P (m.rxSuperCmd f chars) := by
  have ready := safe.peerAck kept false (Frame.nr f)
  have busy := safe.peerAck kept true (Frame.nr f)
  unfold Modem.rxSuperCmd
  simp only
  split
  · exact safe.answerSuper ready f chars
  · split
    · split
      · exact safe.txReady busy _ _
      · exact busy
    · split
      · apply safe.answerSuper
        split
        · exact safe.rejectInfo (safe.timerStop ready)
        · exact ready
      · exact kept

theorem LapmQuiet.rxSuperRsp (kept : P m) (f : Hdlc.Frame) : P (m.rxSuperRsp f) := by
  have ready := safe.peerAck kept false (Frame.nr f)
  have busy := safe.peerAck kept true (Frame.nr f)
  have goBack : ∀ {m' : Modem}, P m' → P m'.rejectInfo.timerStop :=
    fun kept' => safe.timerStop (safe.rejectInfo kept')
  unfold Modem.rxSuperRsp
  simp only
  split
  · exact kept
  · split
    · split
      · exact goBack ready
      · exact ready
    · split
      · split
        · split
          · exact safe.timerStart (goBack busy)
          · exact goBack busy
        · split
          · exact safe.timerStart busy
          · exact busy
      · split
        · split
          · exact goBack ready
          · exact ready
        · exact kept

theorem LapmQuiet.rxXid (kept : P m) (f : Hdlc.Frame) : P (m.rxXid f) := by
  rcases rxXid_frame m f with ⟨l, _, _, _, _, _, _, same⟩
  rw [same]
  exact safe.quiet kept rfl id

theorem LapmQuiet.lapmConnect (kept : P m) : P m.lapmConnect := by
  unfold Modem.lapmConnect
  split
  · exact kept
  · exact safe.timerStart (safe.putCtrl (safe.setPhase (safe.reset kept) .estab) _)

theorem LapmQuiet.rxXidRsp (kept : P m) (f : Hdlc.Frame) : P (m.rxXidRsp f) := by
  unfold Modem.rxXidRsp
  split
  · have stopped := safe.timerStop
      (safe.lapm (safe.rxXid kept f) { (m.rxXid f).lapm with config := false })
    simp only
    generalize Modem.timerStop
      { m.rxXid f with lapm := { (m.rxXid f).lapm with config := false } } = parsed at stopped
    split
    · exact safe.lapmConnect stopped
    · exact safe.putCtrl (safe.lapm stopped _) _
    · exact stopped
  · exact kept

theorem LapmQuiet.getTxFrame (kept : P m) (chars : Chars) : P (m.lapmGetTxFrame chars).1 := by
  have send : ∀ {m' : Modem}, P m' → P m'.sendInfo.1 := by
    intro m' kept'
    unfold sendInfo
    simp only
    split
    · exact safe.timerStart (safe.lapm kept' _)
    · exact safe.lapm kept' _
  unfold lapmGetTxFrame
  simp only
  split
  · exact safe.lapm kept _
  · split
    · exact kept
    · have filled : P (if m.lapm.txInfo = m.lapm.infoList then m.txInfo chars else (m, true)).1 := by
        split
        · exact safe.txInfo kept chars
        · exact kept
      generalize (if m.lapm.txInfo = m.lapm.infoList then m.txInfo chars else (m, true)) = sent
        at filled
      split
      · exact send filled
      · exact filled

theorem LapmQuiet.pushRestData (kept : P m) (chars : Chars) : P (m.pushRestData chars) := by
  have put := safe.callPutChars kept chars (m.lapm.rxBuf.drop m.lapm.rxHead) m.lapm.rxCount
  unfold Modem.pushRestData
  generalize m.callPutChars chars (m.lapm.rxBuf.drop m.lapm.rxHead) m.lapm.rxCount = handed at put
  simp only
  split_ifs
  · exact kept
  · exact safe.quiet (safe.putCtrl (safe.lapm put _) _) rfl id
  · exact safe.lapm put _
  · exact put
  · exact kept

theorem LapmQuiet.lapmConfig (kept : P m) : P m.lapmConfig := by
  unfold Modem.lapmConfig
  have asking := safe.lapm kept { m.lapm with config := true }
  simp only
  split
  · exact safe.timerStart (safe.putCtrl (safe.putCtrl (safe.lapm asking _) _) _)
  · exact safe.timerStart (safe.putCtrl asking _)

theorem LapmQuiet.negotiate (kept : P m) : P m.modemEcNegotiate :=
  safe.lapmConfig (safe.quiet kept rfl id)

theorem LapmQuiet.t401Timeout (kept : P m) : P m.t401Timeout := by
  unfold Modem.t401Timeout
  split
  · unfold t401Exhausted
    have counted := safe.lapm kept { m.lapm with rtxCount := 0 }
    simp only
    split
    · exact safe.release (safe.setPhase counted .idle)
    · exact safe.release (safe.setPhase counted .idle)
    · exact safe.lapmDisconnect counted
    · exact counted
  · have counted := safe.lapm kept { m.lapm with rtxCount := m.lapm.rtxCount + 1 }
    have resent : ∀ {m' : Modem}, P m' → P m'.t401Resend := by
      intro m' kept'
      unfold t401Resend
      split
      · exact safe.putCtrl kept' _
      · split
        · exact safe.putCtrl kept' _
        · exact safe.putCtrl kept' _
        · exact safe.txReady kept' _ _
        · exact kept'
    exact safe.quiet (resent counted) rfl fun _ => timerSet_t401 rfl

end Rule

section Link

variable {P : Modem → Prop} (safe : LapmSafe P) {m : Modem}
include safe

theorem LapmSafe.rxUnnumCmd (kept : P m) (f : Hdlc.Frame) : P (m.rxUnnumCmd f) := by
  unfold Modem.rxUnnumCmd
  split
  · exact safe.link _
      (safe.timerStop (safe.putCtrl (safe.setPhase (safe.reset kept) .data) _))
  · split
    · unfold rxDisc
      split
      · exact safe.putCtrl kept _
      · exact safe.release
          (safe.timerStop (safe.putCtrl (safe.reset (safe.setPhase kept .idle)) _))
    · split
      · exact safe.putCtrl (safe.rxXid kept f) _
      · exact kept

theorem LapmSafe.rxDm (kept : P m) (f : Hdlc.Frame) : P (m.rxDm f) := by
  have idle := safe.reset (safe.setPhase kept .idle)
  unfold Modem.rxDm
  split
  · split
    · exact safe.release (safe.timerStop idle)
    · exact kept
  · split
    · exact safe.release (safe.timerStop idle)
    · exact kept
  · split
    · exact safe.release idle
    · exact kept
  · split
    · exact safe.link m kept
    · exact kept

theorem LapmSafe.rxUa (kept : P m) : P m.rxUa := by
  unfold Modem.rxUa
  split
  · exact safe.link _ (safe.timerStop (safe.reset (safe.setPhase kept .data)))
  · exact safe.release (safe.timerStop (safe.reset (safe.setPhase kept .idle)))
  · exact kept

theorem LapmSafe.validDataState (kept : P m) : P m.validDataState.1 := by
  unfold Modem.validDataState
  split
  · exact safe.link _ (safe.setPhase (safe.reset kept) .data)
  · exact kept
  · exact safe.release (safe.setPhase (safe.reset kept) .idle)
  · exact kept

theorem LapmSafe.rxComplete (kept : P m) (f : Hdlc.Frame) (chars : Chars) :
    P (m.lapmRxComplete f chars) := by
  have valid := safe.validDataState kept
  unfold lapmRxComplete
  simp only
  split
  · split
    · exact safe.rxInfo valid f chars
    · exact valid
  · split
    · split
      · split
        · exact safe.rxSuperCmd valid f chars
        · exact safe.rxSuperRsp valid f
      · exact valid
    · split
      · split
        · exact safe.rxUnnumCmd kept f
        · unfold rxUnnumRsp
          split
          · exact safe.rxDm kept f
          · split
            · exact safe.rxUa kept
            · split
              · exact safe.rxXidRsp kept f
              · exact kept
      · exact kept

end Link

end DModem.Modem
