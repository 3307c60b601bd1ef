/-
What LAPM does with the rings of its frames.

Everything but a reset and `lapm_get_tx_frame` fills free frames: a transmission takes one
of `ctrl_buf`, and `tx_info` one of `info_buf`.  Received frames also acknowledge
information frames, or have them sent again.
-/

import DModem.Lib.Slots
import DModem.Modem.Window

namespace DModem.Modem

open Lib

def ctrlRing (m : Modem) : SlotQueue (List UInt8) :=
  { buf := m.lapm.ctrlBuf, last := m.lapm.ctrlList, next := m.lapm.txCtrl }

def infoRing (m : Modem) : SlotWindow InfoSlot :=
  { buf := m.lapm.infoBuf
    first := m.lapm.sentInfo
    next := m.lapm.txInfo
    last := m.lapm.infoList }

def QueuesCtrl (m m' : Modem) : Prop :=
  Relation.ReflTransGen (SlotQueue.Put lapmCtrlFrames) m.ctrlRing m'.ctrlRing

structure Sends (m m' : Modem) : Prop where
  ctrl : QueuesCtrl m m'
  info : m'.infoRing = m.infoRing

/-- Control frames are queued, and the window of information frames moves. -/
structure Passes (m m' : Modem) : Prop where
  ctrl : QueuesCtrl m m'
  info : Relation.ReflTransGen (SlotWindow.Move lapmInfoFrames) m.infoRing m'.infoRing

section Relations

variable {m m₁ m' : Modem}

theorem Sends.refl (m : Modem) : Sends m m :=
  { ctrl := Relation.ReflTransGen.refl, info := rfl }

theorem Sends.trans (first : Sends m m₁) (second : Sends m₁ m') : Sends m m' :=
  { ctrl := first.ctrl.trans second.ctrl
    info := second.info.trans first.info }

theorem sends_of_rings (ctrl : m'.ctrlRing = m.ctrlRing) (info : m'.infoRing = m.infoRing) :
    Sends m m' := by
  constructor
  · unfold QueuesCtrl
    rw [ctrl]
  · exact info

theorem Sends.passes (sends : Sends m m') : Passes m m' := by
  constructor
  · exact sends.ctrl
  · rw [sends.info]

theorem passes_of_rings (ctrl : m'.ctrlRing = m.ctrlRing) (info : m'.infoRing = m.infoRing) :
    Passes m m' :=
  (sends_of_rings ctrl info).passes

theorem Passes.refl (m : Modem) : Passes m m := (Sends.refl m).passes

theorem Passes.trans (first : Passes m m₁) (second : Passes m₁ m') : Passes m m' :=
  { ctrl := first.ctrl.trans second.ctrl
    info := first.info.trans second.info }

theorem passes_of_move (ctrl : m'.ctrlRing = m.ctrlRing)
    (move : SlotWindow.Move lapmInfoFrames m.infoRing m'.infoRing) : Passes m m' := by
  constructor
  · unfold QueuesCtrl
    rw [ctrl]
  · exact Relation.ReflTransGen.single move

end Relations

section Sends

variable (m : Modem)

theorem sends_putCtrl (bytes : List UInt8) : Sends m (m.putCtrl bytes) := by
  unfold putCtrl
  split
  · exact Sends.refl m
  · rename_i free
    constructor
    · exact Relation.ReflTransGen.single (SlotQueue.Put.put m.ctrlRing bytes free)
    · rfl

theorem sends_setState (newState : ModemState) : Sends m (m.modemSetState newState) := by
  unfold modemSetState
  split
  · exact Sends.refl m
  · cases newState <;> exact sends_of_rings rfl rfl

theorem sends_setPhase (phase : LapmPhase) : Sends m (m.setPhase phase) := sends_of_rings rfl rfl

theorem sends_timerStart : Sends m m.timerStart := sends_of_rings rfl rfl

theorem sends_timerStop : Sends m m.timerStop := sends_of_rings rfl rfl

theorem sends_scheduled : Sends m m.defaultResult.scheduleModemStop := by
  unfold defaultResult
  split <;> exact sends_of_rings rfl rfl

theorem sends_lapmDisconnect : Sends m m.lapmDisconnect :=
  ((sends_setPhase m .disc).trans (sends_putCtrl _ _)).trans (sends_timerStart _)

theorem sends_ecStop : Sends m m.modemEcStop := by
  have stopped : Sends m { m with bitTimer := 0, packerProcess := false } := sends_of_rings rfl rfl
  exact stopped.trans (sends_lapmDisconnect _)

theorem sends_hup (isLocal : Bool) : Sends m (m.modemHup isLocal) := by
  unfold modemHup
  cases m.state with
  | modemIdle | dpDisc => exact Sends.refl m
  | dpEstab => exact (sends_setState m .dpDisc).trans (sends_scheduled _)
  | ecEstab | modemOnline | commandOnline =>
      simp only
      split
      · exact ((sends_ecStop m).trans (sends_setState _ .ecDisc)).trans (sends_scheduled _)
      · exact (sends_setState m .dpDisc).trans (sends_scheduled _)
  | ecDisc => exact sends_setState m .dpDisc

theorem sends_fail (isLocal : Bool) :
    Sends m (modemHup { m with resultCode := .nocarrier } isLocal) := by
  have told : Sends m { m with resultCode := .nocarrier } := sends_of_rings rfl rfl
  exact told.trans (sends_hup _ isLocal)

theorem sends_release : Sends m (m.modemUpdateStatus .ecRelease) := sends_fail m _

theorem sends_error : Sends m (m.modemUpdateStatus .error) := sends_fail m _

theorem sends_txReady (addr pf : UInt8) : Sends m (m.txReady addr pf) := by
  unfold txReady
  split
  · exact sends_putCtrl m _
  · exact sends_putCtrl m _

theorem sends_callPutChars (chars : Chars) (bytes : List UInt8) (n : Int) :
    Sends m (m.callPutChars chars bytes n).1 := by
  have logged : ∀ taken : List UInt8, Sends m { m with out := m.out ++ [.data taken] } :=
    fun _ => sends_of_rings rfl rfl
  unfold callPutChars
  split
  · exact Sends.refl m
  · simp only
    split
    · exact (logged _).trans (sends_error _)
    · exact logged _

theorem sends_recvInfo (f : Hdlc.Frame) (chars : Chars) : Sends m (m.recvInfo f chars) := by
  have put := sends_callPutChars m chars (f.buf.drop 3) ((f.count : Int) - 3)
  unfold recvInfo
  simp only
  split
  · exact put.trans (sends_of_rings rfl rfl)
  · exact put

theorem sends_pushRestData (chars : Chars) : Sends m (m.pushRestData chars) := by
  have put := sends_callPutChars m chars (m.lapm.rxBuf.drop m.lapm.rxHead) m.lapm.rxCount
  unfold pushRestData
  generalize m.callPutChars chars (m.lapm.rxBuf.drop m.lapm.rxHead) m.lapm.rxCount = handed at put
  simp only
  split_ifs
  · exact Sends.refl m
  · have cleared : Sends handed.1
        { handed.1 with
          lapm :=
            { handed.1.lapm with
              rxHead := 0
              rxCount := handed.1.lapm.rxCount - handed.2
              busy := false } } := sends_of_rings rfl rfl
    exact ((put.trans cleared).trans (sends_putCtrl _ _)).trans (sends_of_rings rfl rfl)
  · exact put.trans (sends_of_rings rfl rfl)
  · exact put
  · exact Sends.refl m

theorem sends_lapmConfig : Sends m m.lapmConfig := by
  have asking : Sends m { m with lapm := { m.lapm with config := true } } := sends_of_rings rfl rfl
  have busy : Sends m { m with lapm := { m.lapm with config := true, busy := true } } :=
    sends_of_rings rfl rfl
  unfold lapmConfig
  simp only
  split
  · exact ((busy.trans (sends_putCtrl _ _)).trans (sends_putCtrl _ _)).trans (sends_timerStart _)
  · exact (asking.trans (sends_putCtrl _ _)).trans (sends_timerStart _)

theorem sends_t401Timeout : Sends m m.t401Timeout := by
  unfold t401Timeout
  split
  · unfold t401Exhausted
    have counted : Sends m { m with lapm := { m.lapm with rtxCount := 0 } } :=
      sends_of_rings rfl rfl
    simp only
    generalize { m with lapm := { m.lapm with rtxCount := 0 } } = stopped at counted
    cases m.lapm.state with
    | estab | disc => exact (counted.trans (sends_setPhase _ _)).trans (sends_release _)
    | data => exact counted.trans (sends_lapmDisconnect _)
    | idle => exact counted
  · have counted : Sends m { m with lapm := { m.lapm with rtxCount := m.lapm.rtxCount + 1 } } :=
      sends_of_rings rfl rfl
    have resent : ∀ m' : Modem, Sends m' m'.t401Resend := by
      intro m'
      unfold t401Resend
      split
      · exact sends_putCtrl m' _
      · cases m'.lapm.state with
        | estab | disc => exact sends_putCtrl m' _
        | data => exact sends_txReady m' _ _
        | idle => exact Sends.refl m'
    exact (counted.trans (resent _)).trans (sends_of_rings rfl rfl)

end Sends

section Passes

variable (m : Modem)

theorem passes_txInfo (chars : Chars) : Passes m (m.txInfo chars).1 := by
  unfold txInfo
  simp only
  split_ifs with closed drained full charless
  · exact Passes.refl m
  · exact passes_of_rings rfl rfl
  · exact Passes.refl m
  · cases chars.get with
    | none => exact (sends_release m).passes
    | some given =>
        simp only
        split
        · exact Passes.refl m
        · have free : nextInfo m.lapm.infoList ≠ m.lapm.sentInfo := fun wraps =>
            full (Or.inr wraps)
          exact passes_of_move rfl (SlotWindow.Move.fill m.infoRing _ drained free)
  · exact Passes.refl m

theorem passes_rejectInfo : Passes m m.rejectInfo := by
  unfold rejectInfo
  split
  · exact Passes.refl m
  · exact passes_of_move rfl (SlotWindow.Move.rewind m.infoRing)

theorem passes_ackLoop (rounds : Nat) (nr : Nat) :
    Passes m { m with lapm := (ackLoop rounds m.lapm nr).1 } := by
  induction rounds generalizing m with
  | zero => exact Passes.refl m
  | succ rounds ih =>
      unfold ackLoop
      split
      · exact Passes.refl m
      · split
        · exact Passes.refl m
        · rename_i sent
          have freed : Passes m
              { m with
                lapm :=
                  { m.lapm with
                    sentInfo := nextInfo m.lapm.sentInfo
                    va := seqNext m.lapm.va } } :=
            passes_of_move rfl (SlotWindow.Move.acknowledge m.infoRing sent)
          exact freed.trans (ih _)

theorem sends_ackTimer (n : Nat) : Sends m (m.ackTimer n) := by
  unfold ackTimer
  split_ifs
  · exact sends_of_rings rfl rfl
  · exact sends_of_rings rfl rfl
  · exact Sends.refl m

theorem passes_ackInfo (nr : Nat) : Passes m (m.ackInfo nr) := by
  have looped := passes_ackLoop m 128 nr
  unfold ackInfo
  split
  · exact (sends_lapmDisconnect m).passes
  · exact looped.trans (sends_ackTimer _ _).passes

theorem passes_respondInfo (f : Hdlc.Frame) (chars : Chars) : Passes m (m.respondInfo f chars) := by
  unfold respondInfo
  split
  · exact (sends_putCtrl m _).passes
  · split
    · exact (sends_putCtrl m _).passes
    · simp only
      split
      · exact passes_txInfo m chars
      · exact (passes_txInfo m chars).trans (sends_putCtrl _ _).passes

theorem passes_rxInfo (f : Hdlc.Frame) (chars : Chars) : Passes m (m.rxInfo f chars) := by
  have acked := passes_ackInfo m (Frame.nr f)
  unfold rxInfo
  generalize m.ackInfo (Frame.nr f) = after at acked
  simp only
  split
  · split
    · exact acked.trans (sends_putCtrl after _).passes
    · exact acked
  · split
    · split
      · exact acked
      · have rejecting := acked.trans (sends_putCtrl after
          [after.lapm.rspAddr, frameSRej, UInt8.ofNat (after.lapm.vr <<< 1) ||| Frame.pf f]).passes
        exact rejecting.trans (passes_of_rings rfl rfl)
    · have cleared : Sends after { after with lapm := { after.lapm with reject := false } } :=
        sends_of_rings rfl rfl
      have received := cleared.trans (sends_recvInfo _ f chars)
      generalize recvInfo { after with lapm := { after.lapm with reject := false } } f chars =
        taken at received
      have counted : Sends taken
          { taken with lapm := { taken.lapm with vr := seqNext taken.lapm.vr } } :=
        sends_of_rings rfl rfl
      exact (acked.trans (received.trans counted).passes).trans (passes_respondInfo _ f chars)

theorem passes_answerSuper (f : Hdlc.Frame) (chars : Chars) : Passes m (m.answerSuper f chars) := by
  unfold answerSuper
  split
  · exact (sends_txReady m _ _).passes
  · simp only
    split
    · exact passes_txInfo m chars
    · exact (passes_txInfo m chars).trans (sends_txReady _ _ _).passes

theorem passes_peerAck (peerBusy : Bool) (nr : Nat) :
    Passes m ((m.setPeerBusy peerBusy).ackInfo nr) := by
  have set : Sends m (m.setPeerBusy peerBusy) := sends_of_rings rfl rfl
  exact set.passes.trans (passes_ackInfo _ nr)

theorem passes_goBack : Passes m m.rejectInfo.timerStop :=
  (passes_rejectInfo m).trans (sends_timerStop _).passes

theorem passes_rxSuperCmd (f : Hdlc.Frame) (chars : Chars) : Passes m (m.rxSuperCmd f chars) := by
  have ready := passes_peerAck m false (Frame.nr f)
  have busy := passes_peerAck m true (Frame.nr f)
  unfold rxSuperCmd
  generalize (m.setPeerBusy false).ackInfo (Frame.nr f) = readyAcked at ready
  generalize (m.setPeerBusy true).ackInfo (Frame.nr f) = busyAcked at busy
  simp only
  split
  · exact ready.trans (passes_answerSuper _ f chars)
  · split
    · split
      · exact busy.trans (sends_txReady _ _ _).passes
      · exact busy
    · split
      · refine Passes.trans ?_ (passes_answerSuper _ f chars)
        split
        · exact (ready.trans (sends_timerStop _).passes).trans (passes_rejectInfo _)
        · exact ready
      · exact Passes.refl m

theorem passes_rxSuperRsp (f : Hdlc.Frame) : Passes m (m.rxSuperRsp f) := by
  have ready := passes_peerAck m false (Frame.nr f)
  have busy := passes_peerAck m true (Frame.nr f)
  unfold rxSuperRsp
  generalize (m.setPeerBusy false).ackInfo (Frame.nr f) = readyAcked at ready
  generalize (m.setPeerBusy true).ackInfo (Frame.nr f) = busyAcked at busy
  have back : Passes m (if busyAcked.lapm.rtxCount ≠ 0 ∧ Frame.pf f ≠ 0 then
      busyAcked.rejectInfo.timerStop else busyAcked) := by
    split
    · exact busy.trans (passes_goBack _)
    · exact busy
  simp only
  generalize (if busyAcked.lapm.rtxCount ≠ 0 ∧ Frame.pf f ≠ 0 then
    busyAcked.rejectInfo.timerStop else busyAcked) = backed at back
  split
  · exact Passes.refl m
  · split
    · split
      · exact ready.trans (passes_goBack _)
      · exact ready
    · split
      · split
        · exact back.trans (sends_timerStart _).passes
        · exact back
      · split
        · split
          · exact ready.trans (passes_goBack _)
          · exact ready
        · exact Passes.refl m

end Passes

end DModem.Modem
