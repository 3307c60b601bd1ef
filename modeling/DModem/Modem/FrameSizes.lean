/-
The sizes of the frames that `lapm_get_tx_frame` hands out.

The buffers behind a frame are the 4 bytes of `ctrl` with the 128 of `info`.  Every
transmission stores at most that, whatever XID frames say, and the HDLC packer of the
other end takes what it sends.
-/

import DModem.Modem.Overrun
import DModem.Modem.XidScan

namespace DModem

namespace Modem

/-- A frame with address and control that lies in its buffer. -/
def InBuffer (bytes : List UInt8) : Prop := 2 ≤ bytes.length ∧ bytes.length ≤ lapmMaxInfoSize + 4

def SlotInBuffer (slot : InfoSlot) : Prop :=
  slot.ctrl.length = 3 ∧ slot.info.length ≤ lapmMaxInfoSize + 1

/-- Every frame of the two lists lies in its buffer, and information is asked for in pieces
that fit. -/
structure FramesFit (m : Modem) : Prop where
  ctrl : ∀ slot, InBuffer (m.lapm.ctrlBuf slot)
  info : ∀ slot, SlotInBuffer (m.lapm.infoBuf slot)
  limits : m.lapm.AtLimits

theorem forall_slots {α : Type} {good : α → Prop} {slots : Nat → α} {filled : Nat} {value : α}
    (here : good value) (others : ∀ slot, good (slots slot)) :
    ∀ slot, good (Function.update slots filled value slot) := by
  intro slot
  by_cases same : slot = filled
  · rw [same, Function.update_self]
    exact here
  · rw [Function.update_of_ne same]
    exact others slot

section Fitting

variable {m : Modem}

theorem FramesFit.of_stored {m' : Modem} (fit : m.FramesFit)
    (ctrl : m'.lapm.ctrlBuf = m.lapm.ctrlBuf) (info : m'.lapm.infoBuf = m.lapm.infoBuf)
    (limits : m'.lapm.AtLimits) : m'.FramesFit := by
  constructor
  · rw [ctrl]
    exact fit.ctrl
  · rw [info]
    exact fit.info
  · exact limits

theorem FramesFit.of_lapm {m' : Modem} (fit : m.FramesFit) (same : m'.lapm = m.lapm) :
    m'.FramesFit := by
  apply fit.of_stored
  · rw [same]
  · rw [same]
  · rw [same]
    exact fit.limits

/-! ### Control frames -/

theorem FramesFit.putCtrl (fit : m.FramesFit) {bytes : List UInt8} (short : InBuffer bytes) :
    (m.putCtrl bytes).FramesFit := by
  unfold Modem.putCtrl
  split
  · exact fit
  · constructor
    · exact forall_slots short fit.ctrl
    · exact fit.info
    · exact { fit.limits with }

theorem FramesFit.txUnnum (fit : m.FramesFit) (addr ctrl : UInt8) :
    (m.txUnnum addr ctrl).FramesFit := by
  apply fit.putCtrl
  constructor
  · exact Nat.le_refl 2
  · exact show 2 ≤ 132 by decide

theorem FramesFit.txSuper (fit : m.FramesFit) (addr ctrl pfMask : UInt8) :
    (m.txSuper addr ctrl pfMask).FramesFit := by
  apply fit.putCtrl
  constructor
  · exact show 2 ≤ 3 by decide
  · exact show 3 ≤ 132 by decide

theorem FramesFit.txXid (fit : m.FramesFit) (addr : UInt8) : (m.txXid addr).FramesFit := by
  have sizes : (m.xidFrame addr).length = 25 ∨ (m.xidFrame addr).length = 43 := by
    unfold xidFrame xidPrivateGroup
    by_cases comp : m.cfg.comp = 0
    · left
      simp [comp]
    · right
      simp [comp]
  apply fit.putCtrl
  constructor
  · omega
  · have room : lapmMaxInfoSize + 4 = 132 := rfl
    omega

theorem FramesFit.txReady (fit : m.FramesFit) (addr pf : UInt8) :
    (m.txReady addr pf).FramesFit := by
  unfold Modem.txReady
  split
  · exact fit.txSuper _ _ _
  · exact fit.txSuper _ _ _

/-! ### Link states and reports -/

theorem FramesFit.setPhase (fit : m.FramesFit) (phase : LapmPhase) :
    (m.setPhase phase).FramesFit :=
  fit.of_stored rfl rfl { fit.limits with }

theorem FramesFit.reset (fit : m.FramesFit) : m.reset.FramesFit :=
  fit.of_stored rfl rfl { fit.limits with }

theorem FramesFit.timerStart (fit : m.FramesFit) : m.timerStart.FramesFit :=
  fit.of_stored rfl rfl { fit.limits with }

theorem FramesFit.timerStop (fit : m.FramesFit) : m.timerStop.FramesFit :=
  fit.of_stored rfl rfl { fit.limits with }

theorem FramesFit.setState (fit : m.FramesFit) (newState : ModemState) :
    (m.modemSetState newState).FramesFit := by
  apply fit.of_lapm
  unfold modemSetState
  split
  · rfl
  · cases newState <;> rfl

theorem FramesFit.scheduled (fit : m.FramesFit) :
    m.defaultResult.scheduleModemStop.FramesFit := by
  apply fit.of_lapm
  unfold defaultResult
  split <;> rfl

theorem FramesFit.lapmDisconnect (fit : m.FramesFit) : m.lapmDisconnect.FramesFit :=
  ((fit.setPhase .disc).txUnnum _ _).timerStart

theorem FramesFit.ecStop (fit : m.FramesFit) : m.modemEcStop.FramesFit := by
  have stopped : FramesFit { m with bitTimer := 0, packerProcess := false } := fit.of_lapm rfl
  exact stopped.lapmDisconnect

theorem FramesFit.hup (fit : m.FramesFit) (isLocal : Bool) : (m.modemHup isLocal).FramesFit := by
  unfold modemHup
  cases m.state with
  | modemIdle | dpDisc => exact fit
  | dpEstab => exact (fit.setState .dpDisc).scheduled
  | ecEstab | modemOnline | commandOnline =>
      simp only
      split
      · exact (fit.ecStop.setState .ecDisc).scheduled
      · exact (fit.setState .dpDisc).scheduled
  | ecDisc => exact fit.setState .dpDisc

theorem FramesFit.fail (fit : m.FramesFit) (isLocal : Bool) :
    (modemHup { m with resultCode := .nocarrier } isLocal).FramesFit := by
  have told : FramesFit { m with resultCode := .nocarrier } := fit.of_lapm rfl
  exact told.hup isLocal

theorem FramesFit.release (fit : m.FramesFit) : (m.modemUpdateStatus .ecRelease).FramesFit :=
  fit.fail _

theorem FramesFit.error (fit : m.FramesFit) : (m.modemUpdateStatus .error).FramesFit := fit.fail _

theorem FramesFit.link (fit : m.FramesFit) : (m.modemUpdateStatus .ecLink).FramesFit := by
  have logged : m.logLink.FramesFit := fit.of_lapm rfl
  exact (logged.setState .modemOnline).of_lapm (report_lapm _ .connect)

theorem FramesFit.validDataState (fit : m.FramesFit) : m.validDataState.1.FramesFit := by
  unfold Modem.validDataState
  cases m.lapm.state with
  | idle | data => exact fit
  | estab => exact (fit.reset.setPhase .data).link
  | disc => exact (fit.reset.setPhase .idle).release

/-! ### Acknowledgements -/

theorem FramesFit.rejectInfo (fit : m.FramesFit) : m.rejectInfo.FramesFit := by
  unfold Modem.rejectInfo
  split
  · exact fit
  · exact fit.of_stored rfl rfl { fit.limits with }

theorem FramesFit.ackTimer (fit : m.FramesFit) (n : Nat) : (m.ackTimer n).FramesFit := by
  unfold Modem.ackTimer
  split_ifs
  · exact fit.timerStop.timerStart
  · exact fit.timerStop
  · exact fit

theorem FramesFit.ackInfo (fit : m.FramesFit) (nr : Nat) : (m.ackInfo nr).FramesFit := by
  unfold Modem.ackInfo
  split
  · exact fit.lapmDisconnect
  · apply FramesFit.ackTimer
    rcases ackLoop_frame 128 m.lapm nr with ⟨sentInfo, va, same⟩
    rw [same]
    exact fit.of_stored rfl rfl { fit.limits with }

theorem FramesFit.peerAck (fit : m.FramesFit) (peerBusy : Bool) (nr : Nat) :
    ((m.setPeerBusy peerBusy).ackInfo nr).FramesFit := by
  have set : (m.setPeerBusy peerBusy).FramesFit := fit.of_stored rfl rfl { fit.limits with }
  exact set.ackInfo nr

/-! ### Information frames -/

/-- A frame that is filled has as many bytes as `tx_info` asked for at most. -/
theorem FramesFit.txInfo (fit : m.FramesFit) (chars : Chars) : (m.txInfo chars).1.FramesFit := by
  unfold Modem.txInfo
  simp only
  split_ifs
  · exact fit
  · exact fit.of_lapm rfl
  · exact fit
  · cases chars.get with
    | none => exact fit.release
    | some given =>
        simp only
        split
        · exact fit
        · have size : (given.take m.lapm.txInfoSize).length ≤ lapmMaxInfoSize + 1 := by
            have few := List.length_take_le m.lapm.txInfoSize given
            have asked : m.lapm.txInfoSize = lapmMaxInfoSize := fit.limits.txInfoSize
            omega
          constructor
          · exact fit.ctrl
          · exact forall_slots ⟨(fit.info _).1, size⟩ fit.info
          · exact { fit.limits with }
  · exact fit

theorem FramesFit.callPutChars (fit : m.FramesFit) (chars : Chars) (bytes : List UInt8) (n : Int) :
    (m.callPutChars chars bytes n).1.FramesFit := by
  unfold Modem.callPutChars
  split
  · exact fit
  · have logged : FramesFit { m with out :=
        m.out ++ [.data (bytes.take (min chars.accept n.toNat))] } := fit.of_lapm rfl
    simp only
    split
    · exact logged.error
    · exact logged

theorem FramesFit.recvInfo (fit : m.FramesFit) (f : Hdlc.Frame) (chars : Chars) :
    (m.recvInfo f chars).FramesFit := by
  have put := fit.callPutChars chars (f.buf.drop 3) ((f.count : Int) - 3)
  unfold Modem.recvInfo
  simp only
  split
  · exact put.of_stored rfl rfl { put.limits with }
  · exact put

theorem FramesFit.respondInfo (fit : m.FramesFit) (f : Hdlc.Frame) (chars : Chars) :
    (m.respondInfo f chars).FramesFit := by
  unfold Modem.respondInfo
  split
  · exact fit.txSuper _ _ _
  · split
    · exact fit.txSuper _ _ _
    · simp only
      split
      · exact fit.txInfo chars
      · exact (fit.txInfo chars).txSuper _ _ _

theorem FramesFit.rxInfo (fit : m.FramesFit) (f : Hdlc.Frame) (chars : Chars) :
    (m.rxInfo f chars).FramesFit := by
  have acked := fit.ackInfo (Frame.nr f)
  unfold Modem.rxInfo
  generalize m.ackInfo (Frame.nr f) = after at acked
  simp only
  split
  · split
    · exact acked.txSuper _ _ _
    · exact acked
  · split
    · split
      · exact acked
      · have rejected := acked.txSuper after.lapm.rspAddr frameSRej (Frame.pf f)
        exact rejected.of_stored rfl rfl { rejected.limits with }
    · have cleared : FramesFit { after with lapm := { after.lapm with reject := false } } :=
        acked.of_stored rfl rfl { acked.limits with }
      have received := cleared.recvInfo f chars
      generalize Modem.recvInfo { after with lapm := { after.lapm with reject := false } } f chars =
        taken at received
      have counted : FramesFit
          { taken with lapm := { taken.lapm with vr := seqNext taken.lapm.vr } } :=
        received.of_stored rfl rfl { received.limits with }
      exact counted.respondInfo f chars

/-! ### The other frames -/

theorem FramesFit.answerSuper (fit : m.FramesFit) (f : Hdlc.Frame) (chars : Chars) :
    (m.answerSuper f chars).FramesFit := by
  unfold Modem.answerSuper
  split
  · exact fit.txReady _ _
  · simp only
    split
    · exact fit.txInfo chars
    · exact (fit.txInfo chars).txReady _ _

theorem FramesFit.rxSuperCmd (fit : m.FramesFit) (f : Hdlc.Frame) (chars : Chars) :
    (m.rxSuperCmd f chars).FramesFit := by
  have ready := fit.peerAck false (Frame.nr f)
  have busy := fit.peerAck true (Frame.nr f)
  unfold Modem.rxSuperCmd
  generalize (m.setPeerBusy false).ackInfo (Frame.nr f) = readyAcked at ready
  generalize (m.setPeerBusy true).ackInfo (Frame.nr f) = busyAcked at busy
  simp only
  split
  · exact ready.answerSuper f chars
  · split
    · split
      · exact busy.txReady _ _
      · exact busy
    · split
      · apply FramesFit.answerSuper
        split
        · exact ready.timerStop.rejectInfo
        · exact ready
      · exact fit

theorem FramesFit.rxSuperRsp (fit : m.FramesFit) (f : Hdlc.Frame) :
    (m.rxSuperRsp f).FramesFit := by
  have ready := fit.peerAck false (Frame.nr f)
  have busy := fit.peerAck true (Frame.nr f)
  unfold Modem.rxSuperRsp
  generalize (m.setPeerBusy false).ackInfo (Frame.nr f) = readyAcked at ready
  generalize (m.setPeerBusy true).ackInfo (Frame.nr f) = busyAcked at busy
  have back := busy.rejectInfo.timerStop
  simp only
  split_ifs
  · exact fit
  · exact ready.rejectInfo.timerStop
  · exact ready
  · exact back.timerStart
  · exact back
  · exact busy.timerStart
  · exact busy
  · exact ready.rejectInfo.timerStop
  · exact ready
  · exact fit

theorem FramesFit.lapmConnect (fit : m.FramesFit) : m.lapmConnect.FramesFit := by
  unfold Modem.lapmConnect
  split
  · exact fit
  · exact ((fit.reset.setPhase .estab).txUnnum _ _).timerStart

theorem FramesFit.lapmConfig (fit : m.FramesFit) : m.lapmConfig.FramesFit := by
  have asking : FramesFit { m with lapm := { m.lapm with config := true } } :=
    fit.of_stored rfl rfl { fit.limits with }
  have busy : FramesFit { m with lapm := { m.lapm with config := true, busy := true } } :=
    fit.of_stored rfl rfl { fit.limits with }
  unfold Modem.lapmConfig
  simp only
  split
  · exact ((busy.txSuper _ _ _).txXid _).timerStart
  · exact (asking.txXid _).timerStart

theorem FramesFit.rxXid (fit : m.FramesFit) (f : Hdlc.Frame) : (m.rxXid f).FramesFit := by
  have limits := atLimits_rxXid fit.limits f
  rcases rxXid_frame m f with ⟨l, _, _, _, _, _, link, same⟩
  rw [same] at limits ⊢
  apply fit.of_stored
  · simp only
    rw [link.same]
  · simp only
    rw [link.same]
  · exact limits

theorem FramesFit.rxUnnumCmd (fit : m.FramesFit) (f : Hdlc.Frame) :
    (m.rxUnnumCmd f).FramesFit := by
  unfold Modem.rxUnnumCmd
  split
  · exact (((fit.reset.setPhase .data).txUnnum _ _).timerStop).link
  · split
    · unfold Modem.rxDisc
      split
      · exact fit.txUnnum _ _
      · exact ((((fit.setPhase .idle).reset).txUnnum _ _).timerStop).release
    · split
      · exact (fit.rxXid f).txXid _
      · exact fit

theorem FramesFit.rxXidRsp (fit : m.FramesFit) (f : Hdlc.Frame) : (m.rxXidRsp f).FramesFit := by
  unfold Modem.rxXidRsp
  split
  · have parsed := fit.rxXid f
    generalize m.rxXid f = asked at parsed
    have stopped : FramesFit
        (Modem.timerStop { asked with lapm := { asked.lapm with config := false } }) :=
      parsed.of_stored rfl rfl { parsed.limits with }
    simp only
    generalize Modem.timerStop { asked with lapm := { asked.lapm with config := false } } = ready
      at stopped
    have free : FramesFit { ready with lapm := { ready.lapm with busy := false } } :=
      stopped.of_stored rfl rfl { stopped.limits with }
    generalize { ready with lapm := { ready.lapm with busy := false } } = freed at free
    cases ready.lapm.state with
    | idle => exact stopped.lapmConnect
    | data => exact free.txSuper _ _ _
    | estab | disc => exact stopped
  · exact fit

theorem FramesFit.rxUnnumRsp (fit : m.FramesFit) (f : Hdlc.Frame) :
    (m.rxUnnumRsp f).FramesFit := by
  have down := (fit.setPhase .idle).reset
  unfold Modem.rxUnnumRsp
  split
  · unfold Modem.rxDm
    cases m.lapm.state with
    | estab | disc =>
        simp only
        split
        · exact down.timerStop.release
        · exact fit
    | data =>
        simp only
        split
        · exact down.release
        · exact fit
    | idle =>
        simp only
        split
        · exact fit.link
        · exact fit
  · split
    · unfold Modem.rxUa
      cases m.lapm.state with
      | estab => exact ((fit.setPhase .data).reset.timerStop).link
      | disc => exact down.timerStop.release
      | data | idle => exact fit
    · split
      · exact fit.rxXidRsp f
      · exact fit

theorem FramesFit.rxComplete (fit : m.FramesFit) (f : Hdlc.Frame) (chars : Chars) :
    (m.lapmRxComplete f chars).FramesFit := by
  have valid := fit.validDataState
  unfold lapmRxComplete
  generalize m.validDataState = state at valid
  simp only
  split_ifs
  · exact valid.rxInfo f chars
  · exact valid
  · exact valid.rxSuperCmd f chars
  · exact valid.rxSuperRsp f
  · exact valid
  · exact fit.rxUnnumCmd f
  · exact fit.rxUnnumRsp f
  · exact fit

/-! ### Frames that are handed out -/

theorem FramesFit.sendInfo (fit : m.FramesFit) :
    m.sendInfo.1.FramesFit ∧ ∀ bytes, m.sendInfo.2 = some bytes → InBuffer bytes := by
  have numbered : FramesFit
      { m with
        lapm :=
          { m.lapm with
            infoBuf := Function.update m.lapm.infoBuf m.lapm.txInfo
              { m.lapm.infoBuf m.lapm.txInfo with
                ctrl :=
                  [m.lapm.cmdAddr, UInt8.ofNat (m.lapm.vs <<< 1),
                    UInt8.ofNat (m.lapm.vr <<< 1)] }
            txInfo := nextInfo m.lapm.txInfo
            vs := seqNext m.lapm.vs } } := by
    constructor
    · exact fit.ctrl
    · exact forall_slots ⟨rfl, (fit.info _).2⟩ fit.info
    · exact { fit.limits with }
  constructor
  · unfold Modem.sendInfo
    simp only
    split
    · exact numbered.timerStart
    · exact numbered
  · intro bytes sent
    have short := (fit.info m.lapm.txInfo).2
    unfold Modem.sendInfo at sent
    simp only [Option.some.injEq] at sent
    unfold InBuffer
    rw [← sent]
    simp only [List.length_append, List.length_cons, List.length_nil]
    omega

theorem FramesFit.getTxFrame (fit : m.FramesFit) (chars : Chars) :
    (m.lapmGetTxFrame chars).1.FramesFit ∧
      ∀ bytes, (m.lapmGetTxFrame chars).2 = some bytes → InBuffer bytes := by
  have filled : FramesFit
      (if m.lapm.txInfo = m.lapm.infoList then m.txInfo chars else (m, true)).1 := by
    split
    · exact fit.txInfo chars
    · exact fit
  unfold lapmGetTxFrame
  simp only
  generalize (if m.lapm.txInfo = m.lapm.infoList then m.txInfo chars else (m, true)) = asked
    at filled ⊢
  split
  · constructor
    · exact fit.of_stored rfl rfl { fit.limits with }
    · intro bytes sent
      obtain rfl := Option.some.inj sent
      exact fit.ctrl _
  · split
    · exact ⟨fit, fun bytes sent => by cases sent⟩
    · split
      · exact filled.sendInfo
      · exact ⟨filled, fun bytes sent => by cases sent⟩

theorem FramesFit.pushRestData (fit : m.FramesFit) (chars : Chars) :
    (m.pushRestData chars).FramesFit := by
  have put := fit.callPutChars chars (m.lapm.rxBuf.drop m.lapm.rxHead) m.lapm.rxCount
  unfold Modem.pushRestData
  generalize m.callPutChars chars (m.lapm.rxBuf.drop m.lapm.rxHead) m.lapm.rxCount = handed at put
  simp only
  split_ifs
  · exact fit
  · have cleared : FramesFit
        { handed.1 with
          lapm :=
            { handed.1.lapm with
              rxHead := 0
              rxCount := handed.1.lapm.rxCount - handed.2
              busy := false } } := put.of_stored rfl rfl { put.limits with }
    exact (cleared.txSuper _ _ _).of_lapm rfl
  · exact put.of_stored rfl rfl { put.limits with }
  · exact put
  · exact fit

theorem FramesFit.t401Timeout (fit : m.FramesFit) : m.t401Timeout.FramesFit := by
  unfold Modem.t401Timeout
  split
  · unfold t401Exhausted
    have counted : FramesFit { m with lapm := { m.lapm with rtxCount := 0 } } :=
      fit.of_stored rfl rfl { fit.limits with }
    simp only
    generalize { m with lapm := { m.lapm with rtxCount := 0 } } = stopped at counted
    cases m.lapm.state with
    | estab | disc => exact (counted.setPhase .idle).release
    | data => exact counted.lapmDisconnect
    | idle => exact counted
  · have counted : FramesFit { m with lapm := { m.lapm with rtxCount := m.lapm.rtxCount + 1 } } :=
      fit.of_stored rfl rfl { fit.limits with }
    have resent : ∀ m' : Modem, m'.FramesFit → m'.t401Resend.FramesFit := by
      intro m' fit'
      unfold t401Resend
      split
      · exact fit'.txXid _
      · cases m'.lapm.state with
        | estab | disc => exact fit'.txUnnum _ _
        | data => exact fit'.txReady _ _
        | idle => exact fit'
    exact (resent _ counted).of_lapm rfl

end Fitting

/-! ### Runs -/

theorem FramesFit.lapmStep {m : Modem} (fit : m.FramesFit) (event : LapmEvent) :
    (m.lapmStep event).FramesFit := by
  cases event with
  | frame f chars => exact fit.rxComplete f chars
  | fetch chars => exact (fit.getTxFrame chars).1
  | prefetch chars => exact fit.txInfo chars
  | push chars => exact fit.pushRestData chars
  | timeout =>
      have cleared : FramesFit { m with bitTimer := 0 } := fit.of_lapm rfl
      exact cleared.t401Timeout
  | connect => exact fit.lapmConnect
  | config => exact fit.lapmConfig
  | disconnect => exact fit.lapmDisconnect
  | stop => exact fit.ecStop
  | setState newState => exact fit.setState newState

theorem FramesFit.lapmRun {m : Modem} (fit : m.FramesFit) (events : List LapmEvent) :
    (m.lapmRun events).FramesFit := by
  induction events generalizing m with
  | nil => exact fit
  | cons event rest ih => exact ih (fit.lapmStep event)

theorem framesFit_lapmInit (m : Modem) (limits : m.lapmInit.lapm.AtLimits) :
    m.lapmInit.FramesFit := by
  constructor
  · intro slot
    change InBuffer (List.replicate (lapmMaxInfoSize + 4) 0)
    unfold InBuffer
    rw [List.length_replicate]
    decide
  · intro slot
    change SlotInBuffer { ctrl := [0, 0, 0], info := List.replicate (lapmMaxInfoSize + 1) 0 }
    refine ⟨rfl, ?_⟩
    rw [List.length_replicate]
  · exact limits

/-- In every run in which no received frame overruns `rx_buf`, nothing is written over the
frames, and each one that is handed out has its address and its control field and lies in its
buffer. -/
theorem frames_in_buffers (m : Modem) (events : List LapmEvent)
    (roomy : m.modemSetupConfig.lapmInit.Roomy events) (chars : Chars) (bytes : List UInt8)
    (handed : ((m.modemSetupConfig.lapmInit.lapmRun events).lapmGetTxFrame chars).2 = some bytes) :
    (m.modemSetupConfig.lapmInit.lapmRun events).lapm.spilled = 0 ∧ InBuffer bytes := by
  have fresh := framesFit_lapmInit m.modemSetupConfig
    { txWinSize := rfl, rxWinSize := rfl, txInfoSize := rfl, rxInfoSize := rfl }
  exact ⟨spilled_lapmRun roomy events (List.prefix_refl events),
    ((fresh.lapmRun events).getTxFrame chars).2 bytes handed⟩

def wholeInfo : List LapmEvent :=
  [.frame sabmeFrame noChars, .frame (infoFrame 0 (List.replicate 128 0x2a)) noChars]

theorem frames_in_buffers_of_whole_info :
    (answering.modemSetupConfig.lapmInit.lapmRun wholeInfo).lapm.spilled = 0 ∧
      InBuffer [3, 0x73] := by
  have roomy : answering.modemSetupConfig.lapmInit.Roomy wholeInfo := by
    apply Roomy.frame (by decide +kernel)
    apply Roomy.frame (by decide +kernel)
    exact roomy_nil _
  exact frames_in_buffers answering wholeInfo roomy noChars _ (by decide +kernel)

end Modem

end DModem
