/-
The ring of information frames and the window, over whole runs of LAPM.

Whatever frames arrive, in whatever phase, the sequence numbers follow the three
pointers into the ring, and `tx_info` finds a free frame whenever the window has
room.
-/

import DModem.Modem.Effects
import DModem.Modem.Control

namespace DModem

open Lib

namespace Modem

def Rings (m m' : Modem) : Prop :=
  m.clock.Numbered → m'.clock.Numbered ∧ m'.allocErrors = m.allocErrors

theorem Rings.refl (m : Modem) : Rings m m := fun numbered => ⟨numbered, rfl⟩

theorem Rings.trans {m m₁ m' : Modem} (first : Rings m m₁) (second : Rings m₁ m') :
    Rings m m' := by
  intro numbered
  rcases first numbered with ⟨between, none⟩
  rcases second between with ⟨after, none'⟩
  exact ⟨after, none'.trans none⟩

theorem Moves.rings {m m' : Modem} (moves : Moves m m') : Rings m m' := by
  intro numbered
  rcases moves with ⟨state, list, errors, same, _, filled⟩
  rcases filled numbered with ⟨after, none⟩
  constructor
  · rw [same]
    exact { after with }
  · exact (congrArg Clock.allocErrors same).trans none

section Rings

variable {m m' : Modem}

theorem rings_of_clock {phase : LapmPhase} {config peerBusy : Bool} {rtxCount : Nat}
    {bitTimer : Int} {bitTimerFunc : Option BitTimerFunc} {state : ModemState}
    (same : m'.clock =
      { m.clock with
        phase := phase
        config := config
        rtxCount := rtxCount
        peerBusy := peerBusy
        bitTimer := bitTimer
        bitTimerFunc := bitTimerFunc
        state := state }) : Rings m m' := by
  intro numbered
  constructor
  · rw [same]
    exact { numbered with }
  · exact congrArg Clock.allocErrors same

variable (m)

theorem rings_putCtrl (bytes : List UInt8) : Rings m (m.putCtrl bytes) :=
  rings_of_clock (clock_putCtrl m bytes)

theorem rings_txReady (addr pf : UInt8) : Rings m (m.txReady addr pf) :=
  rings_of_clock (clock_txReady m addr pf)

theorem rings_setPhase (phase : LapmPhase) : Rings m (m.setPhase phase) := rings_of_clock rfl

theorem rings_timerStart : Rings m m.timerStart := rings_of_clock rfl

theorem rings_timerStop : Rings m m.timerStop := rings_of_clock rfl

theorem rings_release : Rings m (m.modemUpdateStatus .ecRelease) :=
  rings_of_clock (clock_release m)

theorem rings_link : Rings m (m.modemUpdateStatus .ecLink) := rings_of_clock (clock_link m)

theorem rings_lapmDisconnect : Rings m m.lapmDisconnect :=
  rings_of_clock (clock_lapmDisconnect m)

theorem rings_reset : Rings m m.reset := fun numbered => ⟨numbered_reset numbered, rfl⟩

theorem rings_rejectInfo : Rings m m.rejectInfo := by
  intro numbered
  unfold rejectInfo
  split
  · exact ⟨numbered, rfl⟩
  · exact ⟨{ numbered.rewind with }, rfl⟩

theorem allocErrors_acked (c : Clock) (nr : Nat) : (c.acked nr).allocErrors = c.allocErrors := by
  unfold Clock.acked Clock.ackTimer
  simp only
  split_ifs <;> rfl

theorem rings_ackInfo (f : Hdlc.Frame) : Rings m (m.ackInfo (Frame.nr f)) := by
  intro numbered
  have clockEq := clock_ackInfo numbered (nr_lt f)
  constructor
  · rw [clockEq]
    exact numbered.acked _
  · exact (congrArg Clock.allocErrors clockEq).trans (allocErrors_acked m.clock _)

theorem rings_peerAck (peerBusy : Bool) (f : Hdlc.Frame) :
    Rings m ((m.setPeerBusy peerBusy).ackInfo (Frame.nr f)) := by
  have set : Rings m (m.setPeerBusy peerBusy) := rings_of_clock rfl
  exact set.trans (rings_ackInfo _ f)

theorem rings_goBack : Rings m m.rejectInfo.timerStop :=
  (rings_rejectInfo m).trans (rings_timerStop _)

/-! ### Frames -/

theorem rings_rxInfo (f : Hdlc.Frame) (chars : Chars) : Rings m (m.rxInfo f chars) :=
  (rings_ackInfo m f).trans (moves_rxInfo m f chars).rings

theorem rings_rxSuperCmd (f : Hdlc.Frame) (chars : Chars) : Rings m (m.rxSuperCmd f chars) := by
  unfold rxSuperCmd
  simp only
  split
  · exact (rings_peerAck m false f).trans (moves_answerSuper _ f chars).rings
  · split
    · split
      · exact (rings_peerAck m true f).trans (rings_txReady _ _ _)
      · exact rings_peerAck m true f
    · split
      · refine Rings.trans ?_ (moves_answerSuper _ f chars).rings
        split
        · exact ((rings_peerAck m false f).trans (rings_timerStop _)).trans (rings_rejectInfo _)
        · exact rings_peerAck m false f
      · exact Rings.refl m

theorem rings_rxSuperRsp (f : Hdlc.Frame) : Rings m (m.rxSuperRsp f) := by
  have ready := rings_peerAck m false f
  have busy := rings_peerAck m true f
  unfold rxSuperRsp
  generalize (m.setPeerBusy false).ackInfo (Frame.nr f) = readyAcked at ready
  generalize (m.setPeerBusy true).ackInfo (Frame.nr f) = busyAcked at busy
  simp only
  split
  · exact Rings.refl m
  · split
    · split
      · exact ready.trans (rings_goBack _)
      · exact ready
    · split
      · have back : Rings m (if busyAcked.lapm.rtxCount ≠ 0 ∧ Frame.pf f ≠ 0 then
            busyAcked.rejectInfo.timerStop else busyAcked) := by
          split
          · exact busy.trans (rings_goBack _)
          · exact busy
        generalize (if busyAcked.lapm.rtxCount ≠ 0 ∧ Frame.pf f ≠ 0 then
          busyAcked.rejectInfo.timerStop else busyAcked) = backed at back
        split
        · exact back.trans (rings_timerStart _)
        · exact back
      · split
        · split
          · exact ready.trans (rings_goBack _)
          · exact ready
        · exact Rings.refl m

theorem rings_validDataState : Rings m m.validDataState.1 := by
  unfold validDataState
  cases m.lapm.state with
  | estab => exact ((rings_reset m).trans (rings_setPhase _ _)).trans (rings_link _)
  | data => exact Rings.refl m
  | disc => exact ((rings_reset m).trans (rings_setPhase _ _)).trans (rings_release _)
  | idle => exact Rings.refl m

theorem rings_rxXid (f : Hdlc.Frame) : Rings m (m.rxXid f) := by
  intro numbered
  have clockEq := clock_rxXid numbered.window f
  constructor
  · rw [clockEq]
    exact numbered
  · exact congrArg Clock.allocErrors clockEq

theorem rings_lapmConnect : Rings m m.lapmConnect := by
  unfold lapmConnect
  split
  · exact Rings.refl m
  · exact (((rings_reset m).trans (rings_setPhase _ _)).trans (rings_putCtrl _ _)).trans
      (rings_timerStart _)

theorem rings_rxUnnumCmd (f : Hdlc.Frame) : Rings m (m.rxUnnumCmd f) := by
  unfold rxUnnumCmd
  split
  · exact ((((rings_reset m).trans (rings_setPhase _ _)).trans (rings_putCtrl _ _)).trans
      (rings_timerStop _)).trans (rings_link _)
  · split
    · unfold rxDisc
      split
      · exact rings_putCtrl m _
      · exact ((((rings_setPhase m _).trans (rings_reset _)).trans (rings_putCtrl _ _)).trans
          (rings_timerStop _)).trans (rings_release _)
    · split
      · exact (rings_rxXid m f).trans (rings_putCtrl _ _)
      · exact Rings.refl m

theorem rings_leave : Rings m (((m.setPhase .idle).reset).modemUpdateStatus .ecRelease) :=
  ((rings_setPhase m _).trans (rings_reset _)).trans (rings_release _)

theorem rings_leaveStopped :
    Rings m (((m.setPhase .idle).reset.timerStop).modemUpdateStatus .ecRelease) :=
  (((rings_setPhase m _).trans (rings_reset _)).trans (rings_timerStop _)).trans (rings_release _)

theorem rings_rxDm (f : Hdlc.Frame) : Rings m (m.rxDm f) := by
  unfold rxDm
  cases m.lapm.state with
  | estab | disc =>
      simp only
      split
      · exact rings_leaveStopped m
      · exact Rings.refl m
  | data =>
      simp only
      split
      · exact rings_leave m
      · exact Rings.refl m
  | idle =>
      simp only
      split
      · exact rings_link m
      · exact Rings.refl m

theorem rings_rxUa : Rings m m.rxUa := by
  unfold rxUa
  cases m.lapm.state with
  | estab =>
      exact (((rings_setPhase m _).trans (rings_reset _)).trans (rings_timerStop _)).trans
        (rings_link _)
  | disc => exact rings_leaveStopped m
  | idle | data => exact Rings.refl m

theorem rings_rxXidRsp (f : Hdlc.Frame) : Rings m (m.rxXidRsp f) := by
  unfold rxXidRsp
  split
  · have taken := rings_rxXid m f
    generalize m.rxXid f = parsed at taken
    have cleared : Rings m
        (timerStop { parsed with lapm := { parsed.lapm with config := false } }) :=
      taken.trans (rings_of_clock rfl)
    simp only
    generalize timerStop { parsed with lapm := { parsed.lapm with config := false } } = stopped
      at cleared
    have ready : Rings stopped { stopped with lapm := { stopped.lapm with busy := false } } :=
      rings_of_clock rfl
    generalize { stopped with lapm := { stopped.lapm with busy := false } } = readied at ready
    cases stopped.lapm.state with
    | idle => exact cleared.trans (rings_lapmConnect _)
    | data => exact (cleared.trans ready).trans (rings_putCtrl _ _)
    | estab | disc => exact cleared
  · exact Rings.refl m

theorem rings_rxComplete (f : Hdlc.Frame) (chars : Chars) :
    Rings m (m.lapmRxComplete f chars) := by
  have valid := rings_validDataState m
  unfold lapmRxComplete
  generalize m.validDataState = state at valid
  simp only
  split
  · split
    · exact valid.trans (rings_rxInfo _ f chars)
    · exact valid
  · split
    · split
      · split
        · exact valid.trans (rings_rxSuperCmd _ f chars)
        · exact valid.trans (rings_rxSuperRsp _ f)
      · exact valid
    · split
      · split
        · exact rings_rxUnnumCmd m f
        · unfold rxUnnumRsp
          split
          · exact rings_rxDm m f
          · split
            · exact rings_rxUa m
            · split
              · exact rings_rxXidRsp m f
              · exact Rings.refl m
      · exact Rings.refl m

/-! ### Fetching and timer -/

theorem rings_sendInfo (more : m.lapm.txInfo ≠ m.lapm.infoList) : Rings m m.sendInfo.1 := by
  intro numbered
  have sent := numbered.send more
  unfold sendInfo
  simp only
  split
  · exact ⟨{ sent with }, rfl⟩
  · exact ⟨{ sent with }, rfl⟩

theorem rings_getTxFrame (chars : Chars) : Rings m (m.lapmGetTxFrame chars).1 := by
  unfold lapmGetTxFrame
  simp only
  split
  · exact rings_of_clock rfl
  · split
    · exact Rings.refl m
    · have filled : Rings m (if m.lapm.txInfo = m.lapm.infoList then m.txInfo chars
          else (m, true)).1 := by
        split
        · exact (moves_txInfo m chars).rings
        · exact Rings.refl m
      have more : (if m.lapm.txInfo = m.lapm.infoList then m.txInfo chars else (m, true)).2 = true →
          (if m.lapm.txInfo = m.lapm.infoList then m.txInfo chars else (m, true)).1.lapm.txInfo ≠
          (if m.lapm.txInfo = m.lapm.infoList then m.txInfo chars
            else (m, true)).1.lapm.infoList := by
        split
        · exact txInfo_more m chars
        · rename_i some
          exact fun _ => some
      generalize (if m.lapm.txInfo = m.lapm.infoList then m.txInfo chars else (m, true)) = sent
        at filled more
      split
      · rename_i some
        exact filled.trans (rings_sendInfo _ (more some))
      · exact filled

theorem rings_t401Timeout : Rings m m.t401Timeout := by
  unfold t401Timeout
  split
  · unfold t401Exhausted
    have counted : Rings m { m with lapm := { m.lapm with rtxCount := 0 } } := rings_of_clock rfl
    simp only
    generalize { m with lapm := { m.lapm with rtxCount := 0 } } = stopped at counted
    cases m.lapm.state with
    | estab | disc => exact (counted.trans (rings_setPhase _ _)).trans (rings_release _)
    | data => exact counted.trans (rings_lapmDisconnect _)
    | idle => exact counted
  · have resent := clock_t401Resend
      { m with lapm := { m.lapm with rtxCount := m.lapm.rtxCount + 1 } }
    have counted : Rings m (t401Resend
        { m with lapm := { m.lapm with rtxCount := m.lapm.rtxCount + 1 } }) :=
      rings_of_clock resent
    simp only
    exact counted.trans (rings_of_clock rfl)

theorem clock_timerStart : m.timerStart.clock = m.clock.start := rfl

theorem rings_lapmConfig : Rings m m.lapmConfig := by
  have told : (m.lapmConfig).clock = { m.clock.start with config := true } := by
    unfold lapmConfig txXid
    simp only
    rw [clock_timerStart, clock_putCtrl]
    by_cases data : m.lapm.state = .data
    · rw [if_pos data]
      unfold txRnr
      rw [clock_txSuper]
      rfl
    · rw [if_neg data]
      rfl
  exact rings_of_clock told

end Rings

/-! ### Stored information -/

def stored (m : Modem) : Nat × (Nat → List UInt8) :=
  (m.lapm.infoList, fun i => (m.lapm.infoBuf i).info)

def Spares (m m' : Modem) : Prop :=
  ∀ i, i ≠ m.lapm.infoList → (m'.lapm.infoBuf i).info = (m.lapm.infoBuf i).info

section Stored

variable {m m' m'' : Modem}

theorem spares_of_stored (same : m'.stored = m.stored) : Spares m m' := by
  intro i _
  exact congrFun (congrArg Prod.snd same) i

theorem Spares.after (same : m'.stored = m.stored) (spares : Spares m' m'') : Spares m m'' := by
  intro i other
  have list : m'.lapm.infoList = m.lapm.infoList := congrArg Prod.fst same
  rw [spares i (by rw [list]; exact other)]
  exact congrFun (congrArg Prod.snd same) i

theorem Spares.before (spares : Spares m m') (same : m''.stored = m'.stored) : Spares m m'' := by
  intro i other
  rw [← spares i other]
  exact congrFun (congrArg Prod.snd same) i

variable (m)

@[simp]
theorem stored_putCtrl (bytes : List UInt8) : (m.putCtrl bytes).stored = m.stored := by
  unfold putCtrl
  split <;> rfl

@[simp]
theorem stored_setState (newState : ModemState) :
    (m.modemSetState newState).stored = m.stored := by
  unfold modemSetState
  split
  · rfl
  · cases newState <;> rfl

@[simp]
theorem stored_setPhase (phase : LapmPhase) : (m.setPhase phase).stored = m.stored := rfl

@[simp]
theorem stored_timerStart : m.timerStart.stored = m.stored := rfl

@[simp]
theorem stored_timerStop : m.timerStop.stored = m.stored := rfl

@[simp]
theorem stored_reset : m.reset.stored = m.stored := rfl

@[simp]
theorem stored_scheduled : m.defaultResult.scheduleModemStop.stored = m.stored := by
  unfold defaultResult
  split <;> rfl

@[simp]
theorem stored_lapmDisconnect : m.lapmDisconnect.stored = m.stored := by
  simp [lapmDisconnect, txDisc, txUnnum]

@[simp]
theorem stored_hup (isLocal : Bool) : (m.modemHup isLocal).stored = m.stored := by
  unfold modemHup
  cases m.state with
  | modemIdle | dpDisc => rfl
  | dpEstab | ecDisc => simp
  | ecEstab | modemOnline | commandOnline =>
      simp only
      split
      · simp only [stored_scheduled, stored_setState, modemEcStop, stored_lapmDisconnect]
        rfl
      · simp

@[simp]
theorem stored_release : (m.modemUpdateStatus .ecRelease).stored = m.stored :=
  stored_hup { m with resultCode := .nocarrier } _

@[simp]
theorem stored_error : (m.modemUpdateStatus .error).stored = m.stored :=
  stored_hup { m with resultCode := .nocarrier } _

@[simp]
theorem stored_link : (m.modemUpdateStatus .ecLink).stored = m.stored := by
  change ((m.logLink.modemSetState .modemOnline).modemReportResult .connect).stored = m.stored
  rw [report_eq]
  exact stored_setState m.logLink .modemOnline

@[simp]
theorem stored_txReady (addr pf : UInt8) : (m.txReady addr pf).stored = m.stored := by
  unfold txReady
  split
  · exact stored_putCtrl m _
  · exact stored_putCtrl m _

@[simp]
theorem stored_rejectInfo : m.rejectInfo.stored = m.stored := by
  unfold rejectInfo
  split <;> rfl

@[simp]
theorem stored_ackTimer (n : Nat) : (m.ackTimer n).stored = m.stored := by
  unfold ackTimer
  split_ifs <;> rfl

@[simp]
theorem stored_ackInfo (nr : Nat) : (m.ackInfo nr).stored = m.stored := by
  unfold ackInfo
  split
  · exact stored_lapmDisconnect m
  · rcases ackLoop_frame 128 m.lapm nr with ⟨sentInfo, va, same⟩
    simp only [stored_ackTimer]
    unfold stored
    simp only [same]

@[simp]
theorem stored_callPutChars (chars : Chars) (bytes : List UInt8) (n : Int) :
    (m.callPutChars chars bytes n).1.stored = m.stored := by
  unfold callPutChars
  split
  · rfl
  · simp only
    split
    · exact stored_error _
    · rfl

theorem spares_txInfo (chars : Chars) : Spares m (m.txInfo chars).1 := by
  unfold txInfo
  simp only
  split_ifs
  · exact spares_of_stored rfl
  · exact spares_of_stored rfl
  · exact spares_of_stored rfl
  · cases chars.get with
    | none => exact spares_of_stored (stored_release m)
    | some given =>
        simp only
        split
        · exact spares_of_stored rfl
        · intro i other
          simp only [Function.update_of_ne other]
  · exact spares_of_stored rfl

theorem stored_recvInfo (f : Hdlc.Frame) (chars : Chars) :
    (m.recvInfo f chars).stored = m.stored := by
  have put := stored_callPutChars m chars (f.buf.drop 3) ((f.count : Int) - 3)
  unfold recvInfo
  simp only
  split
  · exact put
  · exact put

theorem spares_respondInfo (f : Hdlc.Frame) (chars : Chars) :
    Spares m (m.respondInfo f chars) := by
  unfold respondInfo
  split
  · exact spares_of_stored (stored_putCtrl m _)
  · split
    · exact spares_of_stored (stored_putCtrl m _)
    · simp only
      split
      · exact spares_txInfo m chars
      · exact (spares_txInfo m chars).before (stored_putCtrl _ _)

theorem spares_rxInfo (f : Hdlc.Frame) (chars : Chars) : Spares m (m.rxInfo f chars) := by
  have acked := stored_ackInfo m (Frame.nr f)
  unfold rxInfo
  generalize m.ackInfo (Frame.nr f) = after at acked
  simp only
  split
  · split
    · exact spares_of_stored ((stored_putCtrl after _).trans acked)
    · exact spares_of_stored acked
  · split
    · split
      · exact spares_of_stored acked
      · exact spares_of_stored ((stored_putCtrl after _).trans acked)
    · have taken := stored_recvInfo
        { after with lapm := { after.lapm with reject := false } } f chars
      generalize recvInfo { after with lapm := { after.lapm with reject := false } } f chars =
        received at taken
      have counted : stored
          { received with lapm := { received.lapm with vr := seqNext received.lapm.vr } } =
          m.stored := taken.trans acked
      exact (spares_respondInfo _ f chars).after counted

theorem spares_answerSuper (f : Hdlc.Frame) (chars : Chars) :
    Spares m (m.answerSuper f chars) := by
  unfold answerSuper
  split
  · exact spares_of_stored (stored_txReady m _ _)
  · simp only
    split
    · exact spares_txInfo m chars
    · exact (spares_txInfo m chars).before (stored_txReady _ _ _)

theorem stored_peerAck (peerBusy : Bool) (nr : Nat) :
    ((m.setPeerBusy peerBusy).ackInfo nr).stored = m.stored :=
  stored_ackInfo (m.setPeerBusy peerBusy) nr

theorem spares_rxSuperCmd (f : Hdlc.Frame) (chars : Chars) : Spares m (m.rxSuperCmd f chars) := by
  have ready := stored_peerAck m false (Frame.nr f)
  have busy := stored_peerAck m true (Frame.nr f)
  unfold rxSuperCmd
  generalize (m.setPeerBusy false).ackInfo (Frame.nr f) = readyAcked at ready
  generalize (m.setPeerBusy true).ackInfo (Frame.nr f) = busyAcked at busy
  simp only
  split
  · exact (spares_answerSuper _ f chars).after ready
  · split
    · split
      · exact spares_of_stored ((stored_txReady _ _ _).trans busy)
      · exact spares_of_stored busy
    · split
      · apply (spares_answerSuper _ f chars).after
        split
        · exact (stored_rejectInfo _).trans ready
        · exact ready
      · exact spares_of_stored rfl

theorem stored_rxSuperRsp (f : Hdlc.Frame) : (m.rxSuperRsp f).stored = m.stored := by
  have ready := stored_peerAck m false (Frame.nr f)
  have busy := stored_peerAck m true (Frame.nr f)
  unfold rxSuperRsp
  generalize (m.setPeerBusy false).ackInfo (Frame.nr f) = readyAcked at ready
  generalize (m.setPeerBusy true).ackInfo (Frame.nr f) = busyAcked at busy
  simp only
  split_ifs <;> simp [ready, busy]

theorem stored_validDataState : m.validDataState.1.stored = m.stored := by
  unfold validDataState
  cases m.lapm.state <;> simp

theorem stored_lapmConnect : m.lapmConnect.stored = m.stored := by
  unfold lapmConnect
  split
  · rfl
  · simp [txSabme, txUnnum]

theorem stored_rxXid (f : Hdlc.Frame) : (m.rxXid f).stored = m.stored := by
  rcases rxXid_frame m f with ⟨l, _, _, _, _, _, link, same⟩
  rw [same]
  unfold stored
  simp only
  rw [link.same]

theorem stored_rxUnnumCmd (f : Hdlc.Frame) : (m.rxUnnumCmd f).stored = m.stored := by
  unfold rxUnnumCmd
  split
  · simp [rxSabme, txUa, txUnnum]
  · split
    · unfold rxDisc
      split
      · exact stored_putCtrl m _
      · simp [txUa, txUnnum]
    · split
      · exact (stored_putCtrl _ _).trans (stored_rxXid m f)
      · rfl

theorem stored_rxXidRsp (f : Hdlc.Frame) : (m.rxXidRsp f).stored = m.stored := by
  unfold rxXidRsp
  split
  · have taken := stored_rxXid m f
    generalize m.rxXid f = parsed at taken
    simp only
    have cleared : (timerStop
        { parsed with lapm := { parsed.lapm with config := false } }).stored = m.stored := taken
    generalize timerStop { parsed with lapm := { parsed.lapm with config := false } } = stopped
      at cleared
    have ready : stored { stopped with lapm := { stopped.lapm with busy := false } } = m.stored :=
      cleared
    generalize { stopped with lapm := { stopped.lapm with busy := false } } = readied at ready
    cases stopped.lapm.state with
    | idle => exact (stored_lapmConnect _).trans cleared
    | data => exact (stored_putCtrl _ _).trans ready
    | estab | disc => exact cleared
  · rfl

theorem stored_rxUnnumRsp (f : Hdlc.Frame) : (m.rxUnnumRsp f).stored = m.stored := by
  unfold rxUnnumRsp
  split
  · unfold rxDm
    cases m.lapm.state <;> simp only <;> split <;> simp
  · split
    · unfold rxUa
      cases m.lapm.state <;> simp
    · split
      · exact stored_rxXidRsp m f
      · rfl

theorem spares_rxComplete (f : Hdlc.Frame) (chars : Chars) :
    Spares m (m.lapmRxComplete f chars) := by
  have valid := stored_validDataState m
  unfold lapmRxComplete
  generalize m.validDataState = state at valid
  simp only
  split
  · split
    · exact (spares_rxInfo _ f chars).after valid
    · exact spares_of_stored valid
  · split
    · split
      · split
        · exact (spares_rxSuperCmd _ f chars).after valid
        · exact spares_of_stored ((stored_rxSuperRsp _ f).trans valid)
      · exact spares_of_stored valid
    · split
      · split
        · exact spares_of_stored (stored_rxUnnumCmd m f)
        · exact spares_of_stored (stored_rxUnnumRsp m f)
      · exact spares_of_stored rfl

theorem stored_sendInfo : m.sendInfo.1.stored = m.stored := by
  have same : ∀ i, (Function.update m.lapm.infoBuf m.lapm.txInfo
      { m.lapm.infoBuf m.lapm.txInfo with
        ctrl := [m.lapm.cmdAddr, UInt8.ofNat (m.lapm.vs <<< 1),
          UInt8.ofNat (m.lapm.vr <<< 1)] } i).info = (m.lapm.infoBuf i).info := by
    intro i
    by_cases here : i = m.lapm.txInfo
    · rw [here, Function.update_self]
    · rw [Function.update_of_ne here]
  unfold sendInfo
  simp only
  split
  · exact Prod.ext rfl (funext same)
  · exact Prod.ext rfl (funext same)

theorem spares_getTxFrame (chars : Chars) : Spares m (m.lapmGetTxFrame chars).1 := by
  unfold lapmGetTxFrame
  simp only
  split
  · exact spares_of_stored rfl
  · split
    · exact spares_of_stored rfl
    · have filled : Spares m (if m.lapm.txInfo = m.lapm.infoList then m.txInfo chars
          else (m, true)).1 := by
        split
        · exact spares_txInfo m chars
        · exact spares_of_stored rfl
      generalize (if m.lapm.txInfo = m.lapm.infoList then m.txInfo chars else (m, true)) = sent
        at filled
      split
      · exact filled.before (stored_sendInfo _)
      · exact filled

theorem stored_pushRestData (chars : Chars) : (m.pushRestData chars).stored = m.stored := by
  have put := stored_callPutChars m chars (m.lapm.rxBuf.drop m.lapm.rxHead) m.lapm.rxCount
  unfold pushRestData
  generalize m.callPutChars chars (m.lapm.rxBuf.drop m.lapm.rxHead) m.lapm.rxCount = handed at put
  simp only
  split_ifs
  · rfl
  · have cleared : stored
        { handed.1 with
          lapm :=
            { handed.1.lapm with
              rxHead := 0
              rxCount := handed.1.lapm.rxCount - handed.2
              busy := false } } = m.stored := put
    exact (stored_putCtrl _ _).trans cleared
  · exact put
  · exact put
  · rfl

theorem stored_t401Timeout : m.t401Timeout.stored = m.stored := by
  unfold t401Timeout
  split
  · unfold t401Exhausted
    have counted : stored { m with lapm := { m.lapm with rtxCount := 0 } } = m.stored := rfl
    simp only
    generalize { m with lapm := { m.lapm with rtxCount := 0 } } = stopped at counted
    cases m.lapm.state with
    | estab | disc => simp [counted]
    | data => simp [counted]
    | idle => exact counted
  · have resent : ∀ m' : Modem, m'.t401Resend.stored = m'.stored := by
      intro m'
      unfold t401Resend
      split
      · exact stored_putCtrl m' _
      · cases m'.lapm.state with
        | estab | disc => exact stored_putCtrl m' _
        | data => exact stored_txReady m' _ _
        | idle => rfl
    exact resent { m with lapm := { m.lapm with rtxCount := m.lapm.rtxCount + 1 } }

theorem stored_lapmConfig : m.lapmConfig.stored = m.stored := by
  unfold lapmConfig txXid
  simp only [stored_timerStart, stored_putCtrl]
  split
  · exact stored_putCtrl _ _
  · rfl

end Stored

/-! ### Runs -/

inductive LapmEvent where
  | frame (f : Hdlc.Frame) (chars : Chars)
  | fetch (chars : Chars)
  | prefetch (chars : Chars)
  | push (chars : Chars)
  | timeout
  | connect
  | config
  | disconnect
  | stop
  | setState (newState : ModemState)

def lapmStep (m : Modem) : LapmEvent → Modem
  | .frame f chars => m.lapmRxComplete f chars
  | .fetch chars => (m.lapmGetTxFrame chars).1
  | .prefetch chars => (m.txInfo chars).1
  | .push chars => m.pushRestData chars
  | .timeout => t401Timeout { m with bitTimer := 0 }
  | .connect => m.lapmConnect
  | .config => m.lapmConfig
  | .disconnect => m.lapmDisconnect
  | .stop => m.modemEcStop
  | .setState newState => m.modemSetState newState

def lapmRun (m : Modem) : List LapmEvent → Modem
  | [] => m
  | event :: rest => (m.lapmStep event).lapmRun rest

theorem rings_lapmStep (m : Modem) (event : LapmEvent) : Rings m (m.lapmStep event) := by
  cases event with
  | frame f chars => exact rings_rxComplete m f chars
  | fetch chars => exact rings_getTxFrame m chars
  | prefetch chars => exact (moves_txInfo m chars).rings
  | push chars => exact (moves_pushRestData m chars).rings
  | timeout =>
      have cleared : Rings m { m with bitTimer := 0 } := rings_of_clock rfl
      exact cleared.trans (rings_t401Timeout _)
  | connect => exact rings_lapmConnect m
  | config => exact rings_lapmConfig m
  | disconnect => exact rings_lapmDisconnect m
  | stop =>
      have cleared : Rings m { m with bitTimer := 0, packerProcess := false } := rings_of_clock rfl
      exact cleared.trans (rings_lapmDisconnect _)
  | setState newState => exact rings_of_clock (clock_setState m newState)

theorem rings_lapmRun (m : Modem) (events : List LapmEvent) : Rings m (m.lapmRun events) := by
  induction events generalizing m with
  | nil => exact Rings.refl m
  | cons event rest ih => exact (rings_lapmStep m event).trans (ih _)

theorem spares_lapmStep (m : Modem) (event : LapmEvent) : Spares m (m.lapmStep event) := by
  cases event with
  | frame f chars => exact spares_rxComplete m f chars
  | fetch chars => exact spares_getTxFrame m chars
  | prefetch chars => exact spares_txInfo m chars
  | push chars => exact spares_of_stored (stored_pushRestData m chars)
  | timeout => exact spares_of_stored (stored_t401Timeout { m with bitTimer := 0 })
  | connect => exact spares_of_stored (stored_lapmConnect m)
  | config => exact spares_of_stored (stored_lapmConfig m)
  | disconnect => exact spares_of_stored (stored_lapmDisconnect m)
  | stop =>
      exact spares_of_stored
        (stored_lapmDisconnect { m with bitTimer := 0, packerProcess := false })
  | setState newState => exact spares_of_stored (stored_setState m newState)

theorem numbered_lapmInit (m : Modem) (window : m.cfg.ecTxWinSize = lapmMaxWinSize) :
    m.lapmInit.clock.Numbered :=
  { va := show 0 < 128 by decide
    sent := show 0 < lapmInfoFrames by decide
    tx := show 0 < lapmInfoFrames by decide
    list := show 0 < lapmInfoFrames by decide
    vs := show 0 = (0 + ringLength lapmInfoFrames 0 0) % 128 by decide
    within := Nat.le_refl _
    window := window }

/-! ### The ring along the next pointers -/

theorem iterate_nextInfo {i : Nat} (inRing : i < lapmInfoFrames) (n : Nat) :
    nextInfo^[n] i = (i + n) % lapmInfoFrames := by
  induction n with
  | zero => exact (Nat.mod_eq_of_lt inRing).symm
  | succ n ih =>
      rw [Function.iterate_succ_apply', ih]
      unfold nextInfo
      rw [Nat.mod_add_mod, Nat.add_assoc]

/-- The pointers `sent_info`, `tx_info` and `info_list` stand in this order along the
next pointers, the numbers count the frames between the first two, and no more than
the window lies between the first and the last. -/
structure RingOrdered (l : LapmState) : Prop where
  slots : l.sentInfo < lapmInfoFrames ∧ l.txInfo < lapmInfoFrames ∧ l.infoList < lapmInfoFrames
  sent : nextInfo^[seqSub l.vs l.va] l.sentInfo = l.txInfo
  window : seqSub l.vs l.va ≤ lapmMaxWinSize
  list : ∃ n, seqSub l.vs l.va ≤ n ∧ n ≤ lapmMaxWinSize ∧
    nextInfo^[n] l.sentInfo = l.infoList

theorem ringOrdered_of_numbered {m : Modem} (numbered : m.clock.Numbered) :
    RingOrdered m.lapm := by
  have sentLt : m.lapm.sentInfo < lapmInfoFrames := numbered.sent
  have txLt : m.lapm.txInfo < lapmInfoFrames := numbered.tx
  have listLt : m.lapm.infoList < lapmInfoFrames := numbered.list
  have outstanding : seqSub m.lapm.vs m.lapm.va =
    ringLength lapmInfoFrames m.lapm.sentInfo m.lapm.txInfo := numbered.outstanding
  have short := ringLength_lt m.lapm.sentInfo m.lapm.txInfo (show 0 < lapmInfoFrames by decide)
  have shortList := ringLength_lt m.lapm.sentInfo m.lapm.infoList
    (show 0 < lapmInfoFrames by decide)
  constructor
  · exact ⟨sentLt, txLt, listLt⟩
  · rw [iterate_nextInfo sentLt, outstanding]
    exact ring_last sentLt txLt
  · rw [outstanding]
    exact Nat.le_of_lt_succ short
  · refine ⟨ringLength lapmInfoFrames m.lapm.sentInfo m.lapm.infoList, ?_, ?_, ?_⟩
    · rw [outstanding]
      exact numbered.within
    · exact Nat.le_of_lt_succ shortList
    · rw [iterate_nextInfo sentLt]
      exact ring_last sentLt listLt

/-- The slots from `sent_info` up to `info_list`: no acknowledgement has come for them. -/
def unacked (l : LapmState) : List Nat :=
  (List.range (ringLength lapmInfoFrames l.sentInfo l.infoList)).map fun k =>
    nextInfo^[k] l.sentInfo

theorem infoList_not_unacked {m : Modem} (numbered : m.clock.Numbered) {i : Nat}
    (member : i ∈ unacked m.lapm) : i ≠ m.lapm.infoList := by
  have sentLt : m.lapm.sentInfo < lapmInfoFrames := numbered.sent
  have listLt : m.lapm.infoList < lapmInfoFrames := numbered.list
  have short := ringLength_lt m.lapm.sentInfo m.lapm.infoList
    (show 0 < lapmInfoFrames by decide)
  rcases List.mem_map.mp member with ⟨k, inRange, rfl⟩
  have before := List.mem_range.mp inRange
  intro same
  have offset := ringLength_of_offset sentLt (Nat.lt_trans before short)
  rw [iterate_nextInfo sentLt] at same
  rw [same] at offset
  omega

theorem txInfo_header (m : Modem) (chars : Chars) (filled : (m.txInfo chars).2 = true) :
    (m.txInfo chars).1.lapm.cmdAddr = m.lapm.cmdAddr ∧
      (m.txInfo chars).1.lapm.vs = m.lapm.vs ∧ (m.txInfo chars).1.lapm.vr = m.lapm.vr ∧
      (m.txInfo chars).1.lapm.txInfo = m.lapm.txInfo := by
  unfold txInfo at filled ⊢
  simp only at filled ⊢
  split_ifs at filled ⊢ with closed drained full charless
  · cases got : chars.get with
    | none =>
        rw [got] at filled
        cases filled
    | some bytes =>
        simp only [got] at filled ⊢
        split at filled
        · cases filled
        · rename_i some
          rw [if_neg some]
          exact ⟨rfl, rfl, rfl, rfl⟩
  · exact ⟨rfl, rfl, rfl, rfl⟩

theorem sendInfo_frame (m : Modem) :
    m.sendInfo.2 = some (m.lapm.cmdAddr :: UInt8.ofNat (m.lapm.vs <<< 1) ::
      UInt8.ofNat (m.lapm.vr <<< 1) :: (m.sendInfo.1.lapm.infoBuf m.lapm.txInfo).info) := by
  unfold sendInfo
  simp only
  split <;> simp [timerStart]

/-- An information frame is sent with the number `vs`. -/
theorem getTxFrame_header (m : Modem) (chars : Chars) (frame : List UInt8)
    (empty : m.lapm.txCtrl = m.lapm.ctrlList)
    (sent : (m.lapmGetTxFrame chars).2 = some frame) :
    frame = m.lapm.cmdAddr :: UInt8.ofNat (m.lapm.vs <<< 1) :: UInt8.ofNat (m.lapm.vr <<< 1) ::
      ((m.lapmGetTxFrame chars).1.lapm.infoBuf m.lapm.txInfo).info := by
  unfold lapmGetTxFrame at sent ⊢
  simp only [ne_eq, empty, not_true, if_false] at sent ⊢
  split at sent
  · cases sent
  · rename_i ready
    rw [if_neg ready]
    have header : (if m.lapm.txInfo = m.lapm.infoList then m.txInfo chars else (m, true)).2 = true →
        (if m.lapm.txInfo = m.lapm.infoList then m.txInfo chars
          else (m, true)).1.lapm.cmdAddr = m.lapm.cmdAddr ∧
        (if m.lapm.txInfo = m.lapm.infoList then m.txInfo chars
          else (m, true)).1.lapm.vs = m.lapm.vs ∧
        (if m.lapm.txInfo = m.lapm.infoList then m.txInfo chars
          else (m, true)).1.lapm.vr = m.lapm.vr ∧
        (if m.lapm.txInfo = m.lapm.infoList then m.txInfo chars
          else (m, true)).1.lapm.txInfo = m.lapm.txInfo := by
      split
      · exact txInfo_header m chars
      · exact fun _ => ⟨rfl, rfl, rfl, rfl⟩
    generalize (if m.lapm.txInfo = m.lapm.infoList then m.txInfo chars else (m, true)) = filled
      at sent header
    split at sent
    · rename_i some
      rcases header some with ⟨addr, vs, vr, tx⟩
      rw [if_pos some]
      rw [sendInfo_frame] at sent
      rw [addr, vs, vr, tx] at sent
      exact (Option.some.inj sent).symm
    · cases sent

/-- In every run from `lapm_init`, the pointers and the numbers stay in order, no frame
is missing, no step touches the information of a frame that is not acknowledged, and a
frame is sent with the number of its place behind `sent_info`. -/
theorem ring_window (m : Modem) (events : List LapmEvent) :
    let s := m.modemSetupConfig.lapmInit.lapmRun events
    RingOrdered s.lapm ∧ s.allocErrors = m.allocErrors ∧
      (∀ event, ∀ i ∈ unacked s.lapm,
        ((s.lapmStep event).lapm.infoBuf i).info = (s.lapm.infoBuf i).info) ∧
      ∀ chars frame, s.lapm.txCtrl = s.lapm.ctrlList →
        (s.lapmGetTxFrame chars).2 = some frame →
        ∃ n, n ≤ lapmMaxWinSize ∧ nextInfo^[n] s.lapm.sentInfo = s.lapm.txInfo ∧
          frame = s.lapm.cmdAddr :: UInt8.ofNat (((s.lapm.va + n) % 128) <<< 1) ::
            UInt8.ofNat (s.lapm.vr <<< 1) ::
            ((s.lapmGetTxFrame chars).1.lapm.infoBuf s.lapm.txInfo).info := by
  intro s
  rcases rings_lapmRun m.modemSetupConfig.lapmInit events (numbered_lapmInit _ rfl) with
    ⟨numbered, none⟩
  have ordered : RingOrdered s.lapm := ringOrdered_of_numbered numbered
  refine ⟨ordered, none, ?_, ?_⟩
  · intro event i member
    exact spares_lapmStep s event i (infoList_not_unacked numbered member)
  · intro chars frame empty sent
    have number : (s.lapm.va + seqSub s.lapm.vs s.lapm.va) % 128 = s.lapm.vs := by
      have va : s.lapm.va < 128 := numbered.va
      have vs : s.lapm.vs < 128 := numbered.vs_lt
      unfold seqSub
      omega
    refine ⟨seqSub s.lapm.vs s.lapm.va, ordered.window, ordered.sent, ?_⟩
    rw [number]
    exact getTxFrame_header s chars frame empty sent

end Modem

end DModem
