/-
Received data that waits for the terminal.

What `put_chars` did not take of a frame stays in `rx_buf` until `push_rest_data` has
handed it on, and meanwhile the modem is busy.  A reset of the link clears `busy` and
leaves `rx_count`.
-/

import DModem.Modem.Acknowledge

namespace DModem

/-- What LAPM keeps of the data that waits, and the data handed on so far. -/
structure RestData where
  count : Int
  head : Nat
  buf : List UInt8
  spilled : Nat
  handed : List (List UInt8)
  busy : Bool
  packer : Bool

def Output.data? : Output → Option (List UInt8)
  | .data bytes => some bytes
  | _ => none

namespace Modem

def rest (m : Modem) : RestData :=
  { count := m.lapm.rxCount
    head := m.lapm.rxHead
    buf := m.lapm.rxBuf
    spilled := m.lapm.spilled
    handed := m.out.filterMap Output.data?
    busy := m.lapm.busy
    packer := m.packerProcess }

section Rest

variable (m : Modem)

@[simp]
theorem rest_putCtrl (bytes : List UInt8) : (m.putCtrl bytes).rest = m.rest := by
  unfold putCtrl
  split <;> rfl

@[simp]
theorem rest_setState (newState : ModemState) : (m.modemSetState newState).rest = m.rest := by
  unfold modemSetState
  split
  · rfl
  · cases newState <;> rfl

@[simp]
theorem rest_scheduled : m.defaultResult.scheduleModemStop.rest = m.rest := by
  unfold defaultResult
  split <;> rfl

@[simp]
theorem rest_setPhase (phase : LapmPhase) : (m.setPhase phase).rest = m.rest := rfl

@[simp]
theorem rest_timerStart : m.timerStart.rest = m.rest := rfl

@[simp]
theorem rest_timerStop : m.timerStop.rest = m.rest := rfl

@[simp]
theorem rest_reset : m.reset.rest = { m.rest with busy := false } := rfl

@[simp]
theorem rest_lapmDisconnect : m.lapmDisconnect.rest = m.rest := by
  simp [lapmDisconnect, txDisc, txUnnum]

theorem rest_hup (isLocal : Bool)
    (remote : m.state = .ecEstab ∨ m.state = .modemOnline ∨ m.state = .commandOnline →
      isLocal = false) : (m.modemHup isLocal).rest = m.rest := by
  unfold modemHup
  cases stateEq : m.state with
  | modemIdle | dpDisc => rfl
  | dpEstab | ecDisc => simp
  | ecEstab | modemOnline | commandOnline =>
      have notLocal := remote (by simp [stateEq])
      simp [notLocal]

@[simp]
theorem rest_release : (m.modemUpdateStatus .ecRelease).rest = m.rest := by
  have hup := rest_hup { m with resultCode := .nocarrier } (decide (m.state = .ecDisc)) (by
    intro linked
    change m.state = _ ∨ m.state = _ ∨ m.state = _ at linked
    rcases linked with linked | linked | linked <;> simp [linked])
  exact hup

theorem rest_error : (m.modemUpdateStatus .error).rest = m.rest := by
  have hup := rest_hup { m with resultCode := .nocarrier } m.state.disc (by
    intro linked
    change m.state = _ ∨ m.state = _ ∨ m.state = _ at linked
    rcases linked with linked | linked | linked <;> simp [linked, ModemState.disc])
  exact hup

@[simp]
theorem rest_report (code : ModemResult) : (m.modemReportResult code).rest = m.rest := by
  rw [report_eq]
  cases quiet : m.isQuiet with
  | true => simp [rest, printed, quiet]
  | false => simp [rest, printed, quiet, Output.data?]

@[simp]
theorem rest_link : (m.modemUpdateStatus .ecLink).rest = m.rest := by
  change ((m.logLink.modemSetState .modemOnline).modemReportResult .connect).rest = m.rest
  rw [rest_report, rest_setState]
  rfl

@[simp]
theorem rest_txReady (addr pf : UInt8) : (m.txReady addr pf).rest = m.rest := by
  unfold txReady
  split
  · exact rest_putCtrl m _
  · exact rest_putCtrl m _

@[simp]
theorem rest_rejectInfo : m.rejectInfo.rest = m.rest := by
  unfold rejectInfo
  split <;> rfl

@[simp]
theorem rest_ackInfo (nr : Nat) : (m.ackInfo nr).rest = m.rest := by
  unfold ackInfo
  split
  · exact rest_lapmDisconnect m
  · rcases ackLoop_frame 128 m.lapm nr with ⟨sentInfo, va, same⟩
    simp only
    unfold ackTimer
    split_ifs <;> simp [rest, same, timerStop, timerStart]

@[simp]
theorem rest_peerAck (peerBusy : Bool) (nr : Nat) :
    ((m.setPeerBusy peerBusy).ackInfo nr).rest = m.rest :=
  rest_ackInfo (m.setPeerBusy peerBusy) nr

theorem rest_txInfo (chars : Chars) : (m.txInfo chars).1.rest = m.rest := by
  unfold txInfo
  simp only
  split_ifs
  · rfl
  · rfl
  · rfl
  · cases chars.get with
    | none => exact rest_release m
    | some given =>
        simp only
        split <;> rfl
  · rfl

theorem rest_respondInfo (f : Hdlc.Frame) (chars : Chars) :
    (m.respondInfo f chars).rest = m.rest := by
  unfold respondInfo
  split
  · exact rest_putCtrl m _
  · split
    · exact rest_putCtrl m _
    · simp only
      split
      · exact rest_txInfo m chars
      · exact (rest_putCtrl _ _).trans (rest_txInfo m chars)

theorem rest_answerSuper (f : Hdlc.Frame) (chars : Chars) :
    (m.answerSuper f chars).rest = m.rest := by
  unfold answerSuper
  split
  · exact rest_txReady m _ _
  · simp only
    split
    · exact rest_txInfo m chars
    · exact (rest_txReady _ _ _).trans (rest_txInfo m chars)

theorem rest_rxSuperCmd (f : Hdlc.Frame) (chars : Chars) :
    (m.rxSuperCmd f chars).rest = m.rest := by
  unfold rxSuperCmd
  simp only
  split
  · exact (rest_answerSuper _ f chars).trans (rest_peerAck m false _)
  · split
    · split
      · exact (rest_txReady _ _ _).trans (rest_peerAck m true _)
      · exact rest_peerAck m true _
    · split
      · rw [rest_answerSuper]
        split
        · exact (rest_rejectInfo _).trans (rest_peerAck m false _)
        · exact rest_peerAck m false _
      · rfl

theorem rest_rxSuperRsp (f : Hdlc.Frame) : (m.rxSuperRsp f).rest = m.rest := by
  have ready := rest_peerAck m false (Frame.nr f)
  have busy := rest_peerAck m true (Frame.nr f)
  unfold rxSuperRsp
  generalize (m.setPeerBusy false).ackInfo (Frame.nr f) = readyAcked at ready
  generalize (m.setPeerBusy true).ackInfo (Frame.nr f) = busyAcked at busy
  simp only
  split_ifs <;> simp [ready, busy]

theorem rest_rxXid (f : Hdlc.Frame) : (m.rxXid f).rest = m.rest := by
  rcases rxXid_frame m f with ⟨l, _, _, _, _, _, link, same⟩
  rw [same]
  unfold rest
  simp only
  rw [link.same]

theorem rest_callPutChars (chars : Chars) (bytes : List UInt8) (n : Int) :
    ∃ handed, (m.callPutChars chars bytes n).1.rest = { m.rest with handed := handed } := by
  unfold callPutChars
  cases m.putChars with
  | none => exact ⟨m.rest.handed, rfl⟩
  | some routine =>
      simp only
      split
      · rw [rest_error]
        exact ⟨_, rfl⟩
      · exact ⟨_, rfl⟩

theorem rest_lapmConnect :
    m.lapmConnect.rest = m.rest ∨ m.lapmConnect.rest = { m.rest with busy := false } := by
  unfold lapmConnect
  split
  · exact Or.inl rfl
  · right
    simp [txSabme, txUnnum]

theorem rest_t401Timeout : m.t401Timeout.rest = m.rest := by
  unfold t401Timeout
  split
  · unfold t401Exhausted
    have counted : rest { m with lapm := { m.lapm with rtxCount := 0 } } = m.rest := rfl
    simp only
    generalize { m with lapm := { m.lapm with rtxCount := 0 } } = stopped at counted
    cases m.lapm.state with
    | estab | disc => simp [counted]
    | data => simp [counted]
    | idle => exact counted
  · have resent : ∀ m' : Modem, m'.t401Resend.rest = m'.rest := by
      intro m'
      unfold t401Resend
      split
      · exact rest_putCtrl m' _
      · cases m'.lapm.state with
        | estab | disc => exact rest_putCtrl m' _
        | data => exact rest_txReady m' _ _
        | idle => rfl
    exact resent { m with lapm := { m.lapm with rtxCount := m.lapm.rtxCount + 1 } }

theorem rest_lapmConfig :
    m.lapmConfig.rest = m.rest ∨ m.lapmConfig.rest = { m.rest with busy := true } := by
  unfold lapmConfig txXid
  simp only [rest_timerStart, rest_putCtrl]
  split
  · exact Or.inr (rest_putCtrl _ _)
  · exact Or.inl rfl

theorem rest_sendInfo : m.sendInfo.1.rest = m.rest := by
  unfold sendInfo
  simp only
  split <;> rfl

theorem rest_getTxFrame (chars : Chars) : (m.lapmGetTxFrame chars).1.rest = m.rest := by
  unfold lapmGetTxFrame
  simp only
  split
  · rfl
  · split
    · rfl
    · have filled : (if m.lapm.txInfo = m.lapm.infoList then m.txInfo chars
          else (m, true)).1.rest = m.rest := by
        split
        · exact rest_txInfo m chars
        · rfl
      generalize (if m.lapm.txInfo = m.lapm.infoList then m.txInfo chars else (m, true)) = sent
        at filled
      split
      · exact (rest_sendInfo _).trans filled
      · exact filled

end Rest

/-! ### The data is held -/

def Held (m : Modem) : Prop :=
  m.lapm.state = .data → 0 < m.lapm.rxCount → m.lapm.busy = true ∧ m.packerProcess = true

section Held

variable {m m' : Modem}

theorem Held.of_phase (other : m.lapm.state ≠ .data) : Held m := fun data => absurd data other

theorem Held.of_none (none : ¬ 0 < m.lapm.rxCount) : Held m := fun _ some => absurd some none

theorem Held.of_rest (held : Held m) (same : m'.rest = m.rest)
    (phase : m'.lapm.state = .data → m.lapm.state = .data) : Held m' := by
  intro data some
  have count : m'.lapm.rxCount = m.lapm.rxCount := congrArg RestData.count same
  have busy : m'.lapm.busy = m.lapm.busy := congrArg RestData.busy same
  have packer : m'.packerProcess = m.packerProcess := congrArg RestData.packer same
  rw [busy, packer]
  exact held (phase data) (by rw [← count]; exact some)

theorem Held.of_clock (held : Held m) (same : m'.rest = m.rest)
    (phase : m'.lapm.state = m.lapm.state) : Held m' :=
  held.of_rest same fun data => phase.symm.trans data

theorem count_of_rest {r : RestData} (same : m'.rest = r) : m'.lapm.rxCount = r.count :=
  congrArg RestData.count same

theorem held_ackInfo (held : Held m) (nr : Nat) : Held (m.ackInfo nr) := by
  apply held.of_rest (rest_ackInfo m nr)
  intro data
  rcases keeps_ackInfo m nr with same | gone
  · exact same.symm.trans data
  · rw [gone] at data
    cases data

/-- What `put_chars` leaves of a frame is stored, and the modem becomes busy. -/
theorem rest_recvInfo (m : Modem) (f : Hdlc.Frame) (chars : Chars) :
    ((m.recvInfo f chars).lapm.busy = true ∧ (m.recvInfo f chars).packerProcess = true) ∨
      (m.recvInfo f chars).lapm.rxCount = m.lapm.rxCount := by
  rcases rest_callPutChars m chars (f.buf.drop 3) ((f.count : Int) - 3) with ⟨handed, put⟩
  unfold recvInfo
  simp only
  split
  · exact Or.inl ⟨rfl, rfl⟩
  · exact Or.inr (count_of_rest put)

theorem held_rxInfo (held : Held m) (data : m.lapm.state = .data) (f : Hdlc.Frame)
    (chars : Chars) : Held (m.rxInfo f chars) := by
  have acked := held_ackInfo held (Frame.nr f)
  have count : (m.ackInfo (Frame.nr f)).lapm.rxCount = m.lapm.rxCount :=
    count_of_rest (rest_ackInfo m _)
  have busy : (m.ackInfo (Frame.nr f)).lapm.busy = m.lapm.busy :=
    congrArg RestData.busy (rest_ackInfo m (Frame.nr f))
  unfold rxInfo
  generalize m.ackInfo (Frame.nr f) = after at acked count busy
  simp only
  split
  · split
    · exact acked.of_clock (rest_putCtrl _ _) (congrArg Clock.phase (clock_putCtrl after _))
    · exact acked
  · rename_i idle
    split
    · split
      · exact acked
      · have told : Held (after.txRej after.lapm.rspAddr (Frame.pf f)) :=
          acked.of_clock (rest_putCtrl _ _) (congrArg Clock.phase (clock_putCtrl after _))
        exact told
    · have none : ¬ 0 < after.lapm.rxCount := by
        intro some
        rw [count] at some
        exact idle (busy.trans (held data some).1)
      have received := rest_recvInfo
        { after with lapm := { after.lapm with reject := false } } f chars
      generalize recvInfo { after with lapm := { after.lapm with reject := false } } f chars =
        taken at received
      have counted : Held
          { taken with lapm := { taken.lapm with vr := seqNext taken.lapm.vr } } := by
        rcases received with stored | same
        · exact fun _ _ => stored
        · apply Held.of_none
          rw [show (_ : LapmState).rxCount = _ from same]
          exact none
      generalize { taken with lapm := { taken.lapm with vr := seqNext taken.lapm.vr } } = next
        at counted
      exact counted.of_clock (rest_respondInfo _ f chars) (moves_respondInfo _ f chars).phase

theorem held_pushRestData (held : Held m) (chars : Chars) : Held (m.pushRestData chars) := by
  rcases rest_callPutChars m chars (m.lapm.rxBuf.drop m.lapm.rxHead) m.lapm.rxCount with
    ⟨handed, put⟩
  have phase := (moves_callPutChars m chars (m.lapm.rxBuf.drop m.lapm.rxHead) m.lapm.rxCount).phase
  unfold pushRestData
  generalize m.callPutChars chars (m.lapm.rxBuf.drop m.lapm.rxHead) m.lapm.rxCount = after
    at put phase
  have kept : Held after.1 := by
    intro data some
    have busy : after.1.lapm.busy = m.lapm.busy := congrArg RestData.busy put
    have packer : after.1.packerProcess = m.packerProcess := congrArg RestData.packer put
    have count : after.1.lapm.rxCount = m.lapm.rxCount := congrArg RestData.count put
    rw [busy, packer]
    exact held (phase.symm.trans data) (by rw [← count]; exact some)
  simp only
  split_ifs with other waiting taken empty
  · exact held
  · apply Held.of_none
    have cleared := count_of_rest (rest_putCtrl
      { after.1 with
        lapm :=
          { after.1.lapm with
            rxHead := 0
            rxCount := after.1.lapm.rxCount - after.2
            busy := false } }
      [after.1.lapm.cmdAddr, frameSRr, UInt8.ofNat (after.1.lapm.vr <<< 1) ||| 0])
    intro some
    have zero : (0 : Int) < after.1.lapm.rxCount - after.2 := by
      rw [show after.1.lapm.rxCount - after.2 = _ from cleared.symm]
      exact some
    omega
  · intro data some
    have more : (0 : Int) < after.1.lapm.rxCount - after.2 := some
    exact kept data (by omega)
  · exact kept
  · exact held

end Held

/-! ### Frames -/

def LosesRest (m : Modem) (f : Hdlc.Frame) : Prop :=
  0 < m.lapm.rxCount ∧
    (IsCommand m.lapm f frameUSabme ∨
      (m.lapm.state = .estab ∧ (IsLinkFrame f ∨ IsResponse m.lapm f frameUUa)) ∨
      (m.lapm.state = .data ∧ m.lapm.config = true ∧ IsResponse m.lapm f frameUXid))

section Frames

variable {m : Modem} {f : Hdlc.Frame}

theorem held_rxSabme (safe : ¬ 0 < m.lapm.rxCount) : Held (m.rxSabme f) := by
  apply Held.of_none
  have same : (m.rxSabme f).rest = { m.rest with busy := false } := by
    simp [rxSabme, txUa, txUnnum]
  rw [count_of_rest same]
  exact safe

theorem held_rxDisc (held : Held m) : Held (m.rxDisc f) := by
  unfold rxDisc
  split
  · exact held.of_clock (rest_putCtrl _ _) (phase_putCtrl m _)
  · apply Held.of_phase
    simp [txUa, txUnnum]

theorem held_rxUnnumCmd (held : Held m)
    (safe : Frame.ctrl f &&& 0xef = frameUSabme → ¬ 0 < m.lapm.rxCount) :
    Held (m.rxUnnumCmd f) := by
  unfold rxUnnumCmd
  split
  · rename_i sabme
    exact held_rxSabme (safe sabme)
  · split
    · exact held_rxDisc held
    · split
      · have parsed : Held (m.rxXid f) := held.of_clock (rest_rxXid m f) (phase_rxXid m f)
        exact parsed.of_clock (rest_putCtrl _ _) (phase_putCtrl _ _)
      · exact held

theorem held_rxDm (held : Held m) : Held (m.rxDm f) := by
  unfold rxDm
  split
  · split
    · exact Held.of_phase (by simp)
    · exact held
  · split
    · exact Held.of_phase (by simp)
    · exact held
  · split
    · exact Held.of_phase (by simp)
    · exact held
  · rename_i idle
    split
    · apply Held.of_phase
      rw [phase_link, idle]
      decide
    · exact held

theorem held_rxUa (held : Held m) (safe : m.lapm.state = .estab → ¬ 0 < m.lapm.rxCount) :
    Held m.rxUa := by
  unfold rxUa
  split
  · rename_i estab
    apply Held.of_none
    have same : (((m.setPhase .data).reset.timerStop).modemUpdateStatus .ecLink).rest =
        { m.rest with busy := false } := by simp
    rw [count_of_rest same]
    exact safe estab
  · exact Held.of_phase (by simp)
  · exact held

theorem held_rxXidRsp (held : Held m)
    (safe : m.lapm.config = true → m.lapm.state = .data → ¬ 0 < m.lapm.rxCount) :
    Held (m.rxXidRsp f) := by
  unfold rxXidRsp
  split
  · rename_i config
    have taken := rest_rxXid m f
    have phase := phase_rxXid m f
    generalize m.rxXid f = parsed at taken phase
    have cleared : (timerStop
        { parsed with lapm := { parsed.lapm with config := false } }).rest = m.rest := taken
    have same : (timerStop
        { parsed with lapm := { parsed.lapm with config := false } }).lapm.state =
        m.lapm.state := phase
    simp only
    generalize timerStop { parsed with lapm := { parsed.lapm with config := false } } = stopped
      at cleared same
    have ready : rest { stopped with lapm := { stopped.lapm with busy := false } } =
        { stopped.rest with busy := false } := rfl
    generalize { stopped with lapm := { stopped.lapm with busy := false } } = readied at ready
    split
    · rename_i idle
      apply Held.of_phase
      unfold lapmConnect
      rw [if_neg (by rw [idle]; decide)]
      simp [txSabme, txUnnum]
    · rename_i data
      apply Held.of_none
      have told : (readied.txRr stopped.lapm.cmdAddr 0).rest = { m.rest with busy := false } := by
        rw [← cleared, ← ready]
        exact rest_putCtrl readied _
      rw [count_of_rest told]
      exact safe config (same.symm.trans data)
    · exact held.of_clock cleared same
  · exact held

theorem held_rxUnnumRsp (held : Held m)
    (ua : Frame.ctrl f &&& 0xef = frameUUa → m.lapm.state = .estab → ¬ 0 < m.lapm.rxCount)
    (xid : Frame.ctrl f &&& 0xef = frameUXid → m.lapm.config = true → m.lapm.state = .data →
      ¬ 0 < m.lapm.rxCount) : Held (m.rxUnnumRsp f) := by
  unfold rxUnnumRsp
  split
  · exact held_rxDm held
  · split
    · rename_i isUa
      exact held_rxUa held (ua isUa)
    · split
      · rename_i isXid
        exact held_rxXidRsp held (xid isXid)
      · exact held

theorem held_validDataState (held : Held m)
    (safe : m.lapm.state = .estab → ¬ 0 < m.lapm.rxCount) : Held m.validDataState.1 := by
  unfold validDataState
  split
  · rename_i estab
    apply Held.of_none
    have same : ((m.reset.setPhase .data).modemUpdateStatus .ecLink).rest =
        { m.rest with busy := false } := by simp
    rw [count_of_rest same]
    exact safe estab
  · exact held
  · exact Held.of_phase (by simp)
  · exact held

theorem phase_validDataState (valid : m.validDataState.2 = true) :
    m.validDataState.1.lapm.state = .data := by
  unfold validDataState at valid ⊢
  cases phase : m.lapm.state with
  | estab => simp
  | data => exact phase
  | disc | idle =>
      rw [phase] at valid
      cases valid

theorem held_rxSuper (held : Held m) (chars : Chars) :
    Held (if Frame.addr f = m.lapm.rspAddr then m.rxSuperCmd f chars else m.rxSuperRsp f) := by
  have stays : ∀ m' : Modem, Keeps m m' → m'.lapm.state = .data → m.lapm.state = .data := by
    intro m' keeps data
    rcases keeps with same | gone
    · exact same.symm.trans data
    · rw [gone] at data
      cases data
  split
  · exact held.of_rest (rest_rxSuperCmd m f chars) (stays _ (keeps_rxSuperCmd m f chars))
  · exact held.of_rest (rest_rxSuperRsp m f) (stays _ (keeps_rxSuperRsp m f))

theorem held_rxComplete (held : Held m) (chars : Chars) (safe : ¬ m.LosesRest f) :
    Held (m.lapmRxComplete f chars) := by
  have early : IsLinkFrame f → m.lapm.state = .estab → ¬ 0 < m.lapm.rxCount := by
    intro link estab some
    exact safe ⟨some, Or.inr (Or.inl ⟨estab, Or.inl link⟩)⟩
  unfold lapmRxComplete
  split
  · rename_i info
    have valid := held_validDataState held (early (Or.inl info))
    simp only
    split
    · rename_i isValid
      exact held_rxInfo valid (phase_validDataState isValid) f chars
    · exact valid
  · split
    · rename_i super
      have valid := held_validDataState held (early (Or.inr super))
      simp only
      split
      · exact held_rxSuper valid chars
      · exact valid
    · split
      · rename_i unnum
        split
        · rename_i command
          apply held_rxUnnumCmd held
          intro sabme some
          exact safe ⟨some, Or.inl ⟨unnum, command, sabme⟩⟩
        · rename_i response
          apply held_rxUnnumRsp held
          · intro ua estab some
            exact safe ⟨some, Or.inr (Or.inl ⟨estab, Or.inr ⟨unnum, response, ua⟩⟩)⟩
          · intro xid config data some
            exact safe ⟨some, Or.inr (Or.inr ⟨data, config, unnum, response, xid⟩)⟩
      · exact held

end Frames

/-! ### Later frames -/

section Later

variable (m : Modem)

/-- Only `busy` may have changed. -/
def KeepsRest (m m' : Modem) : Prop := ∃ busy, m'.rest = { m.rest with busy := busy }

theorem keepsRest_of_same {m m' : Modem} (same : m'.rest = m.rest) : KeepsRest m m' :=
  ⟨m.rest.busy, same⟩

theorem keepsRest_rxUnnumCmd (f : Hdlc.Frame) : KeepsRest m (m.rxUnnumCmd f) := by
  unfold rxUnnumCmd
  split
  · refine ⟨false, ?_⟩
    simp [rxSabme, txUa, txUnnum]
  · split
    · unfold rxDisc
      split
      · exact keepsRest_of_same (rest_putCtrl m _)
      · refine ⟨false, ?_⟩
        simp [txUa, txUnnum]
    · split
      · exact keepsRest_of_same ((rest_putCtrl _ _).trans (rest_rxXid m f))
      · exact keepsRest_of_same rfl

theorem keepsRest_rxXidRsp (f : Hdlc.Frame) : KeepsRest m (m.rxXidRsp f) := by
  unfold rxXidRsp
  split
  · have taken := rest_rxXid m f
    generalize m.rxXid f = parsed at taken
    have cleared : (timerStop
        { parsed with lapm := { parsed.lapm with config := false } }).rest = m.rest := taken
    simp only
    generalize timerStop { parsed with lapm := { parsed.lapm with config := false } } = stopped
      at cleared
    have ready : rest { stopped with lapm := { stopped.lapm with busy := false } } =
        { stopped.rest with busy := false } := rfl
    generalize { stopped with lapm := { stopped.lapm with busy := false } } = readied at ready
    split
    · rcases rest_lapmConnect stopped with same | same
      · exact keepsRest_of_same (same.trans cleared)
      · refine ⟨false, ?_⟩
        rw [same, cleared]
    · refine ⟨false, ?_⟩
      rw [← cleared, ← ready]
      exact rest_putCtrl readied _
    · exact keepsRest_of_same cleared
  · exact keepsRest_of_same rfl

theorem keepsRest_rxUnnumRsp (f : Hdlc.Frame) : KeepsRest m (m.rxUnnumRsp f) := by
  unfold rxUnnumRsp
  split
  · unfold rxDm
    cases m.lapm.state with
    | estab | disc | data =>
        simp only
        split
        · exact ⟨false, by simp⟩
        · exact keepsRest_of_same rfl
    | idle =>
        simp only
        split
        · exact keepsRest_of_same (rest_link m)
        · exact keepsRest_of_same rfl
  · split
    · unfold rxUa
      cases m.lapm.state with
      | estab | disc => exact ⟨false, by simp⟩
      | data | idle => exact keepsRest_of_same rfl
    · split
      · exact keepsRest_rxXidRsp m f
      · exact keepsRest_of_same rfl

theorem rest_rxInfo_of_busy (f : Hdlc.Frame) (chars : Chars) (busy : m.lapm.busy = true) :
    (m.rxInfo f chars).rest = m.rest := by
  have acked := rest_ackInfo m (Frame.nr f)
  have stillBusy : (m.ackInfo (Frame.nr f)).lapm.busy = true :=
    (congrArg RestData.busy acked).trans busy
  unfold rxInfo
  generalize m.ackInfo (Frame.nr f) = after at acked stillBusy
  simp only
  rw [if_pos stillBusy]
  split
  · exact (rest_putCtrl _ _).trans acked
  · exact acked

theorem keepsRest_rxComplete (data : m.lapm.state = .data) (busy : m.lapm.busy = true)
    (f : Hdlc.Frame) (chars : Chars) : KeepsRest m (m.lapmRxComplete f chars) := by
  have valid : m.validDataState = (m, true) := by
    unfold validDataState
    rw [data]
  unfold lapmRxComplete
  rw [valid]
  simp only [if_true]
  split
  · exact keepsRest_of_same (rest_rxInfo_of_busy m f chars busy)
  · split
    · split
      · exact keepsRest_of_same (rest_rxSuperCmd m f chars)
      · exact keepsRest_of_same (rest_rxSuperRsp m f)
    · split
      · split
        · exact keepsRest_rxUnnumCmd m f
        · exact keepsRest_rxUnnumRsp m f
      · exact keepsRest_of_same rfl

end Later

/-! ### Runs -/

/-- No frame of the run lets the modem go on receiving while data waits. -/
def Careful (m : Modem) : List LapmEvent → Prop
  | [] => True
  | .frame f chars :: later => ¬ m.LosesRest f ∧ (m.lapmRxComplete f chars).Careful later
  | event :: later => (m.lapmStep event).Careful later

theorem held_t401Timeout {m : Modem} (held : Held m) :
    Held (t401Timeout { m with bitTimer := 0 }) := by
  apply held.of_rest (rest_t401Timeout { m with bitTimer := 0 })
  intro data
  unfold t401Timeout at data
  split at data
  · unfold t401Exhausted at data
    cases phase : m.lapm.state with
    | data => rfl
    | estab | disc | idle =>
        simp only [phase] at data
        simp at data
  · have resent := phase_t401Resend
      { m with bitTimer := 0, lapm := { m.lapm with rtxCount := m.lapm.rtxCount + 1 } }
    exact resent.symm.trans data

theorem held_lapmConfig {m : Modem} (held : Held m) : Held m.lapmConfig := by
  have phase : m.lapmConfig.lapm.state = m.lapm.state := by
    unfold lapmConfig txXid
    simp only [phase_timerStart, phase_putCtrl]
    split
    · exact phase_putCtrl _ _
    · rfl
  rcases rest_lapmConfig m with same | busied
  · exact held.of_clock same phase
  · intro data some
    have count : m.lapmConfig.lapm.rxCount = m.lapm.rxCount := congrArg RestData.count busied
    have busy : m.lapmConfig.lapm.busy = true := congrArg RestData.busy busied
    have packer : m.lapmConfig.packerProcess = m.packerProcess := congrArg RestData.packer busied
    rw [count] at some
    rw [packer]
    exact ⟨busy, (held (phase.symm.trans data) some).2⟩

theorem held_lapmStep {m : Modem} (held : Held m) (event : LapmEvent)
    (careful : m.Careful [event]) : Held (m.lapmStep event) := by
  cases event with
  | frame f chars => exact held_rxComplete held chars careful.1
  | fetch chars =>
      exact held.of_clock (rest_getTxFrame m chars) (phase_getTxFrame m chars)
  | prefetch chars => exact held.of_clock (rest_txInfo m chars) (moves_txInfo m chars).phase
  | push chars => exact held_pushRestData held chars
  | timeout => exact held_t401Timeout held
  | connect =>
      unfold lapmStep lapmConnect
      simp only
      split
      · exact held
      · exact Held.of_phase (by simp [txSabme, txUnnum])
  | config => exact held_lapmConfig held
  | disconnect => exact Held.of_phase (by simp [lapmStep])
  | stop => exact Held.of_phase (by simp [lapmStep, modemEcStop])
  | setState newState => exact held.of_clock (rest_setState m newState) (phase_setState m newState)

theorem held_lapmRun {m : Modem} (held : Held m) (events : List LapmEvent)
    (careful : m.Careful events) : Held (m.lapmRun events) := by
  induction events generalizing m with
  | nil => exact held
  | cons event later ih =>
      cases event with
      | frame f chars => exact ih (held_rxComplete held chars careful.1) careful.2
      | fetch | prefetch | push | timeout | connect | config | disconnect | stop | setState =>
          exact ih (held_lapmStep held _ trivial) careful

/-- In every run without such a frame, data waits on a link only while the modem is busy
and will push it, and no frame that comes meanwhile hands data on or touches the data
that waits. -/
theorem rest_held (m : Modem) (events : List LapmEvent)
    (careful : m.modemSetupConfig.lapmInit.Careful events)
    (data : (m.modemSetupConfig.lapmInit.lapmRun events).lapm.state = .data)
    (waits : 0 < (m.modemSetupConfig.lapmInit.lapmRun events).lapm.rxCount) :
    let s := m.modemSetupConfig.lapmInit.lapmRun events
    s.lapm.busy = true ∧ s.packerProcess = true ∧
      ∀ f chars,
        (s.lapmRxComplete f chars).rest.handed = s.rest.handed ∧
        (s.lapmRxComplete f chars).lapm.rxBuf = s.lapm.rxBuf ∧
        (s.lapmRxComplete f chars).lapm.rxHead = s.lapm.rxHead ∧
        (s.lapmRxComplete f chars).lapm.rxCount = s.lapm.rxCount := by
  intro s
  have start : Held m.modemSetupConfig.lapmInit := Held.of_phase (by simp [lapmInit])
  rcases held_lapmRun start events careful data waits with ⟨busy, packer⟩
  refine ⟨busy, packer, ?_⟩
  intro f chars
  rcases keepsRest_rxComplete s data busy f chars with ⟨busy', same⟩
  refine ⟨?_, ?_, ?_, ?_⟩
  · rw [same]
  · exact congrArg RestData.buf same
  · exact congrArg RestData.head same
  · exact congrArg RestData.count same

def infoFrame (ns : UInt8) (bytes : List UInt8) : Hdlc.Frame :=
  { count := 3 + bytes.length
    size := 512
    fcs := Hdlc.goodFcs
    buf := 3 :: ns <<< 1 :: 0 :: bytes }

def waitingRest : List LapmEvent :=
  [.frame sabmeFrame noChars, .frame (infoFrame 0 [1, 2]) noChars]

theorem rest_held_of_slow_terminal :
    let s := answering.modemSetupConfig.lapmInit.lapmRun waitingRest
    s.lapm.rxBuf = [1, 2] ∧ s.lapm.busy = true ∧ s.packerProcess = true := by
  have careful : answering.modemSetupConfig.lapmInit.Careful waitingRest := by
    refine ⟨?_, ?_, trivial⟩
    · exact fun loses => absurd loses.1 (by decide)
    · exact fun loses => absurd loses.1 (by decide)
  have held := rest_held answering waitingRest careful (by decide) (by decide)
  exact ⟨by decide, held.1, held.2.1⟩

/-- A second SABME clears `busy`, and the next frame overwrites the data that waits. -/
theorem rest_lost_by_sabme :
    let s := answering.modemSetupConfig.lapmInit.lapmRun
      (waitingRest ++ [.frame sabmeFrame noChars])
    s.lapm.state = .data ∧ s.lapm.rxCount = 2 ∧ s.lapm.busy = false ∧
      s.lapm.rxBuf = [1, 2] ∧
      (s.lapmRxComplete (infoFrame 0 [3]) noChars).lapm.rxBuf = [3] := by
  decide

end Modem

end DModem
