/-
What LAPM does with characters: which bytes it offers to `put_chars`, and that it keeps
what `get_chars` returns.

Everything else that it does leaves the logs of characters alone.
-/

import DModem.Lapm.Delivery

namespace DModem.Lapm

/-- The logs of characters and the number of bytes that `tx_info` asks for. -/
structure Traffic where
  taken : List Chunk
  delivered : List UInt8
  infoSize : Nat

def traffic (m : Modem) : Traffic :=
  { taken := m.taken
    delivered := delivered m
    infoSize := m.lapm.txInfoSize }

/-- `put_chars` accepts `accept` bytes of what it is offered, if it is called. -/
def Traffic.deliver (t : Traffic) (offer : Option (List UInt8)) (accept : Nat) : Traffic :=
  { t with delivered := t.delivered ++ (offer.getD []).take accept }

/-- Either nothing was kept of `get_chars`, or what it returned. -/
def Traffic.Feeds (chars : Chars) (t t' : Traffic) : Prop :=
  t' = t ∨ ∃ given, chars.get = some given ∧ given.take t.infoSize ≠ [] ∧
    t' = { t with taken := t.taken ++ [given.take t.infoSize] }

/-! ### What `put_chars` is offered -/

/-- What `rx_info` offers to `put_chars`; `none` where it does not call it. -/
def offeredInfo (m : Modem) (f : Hdlc.Frame) : Option (List UInt8) :=
  let m := m.ackInfo (Frame.nr f)
  if m.lapm.busy ∨ Frame.ns f ≠ m.lapm.vr ∨ m.putChars = none then none
  else some ((f.buf.drop 3).take ((f.count : Int) - 3).toNat)

/-- What `lapm_rx_complete` offers to `put_chars`. -/
def offeredFrame (m : Modem) (f : Hdlc.Frame) : Option (List UInt8) :=
  if Frame.type f = Modem.frameI ∧ m.validDataState.2 = true then
    offeredInfo m.validDataState.1 f
  else none

/-- What `push_rest_data` offers to `put_chars`. -/
def offeredRest (m : Modem) : Option (List UInt8) :=
  if m.lapm.state = .data ∧ m.lapm.rxCount ≠ 0 ∧ m.putChars ≠ none then some (core m).rest
  else none

section Unchanged

variable (m : Modem)

theorem Quiet.traffic {m m' : Modem} (quiet : Quiet m m') : traffic m' = traffic m := by
  unfold Lapm.traffic
  rw [quiet.taken, quiet.delivered, quiet.lapm]

@[simp]
theorem traffic_putCtrl (bytes : List UInt8) : traffic (m.putCtrl bytes) = traffic m := by
  unfold Modem.putCtrl
  split
  · rfl
  · rfl

@[simp]
theorem traffic_txSuper (addr ctrl pf : UInt8) : traffic (m.txSuper addr ctrl pf) = traffic m :=
  traffic_putCtrl m _

@[simp]
theorem traffic_txReady (addr pf : UInt8) : traffic (m.txReady addr pf) = traffic m := by
  unfold Modem.txReady
  split
  · exact traffic_txSuper m _ _ _
  · exact traffic_txSuper m _ _ _

@[simp]
theorem traffic_timerStop : traffic m.timerStop = traffic m := rfl

@[simp]
theorem traffic_timerStart : traffic m.timerStart = traffic m := rfl

@[simp]
theorem traffic_reset : traffic m.reset = traffic m := rfl

@[simp]
theorem traffic_setPhase (phase : LapmPhase) : traffic (m.setPhase phase) = traffic m := rfl

@[simp]
theorem traffic_setPeerBusy (peerBusy : Bool) :
    traffic (m.setPeerBusy peerBusy) = traffic m := rfl

@[simp]
theorem traffic_lapmDisconnect : traffic m.lapmDisconnect = traffic m :=
  (traffic_putCtrl (m.setPhase .disc) _).trans rfl

@[simp]
theorem traffic_rejectInfo : traffic m.rejectInfo = traffic m := by
  unfold Modem.rejectInfo
  split
  · rfl
  · rfl

@[simp]
theorem traffic_ackTimer (n : Nat) : traffic (m.ackTimer n) = traffic m := by
  unfold Modem.ackTimer
  split
  · split
    · rfl
    · rfl
  · rfl

@[simp]
theorem traffic_ackInfo (nr : Nat) : traffic (m.ackInfo nr) = traffic m := by
  unfold Modem.ackInfo
  split
  · exact traffic_lapmDisconnect m
  · rcases Modem.ackLoop_frame 128 m.lapm nr with ⟨sentInfo, va, same⟩
    simp only [traffic_ackTimer]
    rw [same]
    rfl

@[simp]
theorem traffic_release : traffic (m.modemUpdateStatus .ecRelease) = traffic m :=
  (quiet_release m).traffic

@[simp]
theorem traffic_link : traffic (m.modemUpdateStatus .ecLink) = traffic m := (quiet_link m).traffic

@[simp]
theorem traffic_validDataState : traffic m.validDataState.1 = traffic m := by
  unfold Modem.validDataState
  cases m.lapm.state with
  | idle => rfl
  | estab => exact traffic_link _
  | data => rfl
  | disc => exact traffic_release _

end Unchanged

/-! ### Taking and handing on -/

section Characters

variable (m : Modem)

theorem traffic_callPutChars (chars : Chars) (bytes : List UInt8) (n : Int) :
    traffic (m.callPutChars chars bytes n).1 =
      (traffic m).deliver (if m.putChars = none then none else some (bytes.take n.toNat))
        chars.accept := by
  unfold Modem.callPutChars Traffic.deliver
  cases called : m.putChars with
  | none =>
      rw [if_pos rfl]
      simp [traffic]
  | some routine =>
      rw [if_neg (by simp)]
      simp only [Option.getD_some]
      have logged : traffic { m with out :=
          m.out ++ [.data (bytes.take (min chars.accept n.toNat))] } =
          { traffic m with
            delivered := (traffic m).delivered ++ (bytes.take n.toNat).take chars.accept } := by
        simp [traffic, delivered, deliveredOf, List.take_take]
      split
      · rw [(quiet_error _).traffic]
        exact logged
      · exact logged

theorem traffic_txInfo (chars : Chars) :
    (traffic m).Feeds chars (traffic (m.txInfo chars).1) := by
  unfold Modem.txInfo
  simp only
  split
  · exact Or.inl rfl
  · split
    · split
      · exact Or.inl rfl
      · split
        · exact Or.inl rfl
        · cases given : chars.get with
          | none => exact Or.inl (quiet_ecError m).traffic
          | some bytes =>
              simp only
              split
              · exact Or.inl rfl
              · rename_i some'
                exact Or.inr ⟨bytes, given, some', rfl⟩
    · exact Or.inl rfl

theorem traffic_recvInfo (f : Hdlc.Frame) (chars : Chars) :
    traffic (m.recvInfo f chars) = traffic (m.callPutChars chars (f.buf.drop 3)
      ((f.count : Int) - 3)).1 := by
  unfold Modem.recvInfo
  simp only
  split
  · rfl
  · rfl

theorem traffic_respondInfo (f : Hdlc.Frame) (chars : Chars) :
    (traffic m).Feeds chars (traffic (m.respondInfo f chars)) := by
  unfold Modem.respondInfo
  split
  · exact Or.inl (traffic_txSuper m _ _ _)
  · split
    · exact Or.inl (traffic_txSuper m _ _ _)
    · have sent := traffic_txInfo m chars
      simp only
      split
      · exact sent
      · rw [Modem.txRr, traffic_txSuper]
        exact sent

theorem traffic_rxInfo (f : Hdlc.Frame) (chars : Chars) :
    ((traffic m).deliver (offeredInfo m f) chars.accept).Feeds chars
      (traffic (m.rxInfo f chars)) := by
  have nothing : ∀ t : Traffic, t.deliver none chars.accept = t := by
    intro t
    simp [Traffic.deliver]
  unfold Modem.rxInfo offeredInfo
  have acked := traffic_ackInfo m (Frame.nr f)
  simp only
  generalize m.ackInfo (Frame.nr f) = m₁ at acked ⊢
  rw [← acked]
  by_cases busy : m₁.lapm.busy = true
  · rw [if_pos busy, if_pos (Or.inl busy), nothing]
    split
    · exact Or.inl (traffic_txSuper m₁ _ _ _)
    · exact Or.inl rfl
  · rw [if_neg busy]
    by_cases other : Frame.ns f ≠ m₁.lapm.vr
    · rw [if_pos other, if_pos (Or.inr (Or.inl other)), nothing]
      split
      · exact Or.inl rfl
      · exact Or.inl (traffic_txSuper m₁ _ _ _)
    · rw [if_neg other]
      have received := traffic_recvInfo { m₁ with lapm := { m₁.lapm with reject := false } } f chars
      rw [traffic_callPutChars] at received
      generalize Modem.recvInfo { m₁ with lapm := { m₁.lapm with reject := false } } f chars = m₂
        at received ⊢
      have offers : (if m₁.lapm.busy = true ∨ Frame.ns f ≠ m₁.lapm.vr ∨ m₁.putChars = none then
          none else some ((f.buf.drop 3).take ((f.count : Int) - 3).toNat)) =
          if m₁.putChars = none then none else
            some ((f.buf.drop 3).take ((f.count : Int) - 3).toNat) := by
        by_cases none' : m₁.putChars = none
        · rw [if_pos (Or.inr (Or.inr none')), if_pos none']
        · rw [if_neg (by simp [busy, not_not.mp other, none']), if_neg none']
      rw [offers]
      have same : (traffic m₁).deliver (if m₁.putChars = none then none else
          some ((f.buf.drop 3).take ((f.count : Int) - 3).toNat)) chars.accept =
          traffic { m₂ with lapm := { m₂.lapm with vr := seqNext m₂.lapm.vr } } := received.symm
      rw [same]
      exact traffic_respondInfo _ f chars

theorem traffic_answerSuper (f : Hdlc.Frame) (chars : Chars) :
    (traffic m).Feeds chars (traffic (m.answerSuper f chars)) := by
  unfold Modem.answerSuper
  split
  · exact Or.inl (traffic_txReady m _ _)
  · have sent := traffic_txInfo m chars
    simp only
    split
    · exact sent
    · rw [traffic_txReady]
      exact sent

theorem traffic_rxSuperCmd (f : Hdlc.Frame) (chars : Chars) :
    (traffic m).Feeds chars (traffic (m.rxSuperCmd f chars)) := by
  unfold Modem.rxSuperCmd
  split
  · have answered := traffic_answerSuper ((m.setPeerBusy false).ackInfo (Frame.nr f)) f chars
    rw [traffic_ackInfo, traffic_setPeerBusy] at answered
    exact answered
  · split
    · left
      simp only
      split
      · rw [traffic_txReady, traffic_ackInfo, traffic_setPeerBusy]
      · rw [traffic_ackInfo, traffic_setPeerBusy]
    · split
      · simp only
        split
        · have answered := traffic_answerSuper
            ((m.setPeerBusy false).ackInfo (Frame.nr f)).timerStop.rejectInfo f chars
          rw [traffic_rejectInfo, traffic_timerStop, traffic_ackInfo,
            traffic_setPeerBusy] at answered
          exact answered
        · have answered :=
            traffic_answerSuper ((m.setPeerBusy false).ackInfo (Frame.nr f)) f chars
          rw [traffic_ackInfo, traffic_setPeerBusy] at answered
          exact answered
      · exact Or.inl rfl

theorem traffic_rxSuperRsp (f : Hdlc.Frame) : traffic (m.rxSuperRsp f) = traffic m := by
  unfold Modem.rxSuperRsp
  split_ifs <;> simp only <;> split_ifs <;> simp

theorem traffic_rxUnnumRsp (f : Hdlc.Frame) (harmless : ¬ Frame.ctrl f &&& 0xef = Modem.frameUXid) :
    traffic (m.rxUnnumRsp f) = traffic m := by
  unfold Modem.rxUnnumRsp
  split
  · unfold Modem.rxDm
    split <;> first | rfl | (split <;> simp)
  · split
    · unfold Modem.rxUa
      split <;> simp
    · rfl

theorem traffic_rxUnnumCmd (f : Hdlc.Frame) (harmless : ¬ Frame.ctrl f &&& 0xef = Modem.frameUXid) :
    traffic (m.rxUnnumCmd f) = traffic m := by
  unfold Modem.rxUnnumCmd
  split
  · unfold Modem.rxSabme
    rw [traffic_link, traffic_timerStop]
    exact (traffic_putCtrl _ _).trans rfl
  · split
    · unfold Modem.rxDisc
      split
      · exact traffic_putCtrl m _
      · rw [traffic_release, traffic_timerStop]
        exact (traffic_putCtrl _ _).trans rfl
    · rfl

theorem traffic_rxComplete (f : Hdlc.Frame) (chars : Chars)
    (harmless : Frame.type f = Modem.frameU → ¬ Frame.ctrl f &&& 0xef = Modem.frameUXid) :
    ((traffic m).deliver (offeredFrame m f) chars.accept).Feeds chars
      (traffic (m.lapmRxComplete f chars)) := by
  have nothing : ∀ t : Traffic, t.deliver none chars.accept = t := by
    intro t
    simp [Traffic.deliver]
  unfold Modem.lapmRxComplete offeredFrame
  by_cases info : Frame.type f = Modem.frameI
  · rw [if_pos info]
    simp only
    by_cases valid : m.validDataState.2 = true
    · rw [if_pos valid, if_pos ⟨info, valid⟩, ← traffic_validDataState m]
      exact traffic_rxInfo _ f chars
    · rw [if_neg valid, if_neg (fun both => valid both.2), nothing]
      exact Or.inl (traffic_validDataState m)
  · rw [if_neg info, if_neg (fun both => info both.1), nothing]
    by_cases super : Frame.type f = Modem.frameS
    · rw [if_pos super]
      simp only
      split
      · split
        · rw [← traffic_validDataState m]
          exact traffic_rxSuperCmd _ f chars
        · left
          rw [traffic_rxSuperRsp, traffic_validDataState]
      · exact Or.inl (traffic_validDataState m)
    · rw [if_neg super]
      by_cases unnum : Frame.type f = Modem.frameU
      · rw [if_pos unnum]
        split
        · exact Or.inl (traffic_rxUnnumCmd m f (harmless unnum))
        · exact Or.inl (traffic_rxUnnumRsp m f (harmless unnum))
      · rw [if_neg unnum]
        exact Or.inl rfl

theorem traffic_getTxFrame (chars : Chars) :
    (traffic m).Feeds chars (traffic (m.lapmGetTxFrame chars).1) := by
  have sending : ∀ m' : Modem, traffic m'.sendInfo.1 = traffic m' := by
    intro m'
    unfold Modem.sendInfo
    simp only
    split
    · rfl
    · rfl
  unfold Modem.lapmGetTxFrame
  simp only
  split
  · exact Or.inl rfl
  · split
    · exact Or.inl rfl
    · split
      · split
        · rw [sending]
          exact traffic_txInfo m chars
        · exact traffic_txInfo m chars
      · exact Or.inl (sending m)

theorem traffic_pushRestData (chars : Chars) :
    traffic (m.pushRestData chars) = (traffic m).deliver (offeredRest m) chars.accept := by
  have nothing : ∀ t : Traffic, t.deliver none chars.accept = t := by
    intro t
    simp [Traffic.deliver]
  unfold Modem.pushRestData offeredRest
  by_cases closed : m.lapm.state ≠ .data
  · rw [if_pos closed, if_neg (fun both => closed both.1), nothing]
  · rw [if_neg closed]
    by_cases waits : m.lapm.rxCount ≠ 0 ∧ m.putChars ≠ none
    · have put := traffic_callPutChars m chars (m.lapm.rxBuf.drop m.lapm.rxHead) m.lapm.rxCount
      rw [if_neg waits.2] at put
      have both : m.lapm.state = .data ∧ m.lapm.rxCount ≠ 0 ∧ m.putChars ≠ none :=
        ⟨not_not.mp closed, waits⟩
      rw [if_pos waits, if_pos both]
      simp only
      split_ifs
      · change traffic (Modem.txRr _ _ 0) = _
        exact (traffic_putCtrl _ _).trans put
      · exact put
      · exact put
    · rw [if_neg waits, if_neg (fun both => waits both.2), nothing]

theorem traffic_t401Resend : traffic m.t401Resend = traffic m := by
  unfold Modem.t401Resend
  split
  · exact traffic_putCtrl m _
  · cases m.lapm.state with
    | idle => rfl
    | estab | disc => exact traffic_putCtrl m _
    | data => exact traffic_txReady m _ _

theorem traffic_t401Timeout : traffic m.t401Timeout = traffic m := by
  unfold Modem.t401Timeout
  split
  · unfold Modem.t401Exhausted
    simp only
    cases m.lapm.state with
    | idle => rfl
    | estab | disc => exact (traffic_release _).trans rfl
    | data => exact (traffic_lapmDisconnect _).trans rfl
  · exact (traffic_t401Resend { m with lapm := { m.lapm with rtxCount := m.lapm.rtxCount + 1 } })

end Characters

end DModem.Lapm
