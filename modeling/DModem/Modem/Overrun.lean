/-
Information fields that are too long for `rx_buf`.

`rx_info` copies what `put_chars` has not taken to `rx_buf`, however much it is.  The first
thing behind the buffer is the `next` pointer of the first information frame.  Until it is
written over, the ring keeps its order.
-/

import DModem.Modem.Rest

namespace DModem

namespace Modem

/-! ### What is left of a frame -/

/-- What `put_chars` leaves of the information field. -/
def infoLeft (routine : Option CharRoutine) (f : Hdlc.Frame) (chars : Chars) : Int :=
  let n : Int := (f.count : Int) - 3
  n - if routine = none then 0 else min chars.accept n.toNat

/-- How far the copy of the rest goes beyond `rx_buf`. -/
def spillOf (left : Int) : Nat := copySize left - lapmMaxInfoSize

theorem spillOf_none (left : Int) (fits : 0 ≤ left ∧ left ≤ lapmMaxInfoSize) :
    spillOf left = 0 := by
  have small : ¬ left < 0 := by omega
  unfold spillOf copySize
  rw [if_neg small]
  omega

theorem spillOf_some (left : Int) (least : -3 ≤ left)
    (long : left < 0 ∨ lapmMaxInfoSize < left) : 0 < spillOf left := by
  unfold spillOf copySize
  unfold lapmMaxInfoSize at *
  split <;> omega

theorem infoLeft_least (routine : Option CharRoutine) (f : Hdlc.Frame) (chars : Chars) :
    -3 ≤ infoLeft routine f chars := by
  unfold infoLeft
  simp only
  split <;> omega

/-- `put_chars` as it is when the frame is handled: a link that comes up sets it. -/
def receiver (m : Modem) : Option CharRoutine :=
  if m.lapm.state = .estab then (m.modemSetState .modemOnline).putChars else m.putChars

def TakesInfo (m : Modem) (f : Hdlc.Frame) : Prop :=
  Frame.type f = frameI ∧
    (m.lapm.state = .estab ∧ Frame.ns f = 0 ∨
      m.lapm.state = .data ∧ m.lapm.busy = false ∧ Frame.ns f = m.lapm.vr)

/-- The rest of the frame is longer than `rx_buf`, or the frame has no third octet. -/
def Overruns (m : Modem) (f : Hdlc.Frame) (chars : Chars) : Prop :=
  m.TakesInfo f ∧
    (infoLeft m.receiver f chars < 0 ∨ lapmMaxInfoSize < infoLeft m.receiver f chars)

instance (m : Modem) (f : Hdlc.Frame) : Decidable (m.TakesInfo f) :=
  inferInstanceAs (Decidable (_ ∧ _))

instance (m : Modem) (f : Hdlc.Frame) (chars : Chars) : Decidable (m.Overruns f chars) :=
  inferInstanceAs (Decidable (_ ∧ _))

/-! ### The memory behind the buffer -/

section Spill

variable (m : Modem)

theorem putChars_ackInfo (nr : Nat) :
    (m.ackInfo nr).putChars = m.putChars ∧ (m.ackInfo nr).lapm.vr = m.lapm.vr := by
  have queued : ∀ (m' : Modem) (bytes : List UInt8),
      (m'.putCtrl bytes).putChars = m'.putChars ∧ (m'.putCtrl bytes).lapm.vr = m'.lapm.vr := by
    intro m' bytes
    unfold putCtrl
    split <;> exact ⟨rfl, rfl⟩
  unfold ackInfo
  split
  · exact queued (m.setPhase .disc) _
  · rcases ackLoop_frame 128 m.lapm nr with ⟨sentInfo, va, same⟩
    simp only [same]
    unfold ackTimer
    split_ifs <;> exact ⟨rfl, rfl⟩

theorem ret_callPutChars (chars : Chars) (bytes : List UInt8) (n : Int) :
    (m.callPutChars chars bytes n).2 =
      ((if m.putChars = none then 0 else min chars.accept n.toNat : Nat) : Int) := by
  unfold callPutChars
  cases m.putChars with
  | none => rfl
  | some routine =>
      simp only [reduceCtorEq, if_false]

theorem spilled_of_rest {m' : Modem} {r : RestData} (same : m'.rest = r) :
    m'.lapm.spilled = r.spilled := congrArg RestData.spilled same

theorem spilled_recvInfo (f : Hdlc.Frame) (chars : Chars) :
    (m.recvInfo f chars).lapm.spilled =
      max m.lapm.spilled (spillOf (infoLeft m.putChars f chars)) := by
  rcases rest_callPutChars m chars (f.buf.drop 3) ((f.count : Int) - 3) with ⟨handed, put⟩
  have kept := spilled_of_rest put
  have ret := ret_callPutChars m chars (f.buf.drop 3) ((f.count : Int) - 3)
  have left : infoLeft m.putChars f chars = (f.count : Int) - 3 -
      (m.callPutChars chars (f.buf.drop 3) ((f.count : Int) - 3)).2 := by
    rw [ret]
    unfold infoLeft
    simp only
  rw [left]
  unfold recvInfo
  simp only
  generalize m.callPutChars chars (f.buf.drop 3) ((f.count : Int) - 3) = after at kept ⊢
  by_cases all : after.2 = (f.count : Int) - 3
  · have none : spillOf ((f.count : Int) - 3 - after.2) = 0 :=
      spillOf_none _ (by unfold lapmMaxInfoSize; omega)
    rw [none, Nat.max_zero, if_neg (not_not.mpr all)]
    exact kept
  · have same : after.1.lapm.spilled = m.lapm.spilled := kept
    rw [if_pos all, ← same]
    rfl

theorem spilled_rxInfo (f : Hdlc.Frame) (chars : Chars) :
    (m.rxInfo f chars).lapm.spilled =
      if m.lapm.busy = false ∧ Frame.ns f = m.lapm.vr then
        max m.lapm.spilled (spillOf (infoLeft m.putChars f chars))
      else m.lapm.spilled := by
  have acked := rest_ackInfo m (Frame.nr f)
  have busy : (m.ackInfo (Frame.nr f)).lapm.busy = m.lapm.busy := congrArg RestData.busy acked
  have kept : (m.ackInfo (Frame.nr f)).lapm.spilled = m.lapm.spilled := spilled_of_rest acked
  rcases putChars_ackInfo m (Frame.nr f) with ⟨routine, vr⟩
  rw [← busy, ← kept, ← routine, ← vr]
  unfold rxInfo
  generalize m.ackInfo (Frame.nr f) = after
  simp only
  by_cases waits : after.lapm.busy = true
  · have idle : ¬ (after.lapm.busy = false ∧ Frame.ns f = after.lapm.vr) := by simp [waits]
    rw [if_pos waits, if_neg idle]
    split
    · exact spilled_of_rest (rest_putCtrl after _)
    · rfl
  · by_cases next : Frame.ns f = after.lapm.vr
    · have taken : after.lapm.busy = false ∧ Frame.ns f = after.lapm.vr :=
        ⟨Bool.eq_false_iff.mpr waits, next⟩
      rw [if_neg waits, if_neg (not_not.mpr next), if_pos taken]
      have received := spilled_recvInfo
        { after with lapm := { after.lapm with reject := false } } f chars
      exact (spilled_of_rest (rest_respondInfo _ f chars)).trans received
    · have other : ¬ (after.lapm.busy = false ∧ Frame.ns f = after.lapm.vr) :=
        fun taken => next taken.2
      rw [if_neg waits, if_pos next, if_neg other]
      split
      · rfl
      · exact spilled_of_rest (rest_putCtrl after _)

theorem spilled_rxUnnumCmd (f : Hdlc.Frame) :
    (m.rxUnnumCmd f).lapm.spilled = m.lapm.spilled := by
  have parsed := rest_rxXid m f
  have same : (m.rxUnnumCmd f).rest.spilled = m.rest.spilled := by
    unfold rxUnnumCmd rxSabme rxDisc txXid txUa txDm txUnnum
    split_ifs <;> simp [parsed]
  exact same

theorem spilled_lapmConnect : m.lapmConnect.lapm.spilled = m.lapm.spilled := by
  rcases rest_lapmConnect m with same | same
  · exact spilled_of_rest same
  · exact spilled_of_rest same

theorem spilled_rxUnnumRsp (f : Hdlc.Frame) :
    (m.rxUnnumRsp f).lapm.spilled = m.lapm.spilled := by
  have disconnected : (m.rxDm f).rest.spilled = m.rest.spilled := by
    unfold rxDm
    cases m.lapm.state <;> simp only <;> split <;> simp
  have acknowledged : m.rxUa.rest.spilled = m.rest.spilled := by
    unfold rxUa
    cases m.lapm.state <;> simp
  have configured : (m.rxXidRsp f).lapm.spilled = m.lapm.spilled := by
    have parsed : (m.rxXid f).lapm.spilled = m.lapm.spilled := spilled_of_rest (rest_rxXid m f)
    unfold rxXidRsp
    split
    · generalize m.rxXid f = parsed' at parsed
      simp only
      cases (timerStop { parsed' with lapm := { parsed'.lapm with config := false } }).lapm.state with
      | idle => exact (spilled_lapmConnect _).trans parsed
      | data => exact (spilled_of_rest (rest_putCtrl _ _)).trans parsed
      | estab | disc => exact parsed
    · rfl
  unfold rxUnnumRsp
  split
  · exact disconnected
  · split
    · exact acknowledged
    · split
      · exact configured
      · rfl

theorem spilled_pushRestData (chars : Chars) :
    (m.pushRestData chars).lapm.spilled = m.lapm.spilled := by
  rcases rest_callPutChars m chars (m.lapm.rxBuf.drop m.lapm.rxHead) m.lapm.rxCount with
    ⟨handed, put⟩
  have kept := spilled_of_rest put
  unfold pushRestData
  generalize m.callPutChars chars (m.lapm.rxBuf.drop m.lapm.rxHead) m.lapm.rxCount = after
    at kept
  simp only
  split_ifs
  · rfl
  · exact (spilled_of_rest (rest_putCtrl _ _)).trans kept
  · exact kept
  · exact kept
  · rfl

theorem validDataState_estab (estab : m.lapm.state = .estab) :
    m.validDataState.2 = true ∧ m.validDataState.1.lapm.busy = false ∧
      m.validDataState.1.lapm.vr = 0 ∧ m.validDataState.1.putChars = m.receiver ∧
      m.validDataState.1.lapm.spilled = m.lapm.spilled := by
  have linked : m.validDataState =
      (((m.reset.setPhase .data).logLink.modemSetState .modemOnline).modemReportResult .connect,
        true) := by
    unfold validDataState
    rw [estab]
    rfl
  rw [linked, report_eq]
  unfold receiver
  rw [if_pos estab]
  unfold modemSetState
  have same : (m.reset.setPhase .data).logLink.state = m.state := rfl
  rw [same]
  by_cases online : m.state = .modemOnline
  · rw [if_pos online, if_pos online]
    exact ⟨rfl, rfl, rfl, rfl, rfl⟩
  · rw [if_neg online, if_neg online]
    exact ⟨rfl, rfl, rfl, rfl, rfl⟩

theorem spilled_infoFrame (f : Hdlc.Frame) (chars : Chars) (info : Frame.type f = frameI) :
    (m.TakesInfo f ∧ (m.lapmRxComplete f chars).lapm.spilled =
      max m.lapm.spilled (spillOf (infoLeft m.receiver f chars))) ∨
    (¬ m.TakesInfo f ∧ (m.lapmRxComplete f chars).lapm.spilled = m.lapm.spilled) := by
  unfold lapmRxComplete TakesInfo
  rw [if_pos info]
  cases phase : m.lapm.state with
  | estab =>
      rcases validDataState_estab m phase with ⟨valid, busy, vr, routine, kept⟩
      have taken := spilled_rxInfo m.validDataState.1 f chars
      rw [busy, vr, routine, kept] at taken
      simp only [valid, if_true, taken]
      by_cases first : Frame.ns f = 0
      · simp [info, first]
      · simp [first]
  | data =>
      have taken := spilled_rxInfo m f chars
      have valid : m.validDataState = (m, true) := by
        unfold validDataState
        rw [phase]
      have routine : m.receiver = m.putChars := by
        unfold receiver
        rw [phase, if_neg (by decide)]
      simp only [valid, if_true, taken, routine]
      by_cases next : m.lapm.busy = false ∧ Frame.ns f = m.lapm.vr
      · rw [if_pos next]
        exact Or.inl ⟨⟨info, Or.inr ⟨trivial, next⟩⟩, rfl⟩
      · rw [if_neg next]
        refine Or.inr ⟨?_, rfl⟩
        rintro ⟨-, ⟨estab, -⟩ | ⟨-, here⟩⟩
        · cases estab
        · exact next here
  | disc =>
      have gone := spilled_of_rest (rest_release (m.reset.setPhase .idle))
      have valid : m.validDataState =
          ((m.reset.setPhase .idle).modemUpdateStatus .ecRelease, false) := by
        unfold validDataState
        rw [phase]
      simp only [valid]
      exact Or.inr ⟨by simp, gone⟩
  | idle =>
      have valid : m.validDataState = (m, false) := by
        unfold validDataState
        rw [phase]
      simp only [valid]
      exact Or.inr ⟨by simp, rfl⟩

theorem spilled_otherFrame (f : Hdlc.Frame) (chars : Chars) (other : Frame.type f ≠ frameI) :
    (m.lapmRxComplete f chars).lapm.spilled = m.lapm.spilled := by
  have valid : m.validDataState.1.lapm.spilled = m.lapm.spilled := by
    unfold validDataState
    cases phase : m.lapm.state with
    | estab => exact spilled_of_rest (rest_link (m.reset.setPhase .data))
    | disc => exact spilled_of_rest (rest_release (m.reset.setPhase .idle))
    | data | idle => rfl
  unfold lapmRxComplete
  generalize m.validDataState = state at valid
  rw [if_neg other]
  simp only
  split
  · split
    · split
      · exact (spilled_of_rest (rest_rxSuperCmd _ f chars)).trans valid
      · exact (spilled_of_rest (rest_rxSuperRsp _ f)).trans valid
    · exact valid
  · split
    · split
      · exact spilled_rxUnnumCmd m f
      · exact spilled_rxUnnumRsp m f
    · rfl

theorem spilled_overrun (f : Hdlc.Frame) (chars : Chars) (long : m.Overruns f chars) :
    0 < (m.lapmRxComplete f chars).lapm.spilled := by
  have some := spillOf_some _ (infoLeft_least m.receiver f chars) long.2
  rcases spilled_infoFrame m f chars long.1.1 with ⟨-, taken⟩ | ⟨other, -⟩
  · rw [taken]
    exact Nat.lt_of_lt_of_le some (Nat.le_max_right _ _)
  · exact absurd long.1 other

theorem spilled_rxComplete (f : Hdlc.Frame) (chars : Chars) (short : ¬ m.Overruns f chars) :
    (m.lapmRxComplete f chars).lapm.spilled = m.lapm.spilled := by
  by_cases info : Frame.type f = frameI
  · rcases spilled_infoFrame m f chars info with ⟨takes, taken⟩ | ⟨-, kept⟩
    · have none : spillOf (infoLeft m.receiver f chars) = 0 := by
        apply spillOf_none
        by_contra long
        exact short ⟨takes, by omega⟩
      rw [taken, none, Nat.max_zero]
    · exact kept
  · exact spilled_otherFrame m f chars info

theorem spilled_lapmStep (event : LapmEvent)
    (short : ∀ f chars, event = .frame f chars → ¬ m.Overruns f chars) :
    (m.lapmStep event).lapm.spilled = m.lapm.spilled := by
  cases event with
  | frame f chars => exact spilled_rxComplete m f chars (short f chars rfl)
  | fetch chars => exact spilled_of_rest (rest_getTxFrame m chars)
  | prefetch chars => exact spilled_of_rest (rest_txInfo m chars)
  | push chars => exact spilled_pushRestData m chars
  | timeout => exact spilled_of_rest (rest_t401Timeout { m with bitTimer := 0 })
  | connect => exact spilled_lapmConnect m
  | config =>
      rcases rest_lapmConfig m with same | same
      · exact spilled_of_rest same
      · exact spilled_of_rest same
  | disconnect => exact spilled_of_rest (rest_lapmDisconnect m)
  | stop =>
      exact spilled_of_rest
        (rest_lapmDisconnect { m with bitTimer := 0, packerProcess := false })
  | setState newState => exact spilled_of_rest (rest_setState m newState)

end Spill

/-! ### Runs -/

theorem lapmRun_snoc (m : Modem) (events : List LapmEvent) (event : LapmEvent) :
    m.lapmRun (events ++ [event]) = (m.lapmRun events).lapmStep event := by
  induction events generalizing m with
  | nil => rfl
  | cons first rest ih => exact ih (m.lapmStep first)

/-- No frame of the run overruns the buffer. -/
def Roomy (m : Modem) (events : List LapmEvent) : Prop :=
  ∀ before f chars, before ++ [.frame f chars] <+: events → ¬ (m.lapmRun before).Overruns f chars

theorem roomy_nil (m : Modem) : m.Roomy [] := by
  intro before f chars within
  have none := List.prefix_nil.mp within
  simp at none

theorem Roomy.frame {m : Modem} {f : Hdlc.Frame} {chars : Chars} {later : List LapmEvent}
    (short : ¬ m.Overruns f chars) (rest : (m.lapmRxComplete f chars).Roomy later) :
    m.Roomy (.frame f chars :: later) := by
  intro before f' chars' within
  cases before with
  | nil =>
      have same := (List.cons_prefix_cons.mp within).1
      cases same
      exact short
  | cons first before =>
      rw [List.cons_append] at within
      have split := List.cons_prefix_cons.mp within
      rw [split.1]
      exact rest before f' chars' split.2

theorem spilled_lapmRun {m : Modem} {events : List LapmEvent} (roomy : m.Roomy events) :
    ∀ before, before <+: events → (m.lapmRun before).lapm.spilled = m.lapm.spilled := by
  intro before
  induction before using List.reverseRecOn with
  | nil => exact fun _ => rfl
  | append_singleton before event ih =>
      intro within
      have earlier : before <+: events := (List.prefix_append before [event]).trans within
      rw [lapmRun_snoc, spilled_lapmStep _ event, ih earlier]
      rintro f chars rfl
      exact roomy before f chars within

def RingLinked (l : LapmState) : Prop := ∀ i < lapmInfoFrames, l.next i = some (nextInfo i)

theorem ringLinked_iff (l : LapmState) : RingLinked l ↔ l.spilled = 0 := by
  unfold RingLinked LapmState.next
  constructor
  · intro linked
    have first := linked 0 (by decide)
    by_contra written
    rw [if_pos (by omega)] at first
    cases first
  · intro none i _
    rw [none, if_neg (Nat.not_lt_zero _)]

/-- The pointers, the numbers and the frames of the ring are in order: each frame is sent with
the number of its place behind `sent_info`. -/
def RingHolds (start s : Modem) : Prop :=
  RingLinked s.lapm ∧ RingOrdered s.lapm ∧ s.allocErrors = start.allocErrors ∧
    ∀ chars frame, s.lapm.txCtrl = s.lapm.ctrlList → (s.lapmGetTxFrame chars).2 = some frame →
      ∃ n, n ≤ lapmMaxWinSize ∧ nextInfo^[n] s.lapm.sentInfo = s.lapm.txInfo ∧
        frame = s.lapm.cmdAddr :: UInt8.ofNat (((s.lapm.va + n) % 128) <<< 1) ::
          UInt8.ofNat (s.lapm.vr <<< 1) ::
          ((s.lapmGetTxFrame chars).1.lapm.infoBuf s.lapm.txInfo).info

/-- The ring is in order in every state of the run from `lapm_init`, and no step refills a frame
that is not acknowledged. -/
def RingIntact (m : Modem) (events : List LapmEvent) : Prop :=
  let start := m.modemSetupConfig.lapmInit
  ∀ before, before <+: events → RingHolds m (start.lapmRun before) ∧
    ∀ event, before ++ [event] <+: events → ∀ i ∈ unacked (start.lapmRun before).lapm,
      ((start.lapmRun (before ++ [event])).lapm.infoBuf i).info =
        ((start.lapmRun before).lapm.infoBuf i).info

/-- In a run from `lapm_init` the ring stays in order exactly if no frame overruns the buffer. -/
theorem ring_intact_iff (m : Modem) (events : List LapmEvent) :
    m.RingIntact events ↔ m.modemSetupConfig.lapmInit.Roomy events := by
  constructor
  · intro intact before f chars within long
    have linked := (intact (before ++ [.frame f chars]) within).1.1
    have written := spilled_overrun _ f chars long
    rw [ringLinked_iff, lapmRun_snoc] at linked
    exact absurd linked (Nat.pos_iff_ne_zero.mp written)
  · intro roomy before within
    have unwritten := spilled_lapmRun roomy before within
    rcases ring_window m before with ⟨ordered, none, spared, sent⟩
    refine ⟨⟨(ringLinked_iff _).mpr unwritten, ordered, none, sent⟩, ?_⟩
    intro event _ i member
    rw [lapmRun_snoc]
    exact spared event i member

def longInfo : List LapmEvent :=
  [.frame sabmeFrame noChars, .frame (infoFrame 0 (List.replicate 129 0x2a)) noChars]

/-- The last octet of the frame is written over the `next` pointer of the first frame. -/
theorem ring_broken_by_long_info :
    (answering.modemSetupConfig.lapmInit.lapmRun longInfo).lapm.next 0 = none ∧
      ¬ answering.RingIntact longInfo := by
  have broken : (answering.modemSetupConfig.lapmInit.lapmRun longInfo).lapm.next 0 = none := by
    decide +kernel
  refine ⟨broken, ?_⟩
  intro intact
  have linked := (intact longInfo (List.prefix_refl _)).1.1 0 (by decide)
  rw [broken] at linked
  cases linked

end Modem

end DModem
