/-
An end of a link that waits for its peer has the retransmission timer running.

`Timed` is the invariant of the states between `modem_ec_start` and the end of the
link.  A few steps break it; they are listed in `Neglects`, and every other step
keeps it.
-/

import DModem.Modem.Effects
import DModem.Modem.Control
import DModem.Modem.Packer

namespace DModem

open Lib

/-- The states in which error correction runs. -/
def ModemState.linked : ModemState → Bool
  | .ecEstab | .modemOnline | .commandOnline | .ecDisc => true
  | _ => false

namespace Clock

/-- T401 is running. -/
def Armed (c : Clock) : Prop := 0 < c.bitTimer ∧ c.bitTimerFunc = some .t401Timeout

def Waiting (c : Clock) : Prop :=
  c.config = true ∨ c.phase = .estab ∨ c.phase = .disc ∨
    (c.phase = .data ∧ (c.vs ≠ c.va ∨ c.peerBusy = true))

/-- An acknowledgement of `nr` leaves nothing outstanding, and something was. -/
def AcksAll (c : Clock) (nr : Nat) : Prop :=
  c.vs ≠ c.va ∧ seqSub c.vs c.va ≤ seqSub nr c.va

structure Timed (c : Clock) : Prop where
  numbered : c.Numbered
  waiting : c.Waiting → c.Armed
  resent : 0 < c.rtxCount → c.Armed
  running : c.bitTimer ≠ 0 →
    c.Armed ∨ (c.bitTimerFunc = some .modemEcNegotiate ∧ c.phase = .idle ∧ c.config = false)
  config : c.config = true → c.phase = .idle ∨ c.phase = .disc

section Timed

variable {c : Clock}

theorem Timed.of_armed (numbered : c.Numbered) (armed : c.Armed)
    (config : c.config = true → c.phase = .idle ∨ c.phase = .disc) : c.Timed :=
  { numbered := numbered
    waiting := fun _ => armed
    resent := fun _ => armed
    running := fun _ => Or.inl armed
    config := config }

theorem armed_start (c : Clock) : c.start.Armed :=
  ⟨show 0 < t401TimeoutBits by decide, rfl⟩

theorem Timed.start (numbered : c.Numbered)
    (config : c.config = true → c.phase = .idle ∨ c.phase = .disc) : c.start.Timed :=
  Timed.of_armed { numbered with } (armed_start c) config

theorem Timed.stop (numbered : c.Numbered) (quiet : ¬ c.Waiting) : c.stop.Timed :=
  { numbered := { numbered with }
    waiting := fun waiting => absurd waiting quiet
    resent := fun some => absurd some (Nat.lt_irrefl 0)
    running := fun some => absurd rfl some
    config := fun config => absurd (Or.inl config) quiet }

theorem Timed.config_data (timed : c.Timed) (data : c.phase = .data) : c.config = false := by
  by_contra set
  rw [Bool.not_eq_false] at set
  rcases timed.config set with idle | disc
  · rw [data] at idle
    cases idle
  · rw [data] at disc
    cases disc

theorem Timed.armed_data (timed : c.Timed) (data : c.phase = .data) (some : c.bitTimer ≠ 0) :
    c.Armed := by
  rcases timed.running some with armed | ⟨_, idle, _⟩
  · exact armed
  · rw [data] at idle
    cases idle

theorem not_waiting_data (data : c.phase = .data) (config : c.config = false)
    (acked : c.vs = c.va) (ready : c.peerBusy = false) : ¬ c.Waiting := by
  rintro (set | estab | disc | ⟨_, outstanding | busy⟩)
  · rw [config] at set
    cases set
  · rw [data] at estab
    cases estab
  · rw [data] at disc
    cases disc
  · exact outstanding acked
  · rw [ready] at busy
    cases busy

theorem Timed.ackTimer {n : Nat} (numbered : c.Numbered) (data : c.phase = .data)
    (config : c.config = false) (running : c.bitTimer ≠ 0 → c.Armed)
    (ready : 0 < n → c.rtxCount = 0 → c.vs = c.va → c.peerBusy = false)
    (armed : ¬ (0 < n ∧ c.rtxCount = 0) →
      0 < c.rtxCount ∨ c.vs ≠ c.va ∨ c.peerBusy = true → c.Armed) : (c.ackTimer n).Timed := by
  have notSet : c.config = true → c.phase = .idle ∨ c.phase = .disc := by
    intro set
    rw [config] at set
    cases set
  unfold Clock.ackTimer
  split_ifs with counted outstanding
  · exact Timed.start { numbered with } notSet
  · rw [not_not] at outstanding
    have same := numbered.outstanding_zero.mp outstanding
    exact Timed.stop numbered (not_waiting_data data config same (ready counted.1 counted.2 same))
  · refine
      { numbered := numbered
        waiting := ?_
        resent := fun resent => armed counted (Or.inl resent)
        running := fun some => Or.inl (running some)
        config := notSet }
    rintro (set | estab | disc | ⟨_, outstanding | busy⟩)
    · rw [config] at set
      cases set
    · rw [data] at estab
      cases estab
    · rw [data] at disc
      cases disc
    · exact armed counted (Or.inr (Or.inl outstanding))
    · exact armed counted (Or.inr (Or.inr busy))

theorem Timed.acked (timed : c.Timed) (data : c.phase = .data) (peerBusy : Bool) (nr : Nat)
    (attended : peerBusy = true → c.rtxCount = 0 → c.Armed ∧ ¬ c.AcksAll nr) :
    Timed (Clock.acked { c with peerBusy := peerBusy } nr) := by
  have numbered : Numbered { c with peerBusy := peerBusy } := { timed.numbered with }
  have va := timed.numbered.va
  have vs := timed.numbered.vs_lt
  apply Timed.ackTimer (numbered.advance (Nat.min_le_right _ _))
  · exact data
  · exact timed.config_data data
  · exact timed.armed_data data
  · intro some fresh same
    by_contra busy
    rw [Bool.not_eq_false] at busy
    apply (attended busy fresh).2
    unfold AcksAll
    simp only [seqSub] at some same ⊢
    omega
  · intro uncounted
    simp only at uncounted ⊢
    rintro (resent | outstanding | busy)
    · exact timed.resent resent
    · by_cases resent : 0 < c.rtxCount
      · exact timed.resent resent
      · apply timed.waiting
        refine Or.inr (Or.inr (Or.inr ⟨data, Or.inl ?_⟩))
        have none : min (seqSub nr c.va) (seqSub c.vs c.va) = 0 := by omega
        rw [none, Nat.add_zero, Nat.mod_eq_of_lt va] at outstanding
        exact outstanding
    · by_cases resent : 0 < c.rtxCount
      · exact timed.resent resent
      · exact (attended busy (by omega)).1

theorem acked_resent {nr : Nat} (resent : (c.acked nr).rtxCount ≠ 0) :
    0 < c.rtxCount ∧ (c.Armed → (c.acked nr).Armed) := by
  unfold Clock.acked Clock.ackTimer at resent ⊢
  simp only at resent ⊢
  split_ifs at resent ⊢ with counted outstanding
  · exact absurd rfl resent
  · exact absurd rfl resent
  · exact ⟨Nat.pos_of_ne_zero resent, id⟩

end Timed

end Clock

namespace Modem

variable {m : Modem}

theorem timed_moves {m' : Modem} (moves : Moves m m') (timed : m.clock.Timed) :
    m'.clock.Timed := by
  rcases moves with ⟨state, list, errors, same, _, numbered⟩
  rw [same]
  exact
    { numbered := { (numbered timed.numbered).1 with }
      waiting := timed.waiting
      resent := timed.resent
      running := timed.running
      config := timed.config }

/-! ### Information and supervisory frames -/

theorem timed_rxInfo (timed : m.clock.Timed) (data : m.lapm.state = .data) (f : Hdlc.Frame)
    (chars : Chars)
    (attended : m.lapm.peerBusy = true → m.lapm.rtxCount = 0 →
      ¬ m.clock.AcksAll (Frame.nr f)) : (m.rxInfo f chars).clock.Timed := by
  apply timed_moves (moves_rxInfo m f chars)
  rw [clock_ackInfo timed.numbered (nr_lt f)]
  apply timed.acked data m.lapm.peerBusy
  intro busy fresh
  exact ⟨timed.waiting (Or.inr (Or.inr (Or.inr ⟨data, Or.inr busy⟩))), attended busy fresh⟩

theorem clock_peerAck (timed : m.clock.Timed) (peerBusy : Bool) (f : Hdlc.Frame) :
    ((m.setPeerBusy peerBusy).ackInfo (Frame.nr f)).clock =
      Clock.acked { m.clock with peerBusy := peerBusy } (Frame.nr f) := by
  have numbered : (m.setPeerBusy peerBusy).clock.Numbered := { timed.numbered with }
  exact clock_ackInfo numbered (nr_lt f)

theorem timed_peerReady (timed : m.clock.Timed) (data : m.lapm.state = .data) (f : Hdlc.Frame) :
    ((m.setPeerBusy false).ackInfo (Frame.nr f)).clock.Timed := by
  rw [clock_peerAck timed]
  apply timed.acked data false
  intro busy
  cases busy

theorem timed_goBack (timed : m.clock.Timed) (data : m.lapm.state = .data)
    (ready : m.lapm.peerBusy = false) : m.rejectInfo.timerStop.clock.Timed := by
  have config := timed.config_data data
  change m.rejectInfo.clock.stop.Timed
  rw [clock_rejectInfo data]
  apply Clock.Timed.stop timed.numbered.rewind
  exact Clock.not_waiting_data data config rfl ready

theorem clock_stopReject (data : m.lapm.state = .data) :
    m.timerStop.rejectInfo.clock = m.rejectInfo.timerStop.clock := by
  have stopped : m.timerStop.lapm.state = .data := data
  change _ = m.rejectInfo.clock.stop
  rw [clock_rejectInfo stopped, clock_rejectInfo data]
  rfl

theorem phase_acked (c : Clock) (nr : Nat) : (c.acked nr).phase = c.phase :=
  Clock.phase_ackTimer _ _

theorem peerBusy_acked (c : Clock) (nr : Nat) : (c.acked nr).peerBusy = c.peerBusy := by
  unfold Clock.acked Clock.ackTimer
  simp only
  split_ifs <;> rfl

theorem config_acked (c : Clock) (nr : Nat) : (c.acked nr).config = c.config := by
  unfold Clock.acked Clock.ackTimer
  simp only
  split_ifs <;> rfl

theorem busy_peerAck (timed : m.clock.Timed) (f : Hdlc.Frame) (peerBusy : Bool) :
    ((m.setPeerBusy peerBusy).ackInfo (Frame.nr f)).lapm.peerBusy = peerBusy := by
  have busy := congrArg Clock.peerBusy (clock_peerAck timed peerBusy f)
  rw [peerBusy_acked] at busy
  exact busy

theorem timed_timerStart (numbered : m.clock.Numbered) (config : m.lapm.config = false) :
    m.timerStart.clock.Timed := by
  apply Clock.Timed.start numbered
  intro set
  exact absurd (config.symm.trans set) (by decide)

theorem numbered_peerAck (timed : m.clock.Timed) (f : Hdlc.Frame) (peerBusy : Bool) :
    ((m.setPeerBusy peerBusy).ackInfo (Frame.nr f)).clock.Numbered := by
  have numbered : Clock.Numbered { m.clock with peerBusy := peerBusy } := { timed.numbered with }
  rw [clock_peerAck timed]
  exact numbered.acked _

section Ack

variable (timed : m.clock.Timed) (data : m.lapm.state = .data) (f : Hdlc.Frame)
include timed data

theorem data_peerAck (peerBusy : Bool) :
    ((m.setPeerBusy peerBusy).ackInfo (Frame.nr f)).lapm.state = .data := by
  have phase := congrArg Clock.phase (clock_peerAck timed peerBusy f)
  rw [phase_acked] at phase
  exact phase.trans data

theorem timed_peerGoBack :
    ((m.setPeerBusy false).ackInfo (Frame.nr f)).rejectInfo.timerStop.clock.Timed :=
  timed_goBack (timed_peerReady timed data f) (data_peerAck timed data f false)
    (busy_peerAck timed f false)

theorem timed_rxSuperCmd (chars : Chars)
    (attended : Frame.ctrl f = frameSRnr → m.lapm.rtxCount = 0 →
      m.bitTimer ≠ 0 ∧ ¬ m.clock.AcksAll (Frame.nr f)) :
    (m.rxSuperCmd f chars).clock.Timed := by
  have ready := timed_peerReady timed data f
  unfold rxSuperCmd
  simp only
  split
  · exact timed_moves (moves_answerSuper _ f chars) ready
  · split
    · rename_i rnr
      have busy : ((m.setPeerBusy true).ackInfo (Frame.nr f)).clock.Timed := by
        rw [clock_peerAck timed]
        apply timed.acked data true
        intro _ fresh
        have kept := attended rnr fresh
        exact ⟨timed.armed_data data kept.1, kept.2⟩
      split
      · rw [clock_txReady]
        exact busy
      · exact busy
    · split
      · apply timed_moves (moves_answerSuper _ f chars)
        split
        · rw [clock_stopReject (data_peerAck timed data f false)]
          exact timed_peerGoBack timed data f
        · exact ready
      · exact timed

theorem clear_peerAck (peerBusy : Bool) :
    ((m.setPeerBusy peerBusy).ackInfo (Frame.nr f)).lapm.config = false := by
  have same := congrArg Clock.config (clock_peerAck timed peerBusy f)
  rw [config_acked] at same
  exact same.trans (timed.config_data data)

theorem timed_rnrRsp {acked back : Modem}
    (ackedEq : acked = (m.setPeerBusy true).ackInfo (Frame.nr f))
    (backEq : back = if acked.lapm.rtxCount ≠ 0 ∧ Frame.pf f ≠ 0 then acked.rejectInfo.timerStop
      else acked) :
    (if back.lapm.rtxCount = 0 then back.timerStart else back).clock.Timed := by
  have phase : acked.lapm.state = .data := by
    rw [ackedEq]
    exact data_peerAck timed data f true
  have numbered : acked.clock.Numbered := by
    rw [ackedEq]
    exact numbered_peerAck timed f true
  have config : acked.lapm.config = false := by
    rw [ackedEq]
    exact clear_peerAck timed data f true
  by_cases recovered : acked.lapm.rtxCount ≠ 0 ∧ Frame.pf f ≠ 0
  · rw [if_pos recovered] at backEq
    have counted : back.lapm.rtxCount = 0 := by
      rw [backEq]
      rfl
    rw [if_pos counted, backEq]
    have rejected := clock_rejectInfo phase
    apply timed_timerStart
    · change acked.rejectInfo.clock.stop.Numbered
      rw [rejected]
      exact { numbered.rewind with }
    · exact (congrArg Clock.config rejected).trans config
  · rw [if_neg recovered] at backEq
    rw [backEq]
    split
    · exact timed_timerStart numbered config
    · rename_i resent
      apply Clock.Timed.of_armed numbered
      · have clockEq := clock_peerAck timed true f
        rw [← ackedEq] at clockEq
        have kept : (Clock.acked { m.clock with peerBusy := true } (Frame.nr f)).rtxCount ≠ 0 := by
          rw [← clockEq]
          exact resent
        rcases Clock.acked_resent kept with ⟨before, armed⟩
        rw [clockEq]
        exact armed (timed.resent before)
      · intro set
        exact absurd (config.symm.trans set) (by decide)

theorem timed_rxSuperRsp : (m.rxSuperRsp f).clock.Timed := by
  have ready := timed_peerReady timed data f
  have back := timed_peerGoBack timed data f
  unfold rxSuperRsp
  split
  · exact timed
  · split
    · simp only
      split
      · exact back
      · exact ready
    · split
      · exact timed_rnrRsp timed data f rfl rfl
      · split
        · simp only
          split
          · exact back
          · exact ready
        · exact timed

end Ack

/-! ### Unnumbered frames -/

def Settled (m : Modem) : Prop := m.state.linked = true → m.clock.Timed

theorem settled_release (m : Modem) : Settled (m.modemUpdateStatus .ecRelease) := by
  intro linked
  have state := congrArg Clock.state (clock_release m)
  change (m.modemUpdateStatus .ecRelease).state = m.state.hungUp at state
  rw [state] at linked
  cases hung : m.state <;> rw [hung] at linked <;> cases linked

theorem settled_link (timed : m.clock.Timed) : Settled (m.modemUpdateStatus .ecLink) := by
  intro _
  rw [clock_link]
  exact { timed with numbered := { timed.numbered with } }

theorem not_waiting_reset (config : m.lapm.config = false) :
    ¬ (m.reset.setPhase .data).clock.Waiting :=
  Clock.not_waiting_data rfl config rfl rfl

theorem settled_rxSabme (timed : m.clock.Timed) (config : m.lapm.config = false)
    (f : Hdlc.Frame) : Settled (m.rxSabme f) := by
  apply settled_link
  change ((m.reset.setPhase .data).putCtrl _).clock.stop.Timed
  rw [clock_putCtrl]
  exact Clock.Timed.stop { numbered_reset timed.numbered with } (not_waiting_reset config)

theorem settled_rxDisc (timed : m.clock.Timed) (f : Hdlc.Frame) : Settled (m.rxDisc f) := by
  unfold rxDisc
  split
  · intro _
    change (m.putCtrl _).clock.Timed
    rw [clock_putCtrl]
    exact timed
  · exact settled_release _

theorem settled_rxDm (timed : m.clock.Timed) (f : Hdlc.Frame) : Settled (m.rxDm f) := by
  unfold rxDm
  cases m.lapm.state with
  | estab | disc =>
      simp only
      split
      · exact settled_release _
      · exact fun _ => timed
  | data =>
      simp only
      split
      · exact settled_release _
      · exact fun _ => timed
  | idle =>
      simp only
      split
      · exact settled_link timed
      · exact fun _ => timed

theorem config_estab (timed : m.clock.Timed) (estab : m.lapm.state = .estab) :
    m.lapm.config = false := by
  by_contra set
  rw [Bool.not_eq_false] at set
  rcases timed.config set with idle | disc
  · exact absurd (estab.symm.trans idle) (by decide)
  · exact absurd (estab.symm.trans disc) (by decide)

theorem settled_rxUa (timed : m.clock.Timed) : Settled m.rxUa := by
  unfold rxUa
  cases phase : m.lapm.state with
  | estab =>
      apply settled_link
      change (m.reset.setPhase .data).clock.stop.Timed
      exact Clock.Timed.stop { numbered_reset timed.numbered with }
        (not_waiting_reset (config_estab timed phase))
  | disc => exact settled_release _
  | idle | data => exact fun _ => timed

theorem timed_lapmConnect (numbered : m.clock.Numbered) (idle : m.lapm.state = .idle)
    (config : m.lapm.config = false) : m.lapmConnect.clock.Timed := by
  unfold lapmConnect
  rw [if_neg (fun other => other idle)]
  apply timed_timerStart
  · change ((m.reset.setPhase .estab).putCtrl _).clock.Numbered
    rw [clock_putCtrl]
    exact { numbered_reset numbered with }
  · change ((m.reset.setPhase .estab).putCtrl _).clock.config = false
    rw [clock_putCtrl]
    exact config

theorem timed_rxXidRsp (timed : m.clock.Timed)
    (attended : m.lapm.config = true → m.lapm.state ≠ .disc) (f : Hdlc.Frame) :
    (m.rxXidRsp f).clock.Timed := by
  have clockEq := clock_rxXid timed.numbered.window f
  unfold rxXidRsp
  split
  · rename_i set
    have idle : m.lapm.state = .idle := by
      rcases timed.config set with idle | disc
      · exact idle
      · exact absurd disc (attended set)
    have phase : (m.rxXid f).lapm.state = .idle := (congrArg Clock.phase clockEq).trans idle
    simp only [timerStop, phase]
    apply timed_lapmConnect
    · have numbered := timed.numbered
      rw [← clockEq] at numbered
      exact { numbered with }
    · rfl
    · rfl
  · exact timed

theorem settled_rxUnnumCmd (timed : m.clock.Timed) (f : Hdlc.Frame)
    (attended : Frame.ctrl f &&& 0xef = frameUSabme → m.lapm.config = false) :
    Settled (m.rxUnnumCmd f) := by
  unfold rxUnnumCmd
  split
  · rename_i sabme
    exact settled_rxSabme timed (attended sabme) f
  · split
    · exact settled_rxDisc timed f
    · split
      · intro _
        change ((m.rxXid f).putCtrl _).clock.Timed
        rw [clock_putCtrl, clock_rxXid timed.numbered.window]
        exact timed
      · exact fun _ => timed

theorem settled_rxUnnumRsp (timed : m.clock.Timed) (f : Hdlc.Frame)
    (attended : Frame.ctrl f &&& 0xef = frameUXid → m.lapm.config = true →
      m.lapm.state ≠ .disc) : Settled (m.rxUnnumRsp f) := by
  unfold rxUnnumRsp
  split
  · exact settled_rxDm timed f
  · split
    · exact settled_rxUa timed
    · split
      · rename_i xid
        exact fun _ => timed_rxXidRsp timed (attended xid) f
      · exact fun _ => timed

/-! ### Any frame -/

/-- A frame in a phase that takes it as data: the phase is then the data phase, and
from the data phase nothing has changed. -/
theorem validDataState_spec (timed : m.clock.Timed) :
    (m.validDataState.2 = true → m.validDataState.1.lapm.state = .data ∧
      m.validDataState.1.clock.Timed ∧
      (m.lapm.state = .data → m.validDataState.1 = m) ∧
      (m.lapm.state ≠ .data → m.validDataState.1.lapm.peerBusy = false ∧
        m.validDataState.1.bitTimer ≠ 0 ∧ m.validDataState.1.lapm.vs = 0 ∧
        m.validDataState.1.lapm.va = 0)) ∧
    (m.validDataState.2 = false → Settled m.validDataState.1) := by
  unfold validDataState
  cases phase : m.lapm.state with
  | idle => exact ⟨by simp, fun _ _ => timed⟩
  | estab =>
      refine ⟨fun _ => ?_, by simp⟩
      have armed : m.clock.Armed := timed.waiting (Or.inr (Or.inl phase))
      have reset : (m.reset.setPhase .data).clock.Timed := by
        have numbered : (m.reset.setPhase .data).clock.Numbered :=
          { numbered_reset timed.numbered with }
        apply Clock.Timed.of_armed numbered armed
        intro set
        exact absurd ((config_estab timed phase).symm.trans set) (by decide)
      have clockEq := clock_link (m.reset.setPhase .data)
      refine ⟨congrArg Clock.phase clockEq, ?_, by simp, fun _ => ⟨?_, ?_, ?_, ?_⟩⟩
      · rw [clockEq]
        exact { reset with numbered := { reset.numbered with } }
      · exact congrArg Clock.peerBusy clockEq
      · have same : ((m.reset.setPhase .data).modemUpdateStatus .ecLink).bitTimer = m.bitTimer :=
          congrArg Clock.bitTimer clockEq
        simp only [same]
        exact Int.ne_of_gt armed.1
      · exact congrArg Clock.vs clockEq
      · exact congrArg Clock.va clockEq
  | data => exact ⟨fun _ => ⟨phase, timed, fun _ => rfl, fun other => absurd rfl other⟩, by simp⟩
  | disc => exact ⟨by simp, fun _ => settled_release _⟩

def NeglectsFrame (m : Modem) (f : Hdlc.Frame) : Prop :=
  (m.lapm.state = .data ∧ Frame.type f = frameI ∧ m.lapm.peerBusy = true ∧
      m.lapm.rtxCount = 0 ∧ m.clock.AcksAll (Frame.nr f)) ∨
    (m.lapm.state = .data ∧ Frame.type f = frameS ∧ Frame.addr f = m.lapm.rspAddr ∧
      Frame.ctrl f = frameSRnr ∧ m.lapm.rtxCount = 0 ∧
      (m.bitTimer = 0 ∨ m.clock.AcksAll (Frame.nr f))) ∨
    (Frame.type f = frameU ∧ Frame.addr f = m.lapm.rspAddr ∧
      Frame.ctrl f &&& 0xef = frameUSabme ∧ m.lapm.config = true) ∨
    (Frame.type f = frameU ∧ Frame.addr f ≠ m.lapm.rspAddr ∧
      Frame.ctrl f &&& 0xef = frameUXid ∧ m.lapm.config = true ∧ m.lapm.state = .disc)

theorem not_acksAll_reset {c : Clock} (vs : c.vs = 0) (va : c.va = 0) (nr : Nat) :
    ¬ c.AcksAll nr := by
  rintro ⟨outstanding, _⟩
  rw [vs, va] at outstanding
  exact outstanding rfl

theorem settled_rxComplete (timed : m.clock.Timed) (f : Hdlc.Frame) (chars : Chars)
    (attended : ¬ m.NeglectsFrame f) : Settled (m.lapmRxComplete f chars) := by
  unfold NeglectsFrame at attended
  simp only [not_or] at attended
  rcases attended with ⟨info, rnr, sabme, xid⟩
  rcases validDataState_spec timed with ⟨taken, refused⟩
  unfold lapmRxComplete
  split
  · rename_i type
    simp only
    split
    · rename_i valid
      rcases taken valid with ⟨data, timed', same, fresh⟩
      intro _
      apply timed_rxInfo timed' data
      intro busy counted all
      by_cases before : m.lapm.state = .data
      · rw [same before] at busy counted all
        exact info ⟨before, type, busy, counted, all⟩
      · rw [(fresh before).1] at busy
        cases busy
    · rename_i invalid
      exact refused (by simpa using invalid)
  · split
    · rename_i type
      simp only
      split
      · rename_i valid
        rcases taken valid with ⟨data, timed', same, fresh⟩
        intro _
        split
        · rename_i command
          apply timed_rxSuperCmd timed' data
          intro isRnr counted
          by_cases before : m.lapm.state = .data
          · rw [same before] at counted command ⊢
            constructor
            · intro stopped
              exact rnr ⟨before, type, command, isRnr, counted, Or.inl stopped⟩
            · intro all
              exact rnr ⟨before, type, command, isRnr, counted, Or.inr all⟩
          · rcases fresh before with ⟨_, running, vs, va⟩
            exact ⟨running, not_acksAll_reset vs va _⟩
        · exact timed_rxSuperRsp timed' data f
      · rename_i invalid
        exact refused (by simpa using invalid)
    · split
      · rename_i type
        split
        · rename_i command
          apply settled_rxUnnumCmd timed
          intro isSabme
          by_contra set
          rw [Bool.not_eq_false] at set
          exact sabme ⟨type, command, isSabme, set⟩
        · rename_i response
          apply settled_rxUnnumRsp timed
          intro isXid set disc
          exact xid ⟨type, response, isXid, set, disc⟩
      · exact fun _ => timed

/-! ### Fetching a frame -/

theorem timed_sendInfo (timed : m.clock.Timed) (data : m.lapm.state = .data)
    (more : m.lapm.txInfo ≠ m.lapm.infoList) : m.sendInfo.1.clock.Timed := by
  have sent := timed.numbered.send more
  have config := timed.config_data data
  unfold sendInfo
  simp only
  split
  · exact timed_timerStart sent config
  · rename_i running
    apply Clock.Timed.of_armed { sent with } (timed.armed_data data running)
    intro set
    exact absurd (config.symm.trans set) (by decide)

theorem timed_getTxFrame (timed : m.clock.Timed) (chars : Chars) :
    (m.lapmGetTxFrame chars).1.clock.Timed := by
  unfold lapmGetTxFrame
  simp only
  split
  · exact timed
  · split
    · exact timed
    · rename_i isOpen
      have data : m.lapm.state = .data := by
        simp only [Bool.or_eq_true, decide_eq_true_eq, not_or, not_not] at isOpen
        exact isOpen.2
      have moved : Moves m (if m.lapm.txInfo = m.lapm.infoList then m.txInfo chars
          else (m, true)).1 := by
        split
        · exact moves_txInfo m chars
        · exact moves_of_clock rfl
      have more : (if m.lapm.txInfo = m.lapm.infoList then m.txInfo chars else (m, true)).2 = true →
          (if m.lapm.txInfo = m.lapm.infoList then m.txInfo chars else (m, true)).1.lapm.txInfo ≠
          (if m.lapm.txInfo = m.lapm.infoList then m.txInfo chars
            else (m, true)).1.lapm.infoList := by
        split
        · exact txInfo_more m chars
        · rename_i some
          exact fun _ => some
      generalize (if m.lapm.txInfo = m.lapm.infoList then m.txInfo chars else (m, true)) = sent
        at moved more
      have timed' := timed_moves moved timed
      split
      · rename_i filled
        exact timed_sendInfo timed' (moved.phase.trans data) (more filled)
      · exact timed'

/-! ### The timer expires -/

theorem settled_t401Exhausted (timed : m.clock.Timed)
    (attended : m.lapm.state = .idle → m.lapm.config = false) :
    Settled (t401Exhausted { m with bitTimer := 0 }) := by
  unfold t401Exhausted
  simp only
  have stopped : ({ m with
      bitTimer := 0
      lapm := { m.lapm with rtxCount := 0 } } : Modem).clock = m.clock.stop := rfl
  generalize ({ m with
      bitTimer := 0
      lapm := { m.lapm with rtxCount := 0 } } : Modem) = m' at stopped
  have numbered : m'.clock.Numbered := by
    rw [stopped]
    exact { timed.numbered with }
  cases phase : m.lapm.state with
  | estab | disc => exact settled_release _
  | data =>
      intro _
      rw [clock_lapmDisconnect]
      exact Clock.Timed.start { numbered with } fun _ => Or.inr rfl
  | idle =>
      intro _
      have quiet : ¬ m.clock.Waiting := by
        rintro (set | estab | disc | ⟨data, _⟩)
        · exact absurd ((attended phase).symm.trans set) (by decide)
        · exact absurd (phase.symm.trans estab) (by decide)
        · exact absurd (phase.symm.trans disc) (by decide)
        · exact absurd (phase.symm.trans data) (by decide)
      simp only [stopped]
      exact Clock.Timed.stop timed.numbered quiet

theorem settled_t401Timeout (timed : m.clock.Timed)
    (attended : lapmMaxRtx < m.lapm.rtxCount → m.lapm.state = .idle → m.lapm.config = false) :
    Settled (t401Timeout { m with bitTimer := 0 }) := by
  unfold t401Timeout
  split
  · rename_i exhausted
    exact settled_t401Exhausted timed (attended exhausted)
  · intro _
    have resent := clock_t401Resend
      { m with bitTimer := 0, lapm := { m.lapm with rtxCount := m.lapm.rtxCount + 1 } }
    simp only
    have clockEq : ∀ {m' : Modem} {c : Clock}, m'.clock = c →
        ({ m' with
          bitTimer := t401TimeoutBits
          bitTimerFunc := some .t401Timeout } : Modem).clock =
        { c with bitTimer := t401TimeoutBits, bitTimerFunc := some .t401Timeout } := by
      intro m' c same
      rw [← same]
      rfl
    rw [clockEq resent]
    apply Clock.Timed.of_armed
    · exact { timed.numbered with }
    · exact ⟨show 0 < t401TimeoutBits by decide, rfl⟩
    · exact timed.config

theorem timed_negotiate (timed : m.clock.Timed) (idle : m.lapm.state = .idle) :
    (modemEcNegotiate { m with bitTimer := 0 }).clock.Timed := by
  unfold modemEcNegotiate lapmConfig
  simp only
  rw [if_neg (by rw [idle]; decide)]
  change (putCtrl _ _).clock.start.Timed
  rw [clock_putCtrl]
  exact Clock.Timed.start { timed.numbered with } fun _ => Or.inl idle

/-- The timer expires in `LAPM_IDLE` after the last retransmission of XID. -/
def NeglectsTick (m : Modem) (bits : Nat) : Prop :=
  m.bitsExpire bits = true ∧ m.bitTimerFunc = some .t401Timeout ∧
    lapmMaxRtx < m.lapm.rtxCount ∧ m.lapm.state = .idle ∧ m.lapm.config = true

theorem settled_tickBits (timed : m.clock.Timed) (bits : Nat)
    (attended : ¬ m.NeglectsTick bits) : Settled (m.tickBits bits) := by
  unfold tickBits
  split
  · rename_i expires
    have running : m.bitTimer ≠ 0 := by
      unfold bitsExpire at expires
      simp only [Bool.and_eq_true, bne_iff_ne] at expires
      exact expires.1
    unfold runBitTimer
    rcases timed.running running with armed | ⟨negotiate, idle, _⟩
    · have func : m.bitTimerFunc = some .t401Timeout := armed.2
      simp only [func]
      rw [← func]
      apply settled_t401Timeout timed
      intro exhausted idle
      by_contra set
      rw [Bool.not_eq_false] at set
      exact attended ⟨expires, func, exhausted, idle, set⟩
    · have func : m.bitTimerFunc = some .modemEcNegotiate := negotiate
      simp only [func]
      rw [← func]
      exact fun _ => timed_negotiate timed idle
  · rename_i goesOn
    split
    · rename_i running
      intro _
      have left : 0 < m.bitTimer - bits := by
        unfold bitsExpire at goesOn
        simp only [Bool.and_eq_true, bne_iff_ne, not_and, decide_eq_true_eq] at goesOn
        have := goesOn running
        omega
      have armed : m.clock.Armed →
          ({ m with bitTimer := m.bitTimer - bits } : Modem).clock.Armed :=
        fun armed => ⟨left, armed.2⟩
      exact
        { numbered := { timed.numbered with }
          waiting := fun waiting => armed (timed.waiting waiting)
          resent := fun resent => armed (timed.resent resent)
          running := fun _ => (timed.running running).imp armed id
          config := timed.config }
    · exact fun _ => timed

/-! ### Runs -/

inductive LinkEvent where
  | frame (f : Hdlc.Frame) (chars : Chars)
  | fetch (chars : Chars)
  | tick (bits : Nat)
  | push (chars : Chars)
  | hangup
  | lost
  | escape
  | online

def linkStep (m : Modem) : LinkEvent → Modem
  | .frame f chars => m.lapmRxComplete f chars
  | .fetch chars => if m.getTxFrame then (m.lapmGetTxFrame chars).1 else m
  | .tick bits => m.tickBits bits
  | .push chars => if m.packerProcess then m.pushRestData chars else m
  | .hangup => m.modemHup true
  | .lost => m.modemUpdateStatus .dpError
  | .escape => m.modemEscape
  | .online => m.modemOnline.1

def linkRun (m : Modem) : List LinkEvent → Modem
  | [] => m
  | event :: rest => (m.linkStep event).linkRun rest

/-- The modem as error correction starts on it. -/
def linkStart (m : Modem) : Modem := m.lapmInit.hdlcStart.modemEcStart

def Neglects (m : Modem) : LinkEvent → Prop
  | .frame f _ => m.NeglectsFrame f
  | .tick bits => m.NeglectsTick bits
  | _ => False

/-- Error correction runs up to the last step, and no step neglects the timer. -/
def Attended (m : Modem) : List LinkEvent → Prop
  | [] => True
  | event :: rest =>
      m.state.linked = true ∧ ¬ m.Neglects event ∧ (m.linkStep event).Attended rest

theorem clock_linkStart (m : Modem) :
    m.linkStart.clock =
      { phase := .idle
        config := false
        rtxCount := 0
        vs := 0
        va := 0
        sentInfo := 0
        txInfo := 0
        infoList := 0
        txWinSize := m.cfg.ecTxWinSize
        peerBusy := false
        bitTimer := if m.caller then 48 * 8 else 0
        bitTimerFunc := if m.caller then some .modemEcNegotiate else none
        state := m.state
        allocErrors := m.allocErrors } := by
  unfold linkStart modemEcStart
  by_cases caller : m.caller = true
  · rw [if_pos (show m.lapmInit.hdlcStart.caller = true from caller), if_pos caller,
      if_pos caller]
    rfl
  · rw [if_neg (show ¬ m.lapmInit.hdlcStart.caller = true from caller), if_neg caller,
      if_neg caller]
    rfl

theorem timed_linkStart (m : Modem) (window : m.cfg.ecTxWinSize = lapmMaxWinSize) :
    m.linkStart.clock.Timed := by
  have clockEq := clock_linkStart m
  have numbered : m.linkStart.clock.Numbered := by
    rw [clockEq]
    exact
      { va := show 0 < 128 by decide
        sent := show 0 < lapmInfoFrames by decide
        tx := show 0 < lapmInfoFrames by decide
        list := show 0 < lapmInfoFrames by decide
        vs := show 0 = (0 + ringLength lapmInfoFrames 0 0) % 128 by decide
        within := Nat.le_refl _
        window := window }
  have idle : m.linkStart.clock.phase = .idle := congrArg Clock.phase clockEq
  have config : m.linkStart.clock.config = false := congrArg Clock.config clockEq
  have counted : m.linkStart.clock.rtxCount = 0 := congrArg Clock.rtxCount clockEq
  have quiet : ¬ m.linkStart.clock.Waiting := by
    rintro (set | estab | disc | ⟨data, _⟩)
    · exact absurd (config.symm.trans set) (by decide)
    · exact absurd (idle.symm.trans estab) (by decide)
    · exact absurd (idle.symm.trans disc) (by decide)
    · exact absurd (idle.symm.trans data) (by decide)
  refine
    { numbered := numbered
      waiting := fun waiting => absurd waiting quiet
      resent := fun resent => absurd counted (Nat.ne_of_gt resent)
      running := ?_
      config := fun set => absurd (Or.inl set) quiet }
  intro running
  right
  refine ⟨?_, idle, config⟩
  rw [clockEq] at running ⊢
  by_cases caller : m.caller = true
  · exact if_pos caller
  · exact absurd (if_neg caller) running

theorem not_linked_dpDisc {m' : Modem} (state : m'.state = .dpDisc) : Settled m' := by
  intro linked
  rw [state] at linked
  cases linked

theorem settled_hangup (timed : m.clock.Timed) : Settled (m.modemHup true) := by
  have down : ∀ m' : Modem,
      Settled ((m'.modemSetState .dpDisc).defaultResult.scheduleModemStop) := by
    intro m'
    apply not_linked_dpDisc
    have state := congrArg Clock.state
      ((clock_scheduled (m'.modemSetState .dpDisc)).trans (clock_setState m' .dpDisc))
    exact state
  unfold modemHup
  cases m.state with
  | modemIdle | dpDisc => exact fun _ => timed
  | dpEstab => exact down m
  | ecDisc => exact not_linked_dpDisc (congrArg Clock.state (clock_setState m .dpDisc))
  | ecEstab | modemOnline | commandOnline =>
      simp only
      split
      · intro _
        rw [clock_scheduled, clock_setState]
        unfold modemEcStop
        rw [clock_lapmDisconnect]
        apply Clock.Timed.of_armed
        · exact { timed.numbered with }
        · exact ⟨show 0 < t401TimeoutBits by decide, rfl⟩
        · exact fun _ => Or.inr rfl
      · exact down m

theorem timed_of_state {m' : Modem} {state : ModemState} (timed : m.clock.Timed)
    (same : m'.clock = { m.clock with state := state }) : m'.clock.Timed := by
  rw [same]
  exact { timed with numbered := { timed.numbered with } }

theorem timed_escape (timed : m.clock.Timed) : m.modemEscape.clock.Timed := by
  unfold modemEscape
  simp only
  split
  · exact timed_of_state timed ((clock_report _ .ok).trans (clock_setState m .commandOnline))
  · exact timed

theorem timed_online (timed : m.clock.Timed) : m.modemOnline.1.clock.Timed := by
  unfold modemOnline
  split
  · exact timed
  · exact timed_of_state timed ((clock_report _ .connect).trans
      (clock_setState { m with command := false } .modemOnline))

theorem settled_linkStep (timed : m.clock.Timed) (event : LinkEvent)
    (attended : ¬ m.Neglects event) : Settled (m.linkStep event) := by
  cases event with
  | frame f chars => exact settled_rxComplete timed f chars attended
  | fetch chars =>
      intro _
      unfold linkStep
      simp only
      split
      · exact timed_getTxFrame timed chars
      · exact timed
  | tick bits => exact settled_tickBits timed bits attended
  | push chars =>
      intro _
      unfold linkStep
      simp only
      split
      · exact timed_moves (moves_pushRestData m chars) timed
      · exact timed
  | hangup => exact settled_hangup timed
  | lost =>
      intro _
      have clockEq : (m.modemUpdateStatus .dpError).clock =
          { m.clock with state := m.state.hungUp } := clock_error m
      exact timed_of_state timed clockEq
  | escape => exact fun _ => timed_escape timed
  | online => exact fun _ => timed_online timed

theorem settled_linkRun (settled : Settled m) (events : List LinkEvent)
    (attended : m.Attended events) : Settled (m.linkRun events) := by
  induction events generalizing m with
  | nil => exact settled
  | cons event rest ih =>
      rcases attended with ⟨linked, kept, later⟩
      exact ih (settled_linkStep (settled linked) event kept) later

/-- While error correction runs, a modem that waits for its peer has T401 running,
in every run without a step that neglects it. -/
theorem waiting_armed_of_attended (m : Modem) (window : m.cfg.ecTxWinSize = lapmMaxWinSize)
    (events : List LinkEvent) (attended : m.linkStart.Attended events)
    (linked : (m.linkStart.linkRun events).state.linked = true)
    (waiting : (m.linkStart.linkRun events).clock.Waiting) :
    (m.linkStart.linkRun events).clock.Armed := by
  have start : Settled m.linkStart := fun _ => timed_linkStart m window
  exact (settled_linkRun start events attended linked).waiting waiting

def answering : Modem := modemSetState { modemCreate with dp := some .v34 } .ecEstab

def sabmeFrame : Hdlc.Frame :=
  { count := 2, size := 512, fcs := Hdlc.goodFcs, buf := [3, frameUSabme ||| 0x10] }

def rnrFrame : Hdlc.Frame :=
  { count := 3, size := 512, fcs := Hdlc.goodFcs, buf := [3, frameSRnr, 0] }

def noChars : Chars := { get := some [], accept := 0, fails := false }

/-- After SABME the peer reports that it is busy, and no timer runs. -/
theorem waiting_not_armed :
    let m := answering.linkStart
    let events : List LinkEvent := [.frame sabmeFrame noChars, .frame rnrFrame noChars]
    m.state.linked = true ∧ (m.linkRun events).state = .modemOnline ∧
      (m.linkRun events).clock.Waiting ∧ ¬ (m.linkRun events).clock.Armed := by
  refine ⟨by decide, by decide, ?_, ?_⟩
  · exact Or.inr (Or.inr (Or.inr ⟨by decide, Or.inr (by decide)⟩))
  · intro armed
    exact absurd armed.1 (by decide)

/-- SABME, a hang-up, and the retransmission of DISC. -/
theorem waiting_armed_of_hangup :
    let m := answering.linkStart
    let events : List LinkEvent := [.frame sabmeFrame noChars, .hangup, .tick 57600]
    (m.linkRun events).clock.Waiting ∧ (m.linkRun events).clock.Armed := by
  have waiting : (answering.linkStart.linkRun
      [.frame sabmeFrame noChars, .hangup, .tick 57600]).clock.Waiting :=
    Or.inr (Or.inr (Or.inl (by decide)))
  refine ⟨waiting, waiting_armed_of_attended answering rfl _ ?_ (by decide) waiting⟩
  refine ⟨by decide, ?_, by decide, id, by decide, ?_, trivial⟩
  · rintro (⟨data, _⟩ | ⟨data, _⟩ | ⟨_, _, _, set⟩ | ⟨_, other, _⟩)
    · exact absurd data (by decide)
    · exact absurd data (by decide)
    · exact absurd set (by decide)
    · exact other (by decide)
  · rintro ⟨_, _, exhausted, _⟩
    exact absurd exhausted (by decide)

end Modem

end DModem
