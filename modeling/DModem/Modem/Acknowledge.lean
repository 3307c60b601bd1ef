/-
What an N(R) acknowledges.

A number of the window acknowledges the frames before it.  The test of `ack_info`
never fails, so that any other number acknowledges every frame that was sent, and the
link goes on.
-/

import DModem.Modem.Waiting
import DModem.Modem.Window

namespace DModem

open Lib

namespace Modem

/-- `va`, `sent_info` and the phase. -/
def acks (m : Modem) : Nat × Nat × LapmPhase := (m.lapm.va, m.lapm.sentInfo, m.lapm.state)

/-- The frames I, RR, RNR and REJ. -/
def CarriesNr (f : Hdlc.Frame) : Prop :=
  Frame.type f = frameI ∨
    Frame.ctrl f = frameSRr ∨ Frame.ctrl f = frameSRnr ∨ Frame.ctrl f = frameSRej

/-- `nr` lies in `va..vs`, modulo 128. -/
def InWindow (l : LapmState) (nr : Nat) : Prop := seqSub nr l.va ≤ seqSub l.vs l.va

/-- Only a number of the window acknowledges frames, and then those before it; for
another one the link is given up. -/
def AckValid (m m' : Modem) (nr : Nat) : Prop :=
  ((m'.lapm.va ≠ m.lapm.va ∨ m'.lapm.sentInfo ≠ m.lapm.sentInfo) →
    InWindow m.lapm nr ∧ m'.lapm.va = nr) ∧
  (¬ InWindow m.lapm nr →
    m'.lapm.va = m.lapm.va ∧ m'.lapm.sentInfo = m.lapm.sentInfo ∧ m'.lapm.state = .disc)

section Acks

variable {m m' : Modem}

theorem acks_of_clock (va : m'.clock.va = m.clock.va) (sent : m'.clock.sentInfo = m.clock.sentInfo)
    (phase : m'.clock.phase = m.clock.phase) : m'.acks = m.acks :=
  Prod.ext va (Prod.ext sent phase)

theorem Moves.acks (moves : Moves m m') : m'.acks = m.acks := by
  rcases moves with ⟨state, list, errors, same, _, _⟩
  apply acks_of_clock
  · rw [same]
  · rw [same]
  · rw [same]

theorem acks_txReady (m : Modem) (addr pf : UInt8) : (m.txReady addr pf).acks = m.acks :=
  (moves_of_clock (clock_txReady m addr pf)).acks

theorem acks_rejectInfo (m : Modem) : m.rejectInfo.acks = m.acks := by
  unfold rejectInfo
  split <;> rfl

theorem acks_goBack (m : Modem) : m.rejectInfo.timerStop.acks = m.acks := acks_rejectInfo m

theorem acked_acks (c : Clock) (nr : Nat) :
    (c.acked nr).va = (c.va + min (seqSub nr c.va) (seqSub c.vs c.va)) % 128 ∧
      (c.acked nr).sentInfo =
        (c.sentInfo + min (seqSub nr c.va) (seqSub c.vs c.va)) % lapmInfoFrames := by
  unfold Clock.acked Clock.ackTimer
  simp only
  split_ifs <;> exact ⟨rfl, rfl⟩

theorem acks_ackInfo (numbered : m.clock.Numbered) (f : Hdlc.Frame) :
    (m.ackInfo (Frame.nr f)).acks =
      ((m.lapm.va + min (seqSub (Frame.nr f) m.lapm.va) (seqSub m.lapm.vs m.lapm.va)) % 128,
        (m.lapm.sentInfo + min (seqSub (Frame.nr f) m.lapm.va) (seqSub m.lapm.vs m.lapm.va)) %
          lapmInfoFrames, m.lapm.state) := by
  have clockEq := clock_ackInfo numbered (nr_lt f)
  rcases acked_acks m.clock (Frame.nr f) with ⟨va, sent⟩
  refine Prod.ext ?_ (Prod.ext ?_ ?_)
  · exact (congrArg Clock.va clockEq).trans va
  · exact (congrArg Clock.sentInfo clockEq).trans sent
  · exact (congrArg Clock.phase clockEq).trans (Clock.phase_ackTimer _ _)

theorem acks_peerAck (numbered : m.clock.Numbered) (peerBusy : Bool) (f : Hdlc.Frame) :
    ((m.setPeerBusy peerBusy).ackInfo (Frame.nr f)).acks = (m.ackInfo (Frame.nr f)).acks := by
  have set : (m.setPeerBusy peerBusy).clock.Numbered := { numbered with }
  rw [acks_ackInfo numbered, acks_ackInfo set]
  rfl

/-! ### Frames -/

theorem acks_rxSuperCmd (numbered : m.clock.Numbered) (f : Hdlc.Frame) (chars : Chars)
    (known : Frame.ctrl f = frameSRr ∨ Frame.ctrl f = frameSRnr ∨ Frame.ctrl f = frameSRej) :
    (m.rxSuperCmd f chars).acks = (m.ackInfo (Frame.nr f)).acks := by
  have ready := acks_peerAck numbered false f
  have busy := acks_peerAck numbered true f
  unfold rxSuperCmd
  generalize (m.setPeerBusy false).ackInfo (Frame.nr f) = readyAcked at ready
  generalize (m.setPeerBusy true).ackInfo (Frame.nr f) = busyAcked at busy
  simp only
  split
  · exact (moves_answerSuper _ f chars).acks.trans ready
  · rename_i notRr
    split
    · split
      · exact (acks_txReady _ _ _).trans busy
      · exact busy
    · rename_i notRnr
      have rej := (known.resolve_left notRr).resolve_left notRnr
      rw [if_pos rej, (moves_answerSuper _ f chars).acks]
      split
      · exact (acks_rejectInfo _).trans ready
      · exact ready

theorem acks_rxSuperRsp (numbered : m.clock.Numbered) (f : Hdlc.Frame) :
    (m.rxSuperRsp f).acks = m.acks ∨ (m.rxSuperRsp f).acks = (m.ackInfo (Frame.nr f)).acks := by
  have ready := acks_peerAck numbered false f
  have busy := acks_peerAck numbered true f
  unfold rxSuperRsp
  generalize (m.setPeerBusy false).ackInfo (Frame.nr f) = readyAcked at ready
  generalize (m.setPeerBusy true).ackInfo (Frame.nr f) = busyAcked at busy
  simp only
  split
  · exact Or.inl rfl
  · split
    · right
      split
      · exact (acks_goBack _).trans ready
      · exact ready
    · split
      · right
        have back : (if busyAcked.lapm.rtxCount ≠ 0 ∧ Frame.pf f ≠ 0 then
            busyAcked.rejectInfo.timerStop else busyAcked).acks =
            (m.ackInfo (Frame.nr f)).acks := by
          split
          · exact (acks_goBack _).trans busy
          · exact busy
        generalize (if busyAcked.lapm.rtxCount ≠ 0 ∧ Frame.pf f ≠ 0 then
          busyAcked.rejectInfo.timerStop else busyAcked) = backed at back
        split
        · exact back
        · exact back
      · split
        · right
          split
          · exact (acks_goBack _).trans ready
          · exact ready
        · exact Or.inl rfl

theorem type_of_super {f : Hdlc.Frame}
    (known : Frame.ctrl f = frameSRr ∨ Frame.ctrl f = frameSRnr ∨ Frame.ctrl f = frameSRej) :
    Frame.type f = frameS := by
  unfold Frame.type
  rcases known with ctrl | ctrl | ctrl <;> rw [ctrl] <;> rfl

/-- A frame with an N(R) is ignored, or acknowledges what `ack_info` does. -/
theorem acks_rxComplete (numbered : m.clock.Numbered) (data : m.lapm.state = .data)
    (f : Hdlc.Frame) (chars : Chars) (carries : CarriesNr f) :
    (m.lapmRxComplete f chars).acks = m.acks ∨
      (m.lapmRxComplete f chars).acks = (m.ackInfo (Frame.nr f)).acks := by
  have valid : m.validDataState = (m, true) := by
    unfold validDataState
    rw [data]
  unfold lapmRxComplete
  rw [valid]
  simp only [if_true]
  rcases carries with info | known
  · rw [if_pos info]
    exact Or.inr (moves_rxInfo m f chars).acks
  · have super := type_of_super known
    rw [if_neg (by rw [super]; decide), if_pos super]
    split
    · exact Or.inr (acks_rxSuperCmd numbered f chars known)
    · exact acks_rxSuperRsp numbered f

theorem inWindow_of_acks (numbered : m.clock.Numbered) (f : Hdlc.Frame)
    (inside : InWindow m.lapm (Frame.nr f))
    (acked : m'.acks = m.acks ∨ m'.acks = (m.ackInfo (Frame.nr f)).acks) :
    AckValid m m' (Frame.nr f) := by
  have va : m.lapm.va < 128 := numbered.va
  have nr := nr_lt f
  refine ⟨?_, fun outside => absurd inside outside⟩
  intro moved
  refine ⟨inside, ?_⟩
  rcases acked with same | same
  · have vaEq : m'.lapm.va = m.lapm.va := congrArg Prod.fst same
    have sentEq : m'.lapm.sentInfo = m.lapm.sentInfo := congrArg (fun p => p.2.1) same
    rcases moved with moved | moved
    · exact absurd vaEq moved
    · exact absurd sentEq moved
  · have vaEq : m'.lapm.va = _ := congrArg Prod.fst (same.trans (acks_ackInfo numbered f))
    rw [vaEq]
    simp only [Nat.min_eq_left inside]
    unfold seqSub
    omega

end Acks

/-- In every reachable `LAPM_DATA` state, a frame is handled as its N(R) demands exactly
if this number lies in the window. -/
theorem ackValid_iff_inWindow (m : Modem) (events : List LapmEvent)
    (data : (m.modemSetupConfig.lapmInit.lapmRun events).lapm.state = .data)
    (f : Hdlc.Frame) (carries : CarriesNr f) (chars : Chars) :
    let s := m.modemSetupConfig.lapmInit.lapmRun events
    AckValid s (s.lapmRxComplete f chars) (Frame.nr f) ↔ InWindow s.lapm (Frame.nr f) := by
  intro s
  have numbered : s.clock.Numbered :=
    (rings_lapmRun m.modemSetupConfig.lapmInit events (numbered_lapmInit _ rfl)).1
  have acked := acks_rxComplete numbered data f chars carries
  constructor
  · intro valid
    by_contra outside
    have gone := (valid.2 outside).2.2
    rcases acked with same | same
    · have phase : (s.lapmRxComplete f chars).lapm.state = s.lapm.state :=
        congrArg (fun p => p.2.2) same
      rw [phase, data] at gone
      cases gone
    · have phase : (s.lapmRxComplete f chars).lapm.state = s.lapm.state :=
        congrArg (fun p => p.2.2) (same.trans (acks_ackInfo numbered f))
      rw [phase, data] at gone
      cases gone
  · intro inside
    exact inWindow_of_acks numbered f inside acked

def oneByte : Chars := { get := some [1], accept := 0, fails := false }

def rrFrame (nr : UInt8) : Hdlc.Frame :=
  { count := 3, size := 512, fcs := Hdlc.goodFcs, buf := [3, frameSRr, nr <<< 1] }

def oneSent : List LapmEvent := [.frame sabmeFrame noChars, .fetch noChars, .fetch oneByte]

/-- RR with N(R) = 1 acknowledges the frame. -/
theorem ackValid_of_one_sent :
    let s := answering.modemSetupConfig.lapmInit.lapmRun oneSent
    s.lapm.state = .data ∧ s.lapm.vs = 1 ∧
      AckValid s (s.lapmRxComplete (rrFrame 1) noChars) (Frame.nr (rrFrame 1)) := by
  have data : (answering.modemSetupConfig.lapmInit.lapmRun oneSent).lapm.state = .data := by decide
  have carries : CarriesNr (rrFrame 1) := Or.inr (Or.inl (by decide))
  refine ⟨data, by decide, ?_⟩
  apply (ackValid_iff_inWindow answering oneSent data (rrFrame 1) carries noChars).mpr
  unfold InWindow
  decide

/-- RR with N(R) = 5 acknowledges it as well, and the link goes on. -/
theorem ackInfo_takes_any_number :
    let s := answering.modemSetupConfig.lapmInit.lapmRun oneSent
    s.lapm.state = .data ∧ ¬ InWindow s.lapm (Frame.nr (rrFrame 5)) ∧
      (s.lapmRxComplete (rrFrame 5) noChars).lapm.va = 1 ∧
      ¬ AckValid s (s.lapmRxComplete (rrFrame 5) noChars) (Frame.nr (rrFrame 5)) := by
  have outside : ¬ InWindow (answering.modemSetupConfig.lapmInit.lapmRun oneSent).lapm
      (Frame.nr (rrFrame 5)) := by
    unfold InWindow
    decide
  refine ⟨by decide, outside, by decide, ?_⟩
  intro valid
  exact absurd (valid.2 outside).2.2 (by decide)

end Modem

end DModem
