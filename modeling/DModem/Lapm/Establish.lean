/-
One end of a link that is set up.

The end that calls negotiates with XID and asks for the link with SABME, both repeated
whenever T401 expires.  The link comes up with UA, with SABME at the other end, and also
with the first information or supervisory frame.  Until then an end that calls has read
nothing and received nothing, and a reset then leaves the two flows as they are.
-/

import DModem.Lapm.Delivery
import DModem.Modem.Connect
import DModem.Modem.Window
import DModem.Modem.Waiting

namespace DModem.Lapm

open DModem.Lib

/-! ### How far the set-up of a link has come -/

def Calling (m : Modem) : Prop := m.lapm.config = true ∨ m.lapm.state = .estab

/-- What holds of an end before its link comes up and afterwards; only the end that `calls`
is ever in the first of the two. -/
structure Stage (calls : Prop) (received : Nat) (m : Modem) : Prop where
  numbered : m.clock.Numbered
  unused : Calling m → calls ∧ m.taken = [] ∧ received = 0
  negotiates : m.lapm.config = true → m.lapm.state = .idle ∨ m.lapm.state = .disc

section Stage

variable {calls : Prop} {received : Nat} {m m' : Modem}

theorem Stage.settled (stage : Stage calls received m) (isOpen : Open m) :
    m.lapm.config = false := by
  by_contra negotiates
  rw [Bool.not_eq_false] at negotiates
  unfold Open at isOpen
  have phase := stage.negotiates negotiates
  rw [isOpen] at phase
  rcases phase with absurd' | absurd' <;> cases absurd'

theorem Stage.estab_settled (stage : Stage calls received m) (estab : m.lapm.state = .estab) :
    m.lapm.config = false := by
  by_contra negotiates
  rw [Bool.not_eq_false] at negotiates
  have phase := stage.negotiates negotiates
  rw [estab] at phase
  rcases phase with absurd' | absurd' <;> cases absurd'

theorem Stage.leave (stage : Stage calls received m) (numbered : m'.clock.Numbered)
    (phase : m'.lapm.state = m.lapm.state ∨ m'.lapm.state = .idle ∨ m'.lapm.state = .disc)
    (config : m'.lapm.config = m.lapm.config) (taken : m'.taken = m.taken) :
    Stage calls received m' := by
  constructor
  · exact numbered
  · intro calling
    rw [taken]
    apply stage.unused
    rcases calling with negotiates | estab
    · exact Or.inl (config.symm.trans negotiates)
    · right
      rcases phase with same | idle | disc
      · rw [← same, estab]
      · rw [estab] at idle
        cases idle
      · rw [estab] at disc
        cases disc
  · intro negotiates
    rcases phase with same | left'
    · rw [same]
      exact stage.negotiates (config.symm.trans negotiates)
    · exact left'

theorem Stage.past (numbered : m'.clock.Numbered) (phase : m'.lapm.state ≠ .estab)
    (config : m'.lapm.config = false) : Stage calls received m' := by
  constructor
  · exact numbered
  · rintro (negotiates | estab)
    · rw [config] at negotiates
      cases negotiates
    · exact absurd estab phase
  · intro negotiates
    rw [config] at negotiates
    cases negotiates

end Stage

/-! ### The link comes up -/

section Reset

variable {track : Track} {out : List Packet} {peerR : Lib.Receiver Chunk} {peerS : Sender Chunk}
  {m : Modem}

theorem SideAt.revive (side : SideAt track [] out peerR peerS False m)
    (numbered : m.clock.Numbered) (unread : m.taken = []) (none : track.vr = 0) :
    SideAt track [] out peerR peerS True m.reset := by
  rcases side with ⟨s, r, queue, side, tracks⟩
  refine ⟨s, r, queue, { side with rep := fun _ => ?_ }, tracks⟩
  have items : s.items = [] := by
    have taken : m.taken = [] ++ s.items := side.taken
    rw [unread] at taken
    exact taken.symm
  have flow := side.flowOut
  have filled := flow.filled
  have assigned := flow.assigned
  have sent := flow.sent
  rw [items, List.length_nil] at filled
  have vr : r.vr = 0 := tracks.2.1.trans none
  have empty : (core m).rest = [] := by
    have terminal := side.terminal
    rw [side.flowIn.inOrder, vr, List.take_zero, List.flatten_nil] at terminal
    exact (List.append_eq_nil_iff.mp terminal).2
  have rxCount : m.lapm.rxCount = 0 := by
    have counted := side.counted
    rw [empty] at counted
    exact counted
  constructor
  · change 0 = s.va % 128
    omega
  · change 0 = s.vs % 128
    omega
  · change 0 = r.vr % 128
    omega
  · exact numbered.window
  · exact numbered.list
  · exact numbered.list
  · change m.lapm.infoList = (m.lapm.infoList + (s.vs - s.va)) % lapmInfoFrames
    have same : s.vs - s.va = 0 := by omega
    have listLt : m.lapm.infoList < lapmInfoFrames := numbered.list
    rw [same, Nat.add_zero, Nat.mod_eq_of_lt listLt]
  · change ringItems lapmInfoFrames _ m.lapm.infoList m.lapm.infoList = _
    rw [items, List.drop_nil]
    exact ringItems_empty numbered.list
  · intro some
    exact absurd rxCount some

theorem core_rxXid (window : m.lapm.txWinSize = lapmMaxWinSize) (f : Hdlc.Frame) :
    core (m.rxXid f) = core m := by
  rcases Modem.rxXid_frame m f with ⟨l, _, _, _, _, _, link, same⟩
  have kept := link.window window
  rw [same]
  unfold core
  simp only
  rw [link.same]
  simp only [window, kept]
  rfl

end Reset

/-! ### Negotiation is over in the data phase -/

section Config

variable {m : Modem}

theorem config_of_moves {m' : Modem} (moves : Modem.Moves m m') :
    m'.lapm.config = m.lapm.config := by
  rcases moves with ⟨state, list, errors, same, _, _⟩
  exact congrArg Clock.config same

theorem config_rejectInfo (m : Modem) : m.rejectInfo.lapm.config = m.lapm.config := by
  unfold Modem.rejectInfo
  split <;> rfl

theorem config_txReady (m : Modem) (addr pf : UInt8) :
    (m.txReady addr pf).lapm.config = m.lapm.config :=
  congrArg Clock.config (Modem.clock_txReady m addr pf)

theorem config_timer (c : Clock) (n : Nat) : (c.ackTimer n).config = c.config := by
  unfold Clock.ackTimer
  split_ifs <;> rfl

theorem config_ackInfo (m : Modem) (nr : Nat) : (m.ackInfo nr).lapm.config = m.lapm.config := by
  unfold Modem.ackInfo
  split
  · exact congrArg Clock.config (Modem.clock_lapmDisconnect m)
  · rcases Modem.ackLoop_frame 128 m.lapm nr with ⟨sentInfo, va, same⟩
    have timed := congrArg Clock.config (Modem.clock_ackTimer
      { m with lapm := (Modem.ackLoop 128 m.lapm nr).1 } (Modem.ackLoop 128 m.lapm nr).2)
    rw [config_timer] at timed
    refine timed.trans ?_
    simp only [Modem.clock, same]

theorem config_rxInfo (f : Hdlc.Frame) (chars : Chars) :
    (m.rxInfo f chars).lapm.config = m.lapm.config := by
  rw [config_of_moves (Modem.moves_rxInfo m f chars), config_ackInfo]

theorem config_peerAck (peerBusy : Bool) (nr : Nat) :
    ((m.setPeerBusy peerBusy).ackInfo nr).lapm.config = m.lapm.config :=
  config_ackInfo (m.setPeerBusy peerBusy) nr

theorem config_rxSuperCmd (f : Hdlc.Frame) (chars : Chars) :
    (m.rxSuperCmd f chars).lapm.config = m.lapm.config := by
  unfold Modem.rxSuperCmd
  simp only
  split
  · rw [config_of_moves (Modem.moves_answerSuper _ f chars), config_peerAck]
  · split
    · split
      · rw [config_txReady, config_peerAck]
      · exact config_peerAck true _
    · split
      · rw [config_of_moves (Modem.moves_answerSuper _ f chars)]
        split
        · rw [config_rejectInfo]
          exact config_peerAck false _
        · exact config_peerAck false _
      · rfl

theorem config_goBack (m : Modem) : m.rejectInfo.timerStop.lapm.config = m.lapm.config :=
  config_rejectInfo m

theorem config_rxSuperRsp (f : Hdlc.Frame) : (m.rxSuperRsp f).lapm.config = m.lapm.config := by
  have ready := config_peerAck (m := m) false (Frame.nr f)
  have busy := config_peerAck (m := m) true (Frame.nr f)
  unfold Modem.rxSuperRsp
  generalize (m.setPeerBusy false).ackInfo (Frame.nr f) = readyAcked at ready
  generalize (m.setPeerBusy true).ackInfo (Frame.nr f) = busyAcked at busy
  simp only
  split
  · rfl
  · split
    · split
      · rw [config_goBack, ready]
      · exact ready
    · split
      · have back : (if busyAcked.lapm.rtxCount ≠ 0 ∧ Frame.pf f ≠ 0 then
            busyAcked.rejectInfo.timerStop else busyAcked).lapm.config = m.lapm.config := by
          split
          · rw [config_goBack, busy]
          · exact busy
        generalize (if busyAcked.lapm.rtxCount ≠ 0 ∧ Frame.pf f ≠ 0 then
          busyAcked.rejectInfo.timerStop else busyAcked) = backed at back
        split
        · exact back
        · exact back
      · split
        · split
          · rw [config_goBack, ready]
          · exact ready
        · rfl

end Config

/-! ### An information or supervisory frame arrives -/

section Numbered

variable {calls : Prop} {track : Track} {out : List Packet} {peerR : Lib.Receiver Chunk}
  {peerS : Sender Chunk} {m : Modem} {packet : Packet} {bytes : List UInt8}

theorem isLink_of_encodes (encodes : Encodes packet bytes) (numbered : packet.ack? ≠ none) :
    Modem.IsLinkFrame (frameOf bytes) := by
  cases encodes with
  | info addr seq chunk ack => exact Or.inl (info_type addr seq ack chunk)
  | super addr ctrl pf ack kind bit => exact Or.inr (super_type addr ctrl pf ack kind)
  | unnum bytes kind => exact absurd rfl numbered

theorem validDataState_open (isOpen : Open m) : m.validDataState = (m, true) := by
  unfold Open at isOpen
  unfold Modem.validDataState
  rw [isOpen]

theorem validDataState_estab (estab : m.lapm.state = .estab) :
    m.validDataState = ((m.reset.setPhase .data).modemUpdateStatus .ecLink, true) := by
  unfold Modem.validDataState
  rw [estab]

theorem rxComplete_link (f : Hdlc.Frame) (link : Modem.IsLinkFrame f) (chars : Chars) :
    m.lapmRxComplete f chars =
      if m.validDataState.2 then
        if Frame.type f = Modem.frameI then m.validDataState.1.rxInfo f chars
        else if Frame.addr f = m.validDataState.1.lapm.rspAddr then
          m.validDataState.1.rxSuperCmd f chars
        else m.validDataState.1.rxSuperRsp f
      else m.validDataState.1 := by
  unfold Modem.lapmRxComplete
  rcases link with info | super
  · simp only [if_pos info]
  · have other : ¬ Frame.type f = Modem.frameI := by
      rw [super]
      decide
    simp only [if_neg other, if_pos super]

theorem config_rxLink (isOpen : Open m) (f : Hdlc.Frame) (link : Modem.IsLinkFrame f)
    (chars : Chars) : (m.lapmRxComplete f chars).lapm.config = m.lapm.config := by
  rw [rxComplete_link f link, validDataState_open isOpen, if_pos rfl]
  simp only
  split
  · exact config_rxInfo f chars
  · split
    · exact config_rxSuperCmd f chars
    · exact config_rxSuperRsp f

theorem rxComplete_estab (estab : m.lapm.state = .estab) (f : Hdlc.Frame)
    (link : Modem.IsLinkFrame f) (chars : Chars) :
    m.lapmRxComplete f chars = m.validDataState.1.lapmRxComplete f chars := by
  have isOpen : Open m.validDataState.1 := by
    rw [validDataState_estab estab]
    exact Modem.phase_link _
  have valid : m.validDataState.2 = true := by rw [validDataState_estab estab]
  rw [rxComplete_link f link, rxComplete_link f link, validDataState_open isOpen, if_pos valid,
    if_pos rfl]

theorem validDataState_refuses (closed : ¬ Open m) (unestab : m.lapm.state ≠ .estab) :
    m.validDataState.2 = false ∧
      (m.validDataState.1.lapm.state = m.lapm.state ∨ m.validDataState.1.lapm.state = .idle) ∧
      m.validDataState.1.lapm.config = m.lapm.config ∧ m.validDataState.1.taken = m.taken := by
  unfold Modem.validDataState
  cases phase : m.lapm.state with
  | idle => exact ⟨rfl, Or.inl phase, rfl, rfl⟩
  | estab => exact absurd phase unestab
  | data => exact absurd phase closed
  | disc =>
      refine ⟨rfl, Or.inr ?_, ?_, (quiet_release _).taken⟩
      · rw [Modem.phase_release]
        rfl
      · simp only [(quiet_release _).lapm]
        rfl

theorem rxComplete_refused (closed : ¬ Open m) (unestab : m.lapm.state ≠ .estab) (f : Hdlc.Frame)
    (link : Modem.IsLinkFrame f) (chars : Chars) :
    m.lapmRxComplete f chars = m.validDataState.1 := by
  have refused := (validDataState_refuses closed unestab).1
  rw [rxComplete_link f link, refused]
  rfl

variable {acks : List Nat} {later : List (Nat × Chunk)}

theorem SideAt.rxSettled
    (side : SideAt track [] out { peerR with acks := packet.ack?.toList ++ acks }
      { peerS with data := packet.data?.toList ++ later } (Open m) m)
    (stage : Stage calls track.vr m) (encodes : Encodes packet bytes)
    (numbered : packet.ack? ≠ none) (unestab : m.lapm.state ≠ .estab) (chars : Chars) :
    ∃ vr, (vr = track.vr ∨ packet.data? ≠ none) ∧
      SideAt { track with vr := vr } [] out { peerR with acks := acks }
        { peerS with data := later } (Open (m.lapmRxComplete (frameOf bytes) chars))
        (m.lapmRxComplete (frameOf bytes) chars) ∧
      Stage calls vr (m.lapmRxComplete (frameOf bytes) chars) := by
  have link := isLink_of_encodes encodes numbered
  have rings := (Modem.rings_rxComplete m (frameOf bytes) chars stage.numbered).1
  rcases side.rxLink encodes numbered unestab chars with ⟨⟨vr, when', after⟩, still⟩
  by_cases isOpen : Open m
  · refine ⟨vr, when'.imp id And.left, after, ?_⟩
    apply Stage.past rings still
    rw [config_rxLink isOpen _ link chars]
    exact stage.settled isOpen
  · have same : vr = track.vr := when'.resolve_right fun both => isOpen both.2
    refine ⟨vr, Or.inl same, after, ?_⟩
    rw [same]
    rcases validDataState_refuses isOpen unestab with ⟨_, phase, config, taken⟩
    rw [rxComplete_refused isOpen unestab _ link chars] at rings ⊢
    exact stage.leave rings (phase.imp id Or.inl) config taken

theorem SideAt.rxNumbered
    (side : SideAt track [] out { peerR with acks := packet.ack?.toList ++ acks }
      { peerS with data := packet.data?.toList ++ later } (Open m) m)
    (stage : Stage calls track.vr m) (encodes : Encodes packet bytes)
    (numbered : packet.ack? ≠ none) (chars : Chars) :
    ∃ vr, (vr = track.vr ∨ packet.data? ≠ none) ∧
      SideAt { track with vr := vr } [] out { peerR with acks := acks }
        { peerS with data := later } (Open (m.lapmRxComplete (frameOf bytes) chars))
        (m.lapmRxComplete (frameOf bytes) chars) ∧
      Stage calls vr (m.lapmRxComplete (frameOf bytes) chars) := by
  by_cases estab : m.lapm.state = .estab
  · have fresh := stage.unused (Or.inr estab)
    have revived := (side.weaken False.elim).revive stage.numbered fresh.2.1 fresh.2.2
    have rings := (Modem.rings_validDataState m stage.numbered).1
    have phase : m.validDataState.1.lapm.state = .data := by
      rw [validDataState_estab estab]
      exact Modem.phase_link _
    have unestab : m.validDataState.1.lapm.state ≠ .estab := by
      rw [phase]
      decide
    have settled : m.validDataState.1.lapm.config = false := by
      rw [validDataState_estab estab]
      simp only [(quiet_link _).lapm]
      exact stage.estab_settled estab
    have up : SideAt track [] out { peerR with acks := packet.ack?.toList ++ acks }
        { peerS with data := packet.data?.toList ++ later } (Open m.validDataState.1)
        m.validDataState.1 := by
      rw [validDataState_estab estab]
      exact ((revived.setPhase .data).of_core (quiet_link _).core).of_live
    rw [rxComplete_estab estab _ (isLink_of_encodes encodes numbered) chars]
    exact up.rxSettled (Stage.past rings unestab settled) encodes numbered unestab chars
  · exact side.rxSettled stage encodes numbered estab chars

end Numbered

/-! ### An unnumbered frame arrives -/

section Unnumbered

variable {calls : Prop} {track : Track} {out : List Packet} {peerR : Lib.Receiver Chunk}
  {peerS : Sender Chunk} {m m' : Modem} {f : Hdlc.Frame}

theorem taken_putCtrl (m : Modem) (bytes : List UInt8) : (m.putCtrl bytes).taken = m.taken := by
  unfold Modem.putCtrl
  split <;> rfl

theorem config_putCtrl (m : Modem) (bytes : List UInt8) :
    (m.putCtrl bytes).lapm.config = m.lapm.config :=
  congrArg Clock.config (Modem.clock_putCtrl m bytes)

theorem ua_ctrl (f : Hdlc.Frame) : (Modem.frameUUa ||| Frame.uPf f) &&& 0x3 = 0x3 ∧
    (Modem.frameUUa ||| Frame.uPf f) &&& 0xef ≠ Modem.frameUSabme := by
  unfold Frame.uPf
  generalize Frame.ctrl f = ctrl
  revert ctrl
  apply forall_byte
  decide +kernel

theorem SideAt.linkUp (side : SideAt track [] out peerR peerS True m) :
    SideAt track [] out peerR peerS (Open (m.timerStop.modemUpdateStatus .ecLink))
      (m.timerStop.modemUpdateStatus .ecLink) :=
  (side.timerStop.of_core (quiet_link _).core).of_live

theorem SideAt.released (dead : SideAt track [] out peerR peerS False m) (m' : Modem)
    (idle : m.lapm.state = .idle) (same : core m' = core m)
    (config : m'.lapm.config = m.lapm.config) (phase : m'.lapm.state = m.lapm.state) :
    SideAt track [] out peerR peerS (Open (m'.modemUpdateStatus .ecRelease))
        (m'.modemUpdateStatus .ecRelease) ∧
      (m'.modemUpdateStatus .ecRelease).lapm.state = .idle ∧
      (m'.modemUpdateStatus .ecRelease).lapm.config = m.lapm.config ∧
      (m'.modemUpdateStatus .ecRelease).taken = m.taken := by
  have gone : (m'.modemUpdateStatus .ecRelease).lapm.state = .idle := by
    rw [Modem.phase_release, phase, idle]
  have coreEq := (quiet_release m').core.trans same
  refine ⟨((dead.of_core coreEq).of_closed gone).1, gone, ?_, congrArg Core.taken coreEq⟩
  rw [(quiet_release m').lapm]
  exact config

theorem SideAt.rxSabme (side : SideAt track [] out peerR peerS (Open m) m)
    (stage : Stage calls track.vr m) (answers : ¬ calls) (unread : m.taken = [])
    (none : track.vr = 0) (numbered : (m.rxSabme f).clock.Numbered) :
    SideAt track [] out peerR peerS (Open (m.rxSabme f)) (m.rxSabme f) ∧
      Stage calls track.vr (m.rxSabme f) := by
  have revived := (side.weaken False.elim).revive stage.numbered unread none
  have answered : SideAt track [] out peerR peerS True
      ((m.reset.setPhase .data).txUa (Frame.uPf f)) :=
    (revived.setPhase .data).txUnnum _ _ (ua_ctrl f).1 fun _ => (ua_ctrl f).2
  have settled : m.lapm.config = false := by
    by_contra negotiates
    rw [Bool.not_eq_false] at negotiates
    exact answers (stage.unused (Or.inl negotiates)).1
  refine ⟨answered.linkUp, Stage.past numbered ?_ ?_⟩
  · change (Modem.modemUpdateStatus _ .ecLink).lapm.state ≠ .estab
    rw [Modem.phase_link]
    change (((m.reset.setPhase .data).putCtrl _).lapm.state) ≠ .estab
    rw [Modem.phase_putCtrl, Modem.phase_setPhase]
    decide
  · change (Modem.modemUpdateStatus _ .ecLink).lapm.config = false
    rw [(quiet_link _).lapm]
    change (((m.reset.setPhase .data).putCtrl _).lapm.config) = false
    rw [config_putCtrl]
    exact settled

theorem SideAt.rxDisc (side : SideAt track [] out peerR peerS (Open m) m)
    (stage : Stage calls track.vr m) (numbered : (m.rxDisc f).clock.Numbered) :
    SideAt track [] out peerR peerS (Open (m.rxDisc f)) (m.rxDisc f) ∧
      Stage calls track.vr (m.rxDisc f) := by
  unfold Modem.rxDisc at numbered ⊢
  split at numbered
  · rename_i idle
    rw [if_pos idle]
    have openEq : Open (m.txDm 1) = Open m := by
      unfold Open
      exact congrArg (· = _) (Modem.phase_putCtrl m _)
    refine ⟨?_, stage.leave numbered (Or.inl (Modem.phase_putCtrl m _)) (config_putCtrl m _)
      (taken_putCtrl m _)⟩
    rw [openEq]
    exact side.txUnnum _ _ (by decide) fun _ => by decide
  · rename_i linked
    rw [if_neg linked]
    have dead : SideAt track [] out peerR peerS False m := side.weaken False.elim
    have answered : SideAt track [] out peerR peerS False
        ((m.setPhase .idle).reset.txUa (Frame.uPf f)) :=
      (dead.setPhase .idle).reset.txUnnum _ _ (ua_ctrl f).1 fun _ => (ua_ctrl f).2
    rcases answered.released ((m.setPhase .idle).reset.txUa (Frame.uPf f)).timerStop
      (Modem.phase_putCtrl _ _) rfl rfl rfl with ⟨after, phase, config, taken⟩
    refine ⟨after, stage.leave numbered (Or.inr (Or.inl phase)) ?_ ?_⟩
    · rw [config]
      exact config_putCtrl _ _
    · rw [taken]
      exact taken_putCtrl _ _

theorem SideAt.dropped (side : SideAt track [] out peerR peerS (Open m) m)
    (stage : Stage calls track.vr m) (same : core m' = core (m.setPhase .idle).reset)
    (config : m'.lapm.config = m.lapm.config) (phase : m'.lapm.state = .idle)
    (numbered : (m'.modemUpdateStatus .ecRelease).clock.Numbered) :
    SideAt track [] out peerR peerS (Open (m'.modemUpdateStatus .ecRelease))
        (m'.modemUpdateStatus .ecRelease) ∧
      Stage calls track.vr (m'.modemUpdateStatus .ecRelease) := by
  have dead : SideAt track [] out peerR peerS False m := side.weaken False.elim
  rcases (dead.setPhase .idle).reset.released m' rfl same config phase with
    ⟨after, gone, config', taken⟩
  exact ⟨after, stage.leave numbered (Or.inr (Or.inl gone)) config' taken⟩

theorem SideAt.rxDm (side : SideAt track [] out peerR peerS (Open m) m)
    (stage : Stage calls track.vr m) (numbered : (m.rxDm f).clock.Numbered) :
    SideAt track [] out peerR peerS (Open (m.rxDm f)) (m.rxDm f) ∧
      Stage calls track.vr (m.rxDm f) := by
  unfold Modem.rxDm at numbered ⊢
  cases phase : m.lapm.state with
  | estab | disc =>
      simp only [phase] at numbered ⊢
      split
      · rename_i final
        rw [if_pos final] at numbered
        exact side.dropped stage rfl rfl rfl numbered
      · exact ⟨side, stage⟩
  | data =>
      simp only [phase] at numbered ⊢
      split
      · rename_i given
        rw [if_pos given] at numbered
        exact side.dropped stage rfl rfl rfl numbered
      · exact ⟨side, stage⟩
  | idle =>
      simp only [phase] at numbered ⊢
      split
      · rename_i given
        rw [if_pos given] at numbered
        have closed : ¬ Open (m.modemUpdateStatus .ecLink) := by
          unfold Open
          rw [Modem.phase_link, phase]
          decide
        refine ⟨(side.of_core (quiet_link m).core).weaken fun isOpen => absurd isOpen closed,
          stage.leave numbered (Or.inl (Modem.phase_link m)) ?_ (quiet_link m).taken⟩
        rw [(quiet_link m).lapm]
      · exact ⟨side, stage⟩

theorem SideAt.rxUaAny (side : SideAt track [] out peerR peerS (Open m) m)
    (stage : Stage calls track.vr m) (numbered : m.rxUa.clock.Numbered) :
    SideAt track [] out peerR peerS (Open m.rxUa) m.rxUa ∧ Stage calls track.vr m.rxUa := by
  unfold Modem.rxUa at numbered ⊢
  cases phase : m.lapm.state with
  | idle | data => exact ⟨side, stage⟩
  | estab =>
      simp only [phase] at numbered ⊢
      have fresh := stage.unused (Or.inr phase)
      have dead : SideAt track [] out peerR peerS False m := side.weaken False.elim
      have revived := (dead.setPhase .data).revive { stage.numbered with } fresh.2.1 fresh.2.2
      refine ⟨revived.linkUp, Stage.past numbered ?_ ?_⟩
      · rw [Modem.phase_link]
        change LapmPhase.data ≠ .estab
        decide
      · rw [(quiet_link _).lapm]
        exact stage.estab_settled phase
  | disc =>
      simp only [phase] at numbered ⊢
      exact side.dropped stage rfl rfl rfl numbered

theorem Stage.ofXid (stage : Stage calls track.vr m) (f : Hdlc.Frame) :
    core (m.rxXid f) = core m ∧ (m.rxXid f).clock = m.clock :=
  ⟨core_rxXid stage.numbered.window f, Modem.clock_rxXid stage.numbered.window f⟩

theorem SideAt.rxXidCmd (side : SideAt track [] out peerR peerS (Open m) m)
    (stage : Stage calls track.vr m) (addr : UInt8)
    (numbered : ((m.rxXid f).txXid addr).clock.Numbered) :
    SideAt track [] out peerR peerS (Open ((m.rxXid f).txXid addr)) ((m.rxXid f).txXid addr) ∧
      Stage calls track.vr ((m.rxXid f).txXid addr) := by
  rcases stage.ofXid f with ⟨coreEq, clockEq⟩
  have phase : ((m.rxXid f).txXid addr).lapm.state = m.lapm.state :=
    (Modem.phase_putCtrl _ _).trans (congrArg Clock.phase clockEq)
  have openEq : Open ((m.rxXid f).txXid addr) = Open m := by
    unfold Open
    rw [phase]
  refine ⟨?_, stage.leave numbered (Or.inl phase) ?_ ?_⟩
  · rw [openEq]
    exact (side.of_core coreEq).txXid addr
  · exact (config_putCtrl _ _).trans (congrArg Clock.config clockEq)
  · exact (taken_putCtrl _ _).trans (congrArg Core.taken coreEq)

theorem SideAt.rxXidRsp (side : SideAt track [] out peerR peerS (Open m) m)
    (stage : Stage calls track.vr m) (calm : track.quiet → ¬ Calling m)
    (numbered : (m.rxXidRsp f).clock.Numbered) :
    SideAt track [] out peerR peerS (Open (m.rxXidRsp f)) (m.rxXidRsp f) ∧
      Stage calls track.vr (m.rxXidRsp f) := by
  unfold Modem.rxXidRsp at numbered ⊢
  by_cases negotiates : m.lapm.config = true
  · rw [if_pos negotiates] at numbered ⊢
    have fresh := stage.unused (Or.inl negotiates)
    rcases stage.ofXid f with ⟨coreEq, clockEq⟩
    have phase : (m.rxXid f).lapm.state = m.lapm.state := congrArg Clock.phase clockEq
    have dead : SideAt track [] out peerR peerS False (Modem.timerStop
        { m.rxXid f with lapm := { (m.rxXid f).lapm with config := false } }) :=
      (side.weaken False.elim).of_core coreEq
    simp only at numbered ⊢
    generalize stoppedEq : Modem.timerStop
      { m.rxXid f with lapm := { (m.rxXid f).lapm with config := false } } = stopped
      at numbered dead ⊢
    have state : stopped.lapm.state = m.lapm.state := by
      rw [← stoppedEq]
      exact phase
    have settled : stopped.lapm.config = false := by rw [← stoppedEq]; rfl
    have taken : stopped.taken = m.taken := by
      rw [← stoppedEq]
      exact congrArg Core.taken coreEq
    rcases stage.negotiates negotiates with idle | disc
    · rw [idle] at state
      simp only [state] at numbered ⊢
      have connected :
          stopped.lapmConnect = (stopped.reset.setPhase .estab).txSabme.timerStart := by
        unfold Modem.lapmConnect
        rw [if_neg (fun other => other state)]
      rw [connected] at numbered ⊢
      have asked : SideAt track [] out peerR peerS False
          (stopped.reset.setPhase .estab).txSabme.timerStart :=
        ((dead.reset.setPhase .estab).txUnnum _ _ (by decide)
          (fun quiet => absurd (Or.inl negotiates) (calm quiet))).timerStart
      have phase' : (stopped.reset.setPhase .estab).txSabme.timerStart.lapm.state = .estab :=
        Modem.phase_putCtrl _ _
      have config' : (stopped.reset.setPhase .estab).txSabme.timerStart.lapm.config = false :=
        (config_putCtrl _ _).trans settled
      refine ⟨asked.weaken ?_, numbered, ?_, ?_⟩
      · intro isOpen
        unfold Open at isOpen
        rw [phase'] at isOpen
        cases isOpen
      · intro _
        refine ⟨fresh.1, ?_, fresh.2.2⟩
        exact (taken_putCtrl _ _).trans (taken.trans fresh.2.1)
      · intro negotiates'
        rw [config'] at negotiates'
        cases negotiates'
    · rw [disc] at state
      simp only [state] at numbered ⊢
      have closed : ¬ Open stopped := by
        unfold Open
        rw [state]
        decide
      refine ⟨dead.weaken fun isOpen => absurd isOpen closed, Stage.past numbered ?_ settled⟩
      rw [state]
      decide
  · rw [if_neg negotiates]
    exact ⟨side, stage⟩

theorem SideAt.rxUnnumbered {bytes : List UInt8}
    (side : SideAt track [] out peerR peerS (Open m) m) (stage : Stage calls track.vr m)
    (kind : bytes.getD 1 0 &&& 0x3 = 0x3)
    (asked : (Packet.unnum bytes).Sabme → ¬ calls ∧ m.taken = [] ∧ track.vr = 0)
    (calm : track.quiet → ¬ Calling m) (chars : Chars) :
    SideAt track [] out peerR peerS (Open (m.lapmRxComplete (frameOf bytes) chars))
        (m.lapmRxComplete (frameOf bytes) chars) ∧
      Stage calls track.vr (m.lapmRxComplete (frameOf bytes) chars) := by
  have numbered := (Modem.rings_rxComplete m (frameOf bytes) chars stage.numbered).1
  have type := unnum_type kind
  unfold Modem.lapmRxComplete at numbered ⊢
  rw [if_neg (by rw [type]; decide), if_neg (by rw [type]; decide), if_pos type] at numbered ⊢
  by_cases command : Frame.addr (frameOf bytes) = m.lapm.rspAddr
  · rw [if_pos command] at numbered ⊢
    unfold Modem.rxUnnumCmd at numbered ⊢
    by_cases sabme : Frame.ctrl (frameOf bytes) &&& 0xef = Modem.frameUSabme
    · rw [if_pos sabme] at numbered ⊢
      rcases asked sabme with ⟨answers, unread, none⟩
      exact side.rxSabme stage answers unread none numbered
    rw [if_neg sabme] at numbered ⊢
    by_cases disc : Frame.ctrl (frameOf bytes) &&& 0xef = Modem.frameUDisc
    · rw [if_pos disc] at numbered ⊢
      exact side.rxDisc stage numbered
    rw [if_neg disc] at numbered ⊢
    by_cases xid : Frame.ctrl (frameOf bytes) &&& 0xef = Modem.frameUXid
    · rw [if_pos xid] at numbered ⊢
      exact side.rxXidCmd stage _ numbered
    rw [if_neg xid]
    exact ⟨side, stage⟩
  · rw [if_neg command] at numbered ⊢
    unfold Modem.rxUnnumRsp at numbered ⊢
    by_cases dm : Frame.ctrl (frameOf bytes) &&& 0xef = Modem.frameUDm
    · rw [if_pos dm] at numbered ⊢
      exact side.rxDm stage numbered
    rw [if_neg dm] at numbered ⊢
    by_cases ua : Frame.ctrl (frameOf bytes) &&& 0xef = Modem.frameUUa
    · rw [if_pos ua] at numbered ⊢
      exact side.rxUaAny stage numbered
    rw [if_neg ua] at numbered ⊢
    by_cases xid : Frame.ctrl (frameOf bytes) &&& 0xef = Modem.frameUXid
    · rw [if_pos xid] at numbered ⊢
      exact side.rxXidRsp stage calm numbered
    rw [if_neg xid]
    exact ⟨side, stage⟩

end Unnumbered

/-! ### Everything else that happens at an end -/

section Others

variable {calls : Prop} {received : Nat} {track : Track} {out : List Packet}
  {peerR : Lib.Receiver Chunk} {peerS : Sender Chunk} {m : Modem}

theorem getTxFrame_closed (closed : ¬ Open m) (chars : Chars) :
    (m.lapmGetTxFrame chars).1.lapm.config = m.lapm.config ∧
      (m.lapmGetTxFrame chars).1.taken = m.taken := by
  unfold Modem.lapmGetTxFrame
  simp only
  split
  · exact ⟨rfl, rfl⟩
  · have shut : (m.lapm.peerBusy || m.lapm.config || decide (m.lapm.state ≠ .data)) = true := by
      have other : m.lapm.state ≠ .data := closed
      simp [other]
    rw [if_pos shut]
    exact ⟨rfl, rfl⟩

theorem config_getTxFrame (m : Modem) (chars : Chars) :
    (m.lapmGetTxFrame chars).1.lapm.config = m.lapm.config := by
  unfold Modem.lapmGetTxFrame
  simp only
  split
  · rfl
  · split
    · rfl
    · have filled : (if m.lapm.txInfo = m.lapm.infoList then m.txInfo chars
          else (m, true)).1.lapm.config = m.lapm.config := by
        split
        · exact config_of_moves (Modem.moves_txInfo m chars)
        · rfl
      generalize (if m.lapm.txInfo = m.lapm.infoList then m.txInfo chars else (m, true)) = sent
        at filled
      split
      · unfold Modem.sendInfo
        simp only
        split
        · exact filled
        · exact filled
      · exact filled

theorem Stage.getTxFrame (stage : Stage calls received m) (chars : Chars) :
    Stage calls received (m.lapmGetTxFrame chars).1 := by
  have numbered := (Modem.rings_getTxFrame m chars stage.numbered).1
  have phase := Modem.phase_getTxFrame m chars
  by_cases isOpen : Open m
  · apply Stage.past numbered
    · rw [phase, show m.lapm.state = .data from isOpen]
      decide
    · rw [config_getTxFrame]
      exact stage.settled isOpen
  · rcases getTxFrame_closed isOpen chars with ⟨config, taken⟩
    exact stage.leave numbered (Or.inl phase) config taken

theorem Stage.pushRestData (stage : Stage calls received m) (chars : Chars) :
    Stage calls received (m.pushRestData chars) := by
  by_cases isOpen : Open m
  · have moves := Modem.moves_pushRestData m chars
    have numbered := (moves.rings stage.numbered).1
    apply Stage.past numbered
    · rw [moves.phase, show m.lapm.state = .data from isOpen]
      decide
    · rw [config_of_moves moves]
      exact stage.settled isOpen
  · have same : m.pushRestData chars = m := by
      unfold Modem.pushRestData
      exact if_pos isOpen
    rw [same]
    exact stage

theorem config_lapmDisconnect (m : Modem) : m.lapmDisconnect.lapm.config = m.lapm.config :=
  congrArg Clock.config (Modem.clock_lapmDisconnect m)

theorem phase_lapmDisconnect (m : Modem) : m.lapmDisconnect.lapm.state = .disc :=
  congrArg Clock.phase (Modem.clock_lapmDisconnect m)

theorem taken_lapmDisconnect (m : Modem) : m.lapmDisconnect.taken = m.taken :=
  taken_putCtrl (m.setPhase .disc) _

theorem t401Exhausted_leaves (m : Modem) :
    (m.t401Exhausted.lapm.state = m.lapm.state ∨ m.t401Exhausted.lapm.state = .idle ∨
        m.t401Exhausted.lapm.state = .disc) ∧
      m.t401Exhausted.lapm.config = m.lapm.config ∧ m.t401Exhausted.taken = m.taken := by
  unfold Modem.t401Exhausted
  simp only
  cases phase : m.lapm.state with
  | idle => exact ⟨Or.inl rfl, rfl, rfl⟩
  | data =>
      exact ⟨Or.inr (Or.inr (phase_lapmDisconnect _)), config_lapmDisconnect _,
        taken_lapmDisconnect _⟩
  | estab | disc =>
      refine ⟨Or.inr (Or.inl (Modem.phase_release _)), ?_, (quiet_release _).taken⟩
      rw [(quiet_release _).lapm]
      rfl

theorem taken_t401Resend (m : Modem) : m.t401Resend.taken = m.taken := by
  unfold Modem.t401Resend
  split
  · exact taken_putCtrl m _
  · cases m.lapm.state with
    | idle => rfl
    | estab | disc => exact taken_putCtrl m _
    | data =>
        unfold Modem.txReady
        simp only
        split
        · exact taken_putCtrl m _
        · exact taken_putCtrl m _

theorem Stage.t401Timeout (stage : Stage calls received m) :
    Stage calls received m.t401Timeout := by
  have numbered := (Modem.rings_t401Timeout m stage.numbered).1
  unfold Modem.t401Timeout at numbered ⊢
  split
  · rename_i exhausted
    rw [if_pos exhausted] at numbered
    rcases t401Exhausted_leaves m with ⟨phase, config, taken⟩
    exact stage.leave numbered phase config taken
  · rename_i again
    rw [if_neg again] at numbered
    refine stage.leave numbered (Or.inl (Modem.phase_t401Resend _)) ?_ (taken_t401Resend _)
    exact congrArg Clock.config (Modem.clock_t401Resend _)

theorem Stage.modemEcStop (stage : Stage calls received m) :
    Stage calls received m.modemEcStop := by
  have quiet : Modem.Rings m { m with bitTimer := 0, packerProcess := false } :=
    Modem.rings_of_clock rfl
  have numbered := ((quiet.trans (Modem.rings_lapmDisconnect _)) stage.numbered).1
  exact stage.leave numbered (Or.inr (Or.inr (phase_lapmDisconnect _))) (config_lapmDisconnect _)
    (taken_lapmDisconnect _)

theorem SideAt.modemEcStop (side : SideAt track [] out peerR peerS (Open m) m) :
    SideAt track [] out peerR peerS (Open m.modemEcStop) m.modemEcStop := by
  have stopped : SideAt track [] out peerR peerS (Open m)
      { m with bitTimer := 0, packerProcess := false } := side.of_core rfl
  have closed : ¬ Open m.modemEcStop := by
    unfold Open
    rw [show m.modemEcStop.lapm.state = .disc from phase_lapmDisconnect _]
    decide
  exact stopped.lapmDisconnect.weaken fun isOpen => absurd isOpen closed

end Others

end DModem.Lapm
