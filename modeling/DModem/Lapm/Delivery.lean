/-
Two modems in the data phase, joined by a channel in each direction that loses
frames but keeps their order.

The invariant of a run is that the two modems are the two ends of a pair of
go-back-N flows.  An end that gives up after too many retransmissions takes no
further part in them.
-/

import DModem.Lapm.Handlers
import DModem.Modem.Effects
import DModem.Modem.Control

namespace DModem.Lapm

open DModem.Lib

/-- `ab` is on the way from `a` to `b`, oldest frame first. -/
structure Pair where
  a : Modem
  b : Modem
  ab : List (List UInt8)
  ba : List (List UInt8)

def Pair.swap (p : Pair) : Pair := { a := p.b, b := p.a, ab := p.ba, ba := p.ab }

inductive Event where
  | fetch (chars : Chars)
  | deliver (chars : Chars)
  | lose (index : Nat)
  | timeout
  | push (chars : Chars)

/-- The frame that `a` hands to its transmitter at an event. -/
def Pair.fetched (p : Pair) : Event → Option (List UInt8)
  | .fetch chars => (p.a.lapmGetTxFrame chars).2
  | _ => none

/-- An event at `a`; what is delivered or lost was on the way to `a`. -/
def Pair.stepA (p : Pair) : Event → Pair
  | .fetch chars =>
      { p with
        a := (p.a.lapmGetTxFrame chars).1
        ab := p.ab ++ (p.a.lapmGetTxFrame chars).2.toList }
  | .deliver chars =>
      match p.ba with
      | [] => p
      | bytes :: rest =>
          { p with a := p.a.lapmRxComplete (frameOf bytes) chars, ba := rest }
  | .lose index => { p with ba := p.ba.eraseIdx index }
  | .timeout => { p with a := Modem.t401Timeout { p.a with bitTimer := 0 } }
  | .push chars => { p with a := p.a.pushRestData chars }

/-- An event at `a`, or at `b`. -/
inductive Move where
  | a (event : Event)
  | b (event : Event)

def Pair.step (p : Pair) : Move → Pair
  | .a event => p.stepA event
  | .b event => (p.swap.stepA event).swap

def Pair.run (p : Pair) : List Move → Pair
  | [] => p
  | move :: rest => (p.step move).run rest

def Pair.sent (p : Pair) : Move → Option (List UInt8)
  | .a event => p.fetched event
  | .b event => p.swap.fetched event

def Resets (bytes : List UInt8) : Prop :=
  Frame.type (frameOf bytes) = Modem.frameU ∧
    (Frame.ctrl (frameOf bytes) &&& 0xef = Modem.frameUSabme ∨
      Frame.ctrl (frameOf bytes) &&& 0xef = Modem.frameUDisc ∨
      Frame.ctrl (frameOf bytes) &&& 0xef = Modem.frameUDm ∨
      Frame.ctrl (frameOf bytes) &&& 0xef = Modem.frameUXid)

/-- No SABME, DISC, DM or XID is transmitted in the run. -/
def Pair.DataPhase (p : Pair) : List Move → Prop
  | [] => True
  | move :: rest =>
      (∀ bytes, p.sent move = some bytes → ¬ Resets bytes) ∧ (p.step move).DataPhase rest

/-! ### A frame arrives -/

section Arrival

variable {track : Track} {before : List Chunk} {out : List Packet} {peerR : Receiver Chunk}
  {peerS : Sender Chunk} {m : Modem}

def Plain (packet : Packet) : Prop := ∀ bytes, packet = .unnum bytes → ¬ Resets bytes

def Open (m : Modem) : Prop := m.lapm.state = .data

theorem SideAt.dropPacket {packet : Packet} {acks : List Nat} {later : List (Nat × Chunk)}
    {alive : Prop}
    (side : SideAt track before out { peerR with acks := packet.ack?.toList ++ acks }
      { peerS with data := packet.data?.toList ++ later } alive m) :
    SideAt track before out { peerR with acks := acks } { peerS with data := later } alive m := by
  cases packet with
  | info seq chunk ack => exact side.dropAck.dropData
  | super ack => exact side.dropAck
  | unnum bytes => exact side

theorem SideAt.validDataState (side : SideAt track before out peerR peerS (Open m) m)
    (closed : m.lapm.state ≠ .data) (unestab : m.lapm.state ≠ .estab) :
    m.validDataState.2 = false ∧ m.validDataState.1.lapm.state = .idle ∧
      SideAt track before out peerR peerS False m.validDataState.1 := by
  have dead : SideAt track before out peerR peerS False m := side.weaken False.elim
  unfold Modem.validDataState
  cases phase : m.lapm.state with
  | idle => exact ⟨rfl, phase, dead⟩
  | estab => exact absurd phase unestab
  | data => exact absurd phase closed
  | disc =>
      refine ⟨rfl, ?_, ?_⟩
      · simp only [(quiet_release _).lapm]
        rfl
      · exact (dead.reset.setPhase .idle).of_core (quiet_release _).core

theorem not_open {m : Modem} (phase : m.lapm.state = .idle) : Open m → False := by
  intro isOpen
  rw [Open, phase] at isOpen
  cases isOpen

theorem SideAt.of_closed (dead : SideAt track before out peerR peerS False m)
    (phase : m.lapm.state = .idle) :
    SideAt track before out peerR peerS (Open m) m ∧ m.lapm.state ≠ .estab := by
  refine ⟨dead.weaken (not_open phase), ?_⟩
  rw [phase]
  intro absurd'
  cases absurd'

theorem SideAt.rxUa (side : SideAt track before out peerR peerS (Open m) m)
    (unestab : m.lapm.state ≠ .estab) :
    SideAt track before out peerR peerS (Open m.rxUa) m.rxUa ∧ m.rxUa.lapm.state ≠ .estab := by
  unfold Modem.rxUa
  cases phase : m.lapm.state with
  | idle | data =>
      exact ⟨side, unestab⟩
  | estab => exact absurd phase unestab
  | disc =>
      have dead : SideAt track before out peerR peerS False m := side.weaken False.elim
      apply SideAt.of_closed
      · exact (dead.setPhase .idle).reset.timerStop.of_core (quiet_release _).core
      · simp only [(quiet_release _).lapm]
        rfl

theorem keeps_unestab {m m' : Modem} (isOpen : m.lapm.state = .data) (keeps : Modem.Keeps m m') :
    m'.lapm.state ≠ .estab := by
  rcases keeps with same | gone
  · rw [same, isOpen]
    intro absurd'
    cases absurd'
  · rw [gone]
    intro absurd'
    cases absurd'

theorem SideAt.rxLink {packet : Packet} {bytes : List UInt8} {acks : List Nat}
    {later : List (Nat × Chunk)}
    (side : SideAt track before out { peerR with acks := packet.ack?.toList ++ acks }
      { peerS with data := packet.data?.toList ++ later } (Open m) m)
    (encodes : Encodes packet bytes) (numbered : packet.ack? ≠ none)
    (unestab : m.lapm.state ≠ .estab) (chars : Chars) :
    (∃ vr, (vr = track.vr ∨ packet.data? ≠ none ∧ Open m) ∧
      SideAt { track with vr := vr } before out { peerR with acks := acks }
        { peerS with data := later } (Open (m.lapmRxComplete (frameOf bytes) chars))
        (m.lapmRxComplete (frameOf bytes) chars)) ∧
      (m.lapmRxComplete (frameOf bytes) chars).lapm.state ≠ .estab := by
  cases encodes with
  | info addr seq chunk ack =>
      unfold Modem.lapmRxComplete
      rw [if_pos (info_type addr seq ack chunk)]
      simp only
      by_cases isOpen : m.lapm.state = .data
      · have valid : m.validDataState = (m, true) := by
          unfold Modem.validDataState
          rw [isOpen]
        rw [valid, if_pos rfl]
        refine ⟨?_, keeps_unestab isOpen (Modem.keeps_rxInfo m _ chars)⟩
        rcases (side.live isOpen).rxInfo addr chars with ⟨vr, after⟩
        exact ⟨vr, Or.inr ⟨Option.some_ne_none _, isOpen⟩, after.of_live⟩
      · rcases side.validDataState isOpen unestab with ⟨refused, phase, dead⟩
        rw [refused, if_neg (by decide)]
        have closed := dead.dropPacket.of_closed phase
        exact ⟨⟨track.vr, Or.inl rfl, closed.1⟩, closed.2⟩
  | super addr ctrl pf ack kind bit =>
      have type := super_type addr ctrl pf ack kind
      have nr := super_nr addr ctrl pf ack bit
      unfold Modem.lapmRxComplete
      rw [if_neg (by rw [type]; decide), if_pos type]
      simp only
      by_cases isOpen : m.lapm.state = .data
      · have valid : m.validDataState = (m, true) := by
          unfold Modem.validDataState
          rw [isOpen]
        rw [valid, if_pos rfl]
        split
        · refine ⟨⟨track.vr, Or.inl rfl, ?_⟩,
            keeps_unestab isOpen (Modem.keeps_rxSuperCmd m _ chars)⟩
          exact ((side.live isOpen).rxSuperCmd _ nr chars).of_live
        · refine ⟨⟨track.vr, Or.inl rfl, ?_⟩, keeps_unestab isOpen (Modem.keeps_rxSuperRsp m _)⟩
          exact ((side.live isOpen).rxSuperRsp _ nr).of_live
      · rcases side.validDataState isOpen unestab with ⟨refused, phase, dead⟩
        rw [refused, if_neg (by decide)]
        have closed := dead.dropPacket.of_closed phase
        exact ⟨⟨track.vr, Or.inl rfl, closed.1⟩, closed.2⟩
  | unnum bytes kind => exact absurd rfl numbered

theorem SideAt.rxComplete {packet : Packet} {bytes : List UInt8} {acks : List Nat}
    {later : List (Nat × Chunk)}
    (side : SideAt track before out { peerR with acks := packet.ack?.toList ++ acks }
      { peerS with data := packet.data?.toList ++ later } (Open m) m)
    (encodes : Encodes packet bytes) (plain : Plain packet) (unestab : m.lapm.state ≠ .estab)
    (chars : Chars) :
    SideOf before out { peerR with acks := acks } { peerS with data := later }
        (Open (m.lapmRxComplete (frameOf bytes) chars))
        (m.lapmRxComplete (frameOf bytes) chars) ∧
      (m.lapmRxComplete (frameOf bytes) chars).lapm.state ≠ .estab := by
  by_cases numbered : packet.ack? = none
  case neg =>
    rcases side.rxLink encodes numbered unestab chars with ⟨⟨vr, _, after⟩, still⟩
    exact ⟨after.sideOf, still⟩
  case pos =>
    cases encodes with
    | info | super => exact absurd numbered (Option.some_ne_none _)
    | unnum bytes kind =>
        have type := unnum_type kind
        have harmless := plain bytes rfl
        unfold Resets at harmless
        rw [not_and] at harmless
        have other := harmless type
        simp only [not_or] at other
        unfold Modem.lapmRxComplete
        rw [if_neg (by rw [type]; decide), if_neg (by rw [type]; decide), if_pos type]
        split
        · unfold Modem.rxUnnumCmd
          rw [if_neg other.1, if_neg other.2.1, if_neg other.2.2.2]
          exact ⟨side.sideOf, unestab⟩
        · unfold Modem.rxUnnumRsp
          rw [if_neg other.2.2.1, if_neg other.2.2.2]
          split
          · rcases side.rxUa unestab with ⟨after, still⟩
            exact ⟨after.sideOf, still⟩
          · exact ⟨side.sideOf, unestab⟩

theorem SideAt.front {packet : Packet} {ba' qb : List Packet} {sb : Sender Chunk}
    {rb : Receiver Chunk} {before' : List Chunk} {alive alive' : Prop} {c' : Core}
    {peerR' : Receiver Chunk} {peerS' : Sender Chunk}
    (side : SideAt track before out rb sb alive m)
    (peer : Side before' (packet :: ba') peerR' peerS' alive' c' sb rb qb) :
    SideAt track before out { rb with acks := packet.ack?.toList ++ acksOf (ba' ++ qb) }
      { sb with data := packet.data?.toList ++ dataOf ba' } alive m := by
  have acks : rb.acks = packet.ack?.toList ++ acksOf (ba' ++ qb) := by
    rw [peer.acks, acksOf, List.cons_append, List.filterMap_cons]
    cases packet.ack? <;> rfl
  have data : sb.data = packet.data?.toList ++ dataOf ba' := by
    rw [peer.data, dataOf, List.filterMap_cons]
    cases packet.data? <;> rfl
  rw [← acks, ← data]
  exact side

theorem Side.shift {out' queue : List Packet} {s : Sender Chunk} {r peerR' : Receiver Chunk}
    {peerS' : Sender Chunk} {alive : Prop} {c : Core}
    (side : Side before out peerR peerS alive c s r queue)
    (flowOut : Flow lapmMaxWinSize { s with data := dataOf out' } peerR')
    (flowIn : Flow lapmMaxWinSize peerS' { r with acks := acksOf (out' ++ queue) }) :
    Side before out' peerR' peerS' alive c { s with data := dataOf out' }
      { r with acks := acksOf (out' ++ queue) } queue :=
  { side with
    flowOut := flowOut
    flowIn := flowIn
    data := rfl
    acks := rfl
    rep := fun isOpen => { side.rep isOpen with } }

/-! ### The timer expires -/

theorem SideAt.t401Exhausted (side : SideAt track before out peerR peerS (Open m) m) :
    SideAt track before out peerR peerS (Open m.t401Exhausted) m.t401Exhausted ∧
      m.t401Exhausted.lapm.state ≠ .estab := by
  have counted : SideAt track before out peerR peerS (Open m)
      { m with lapm := { m.lapm with rtxCount := 0 } } := side.of_core rfl
  unfold Modem.t401Exhausted
  simp only
  generalize countedEq : { m with lapm := { m.lapm with rtxCount := 0 } } = m' at counted
  have same : m'.lapm.state = m.lapm.state := by rw [← countedEq]
  rw [← same]
  have dead : SideAt track before out peerR peerS False m' := counted.weaken False.elim
  cases phase : m'.lapm.state with
  | idle => exact dead.of_closed phase
  | data =>
      have gone : m'.lapmDisconnect.lapm.state = .disc :=
        congrArg Clock.phase (Modem.clock_lapmDisconnect m')
      refine ⟨counted.lapmDisconnect.weaken fun _ => same.symm.trans phase, ?_⟩
      intro estab
      rw [estab] at gone
      cases gone
  | estab | disc =>
      apply SideAt.of_closed
      · exact (dead.setPhase .idle).of_core (quiet_release _).core
      · simp only [(quiet_release _).lapm]
        rfl

theorem SideAt.t401Resend (side : SideAt track before out peerR peerS (Open m) m)
    (calm : track.quiet → m.lapm.state ≠ .estab) :
    SideAt track before out peerR peerS (Open m) m.t401Resend := by
  unfold Modem.t401Resend
  split
  · exact side.txXid _
  · cases phase : m.lapm.state with
    | idle => exact side
    | estab => exact side.txUnnum _ _ (by decide) (fun quiet => absurd phase (calm quiet))
    | data => exact ((side.live phase).txReady _ (Or.inr rfl)).of_live
    | disc => exact side.txUnnum _ _ (by decide) (fun _ => by decide)

theorem SideAt.t401Timeout (side : SideAt track before out peerR peerS (Open m) m)
    (calm : track.quiet → m.lapm.state ≠ .estab) :
    SideAt track before out peerR peerS (Open m.t401Timeout) m.t401Timeout ∧
      (m.t401Timeout.lapm.state = .estab → m.lapm.state = .estab) := by
  unfold Modem.t401Timeout
  split
  · exact ⟨side.t401Exhausted.1, fun estab => absurd estab side.t401Exhausted.2⟩
  · have counted : SideAt track before out peerR peerS (Open m)
        { m with lapm := { m.lapm with rtxCount := m.lapm.rtxCount + 1 } } := side.of_core rfl
    simp only
    generalize countedEq :
      { m with lapm := { m.lapm with rtxCount := m.lapm.rtxCount + 1 } } = m' at counted
    have same : m'.lapm.state = m.lapm.state := by rw [← countedEq]
    have openEq : Open m' = Open m := by rw [Open, Open, same]
    rw [← openEq] at counted
    rw [← same] at calm
    constructor
    · apply ((counted.t401Resend calm).of_core rfl).weaken
      intro isOpen
      exact (Modem.phase_t401Resend m').symm.trans isOpen
    · rw [Modem.phase_t401Resend, same]
      exact id

end Arrival

/-! ### The joint invariant -/

structure Joined (p : Pair) (ab ba : List Packet) (sa : Sender Chunk) (ra : Receiver Chunk)
    (qa : List Packet) (sb : Sender Chunk) (rb : Receiver Chunk) (qb : List Packet) : Prop where
  sideA : Side [] ab rb sb (Open p.a) (core p.a) sa ra qa
  sideB : Side [] ba ra sa (Open p.b) (core p.b) sb rb qb
  framesAB : List.Forall₂ Encodes ab p.ab
  framesBA : List.Forall₂ Encodes ba p.ba
  plainAB : ∀ packet ∈ ab, Plain packet
  plainBA : ∀ packet ∈ ba, Plain packet
  unestabA : p.a.lapm.state ≠ .estab
  unestabB : p.b.lapm.state ≠ .estab

def Pair.Inv (p : Pair) : Prop :=
  ∃ ab ba sa ra qa sb rb qb, Joined p ab ba sa ra qa sb rb qb

theorem Pair.Inv.swap {p : Pair} (inv : p.Inv) : p.swap.Inv := by
  rcases inv with ⟨ab, ba, sa, ra, qa, sb, rb, qb, joined⟩
  exact ⟨ba, ab, sb, rb, qb, sa, ra, qa,
    { sideA := joined.sideB
      sideB := joined.sideA
      framesAB := joined.framesBA
      framesBA := joined.framesAB
      plainAB := joined.plainBA
      plainBA := joined.plainAB
      unestabA := joined.unestabB
      unestabB := joined.unestabA }⟩

section Step

variable {p : Pair} {ab ba : List Packet} {sa sb : Sender Chunk} {ra rb : Receiver Chunk}
  {qa qb : List Packet}

/-- Only `a` has changed. -/
theorem Joined.of_side (joined : Joined p ab ba sa ra qa sb rb qb) (a' : Modem)
    (side : SideOf [] ab rb sb (Open a') a') (unestab : a'.lapm.state ≠ .estab) :
    Pair.Inv { p with a := a' } := by
  rcases side with ⟨sa', ra', qa', side⟩
  exact ⟨ab, ba, sa', ra', qa', sb, rb, qb,
    { joined with
      sideA := side
      sideB := { joined.sideB with flowOut := side.flowIn, flowIn := side.flowOut }
      unestabA := unestab }⟩

theorem Joined.sideAt (joined : Joined p ab ba sa ra qa sb rb qb) :
    SideAt { top := sa.top, vr := ra.vr, quiet := False } [] ab rb sb (Open p.a) p.a :=
  ⟨sa, ra, qa, joined.sideA, rfl, rfl, False.elim⟩

theorem plain_of_encodes {packet : Packet} {bytes : List UInt8} (encodes : Encodes packet bytes)
    (harmless : ¬ Resets bytes) : Plain packet := by
  intro other same
  subst same
  cases encodes with
  | unnum _ kind => exact harmless

theorem Joined.fetch (joined : Joined p ab ba sa ra qa sb rb qb) (chars : Chars)
    (plain : ∀ bytes, (p.a.lapmGetTxFrame chars).2 = some bytes → ¬ Resets bytes) :
    (p.stepA (.fetch chars)).Inv := by
  have fetched := joined.sideAt.getTxFrame id chars
  have phase := Modem.phase_getTxFrame p.a chars
  have unestab : (p.a.lapmGetTxFrame chars).1.lapm.state ≠ .estab := by
    rw [phase]
    exact joined.unestabA
  have openEq : Open (p.a.lapmGetTxFrame chars).1 = Open p.a := by
    unfold Open
    rw [phase]
  simp only [Pair.stepA]
  cases sent : (p.a.lapmGetTxFrame chars).2 with
  | none =>
      have after := joined.of_side (p.a.lapmGetTxFrame chars).1
        (openEq ▸ (fetched.1 sent).sideOf) unestab
      simpa using after
  | some bytes =>
      rcases fetched.2 bytes sent with ⟨packet, encodes, _, sa', ra', qa', side, _⟩
      rw [← openEq] at side
      refine ⟨ab ++ [packet], ba, sa', ra', qa', sb, rb, qb,
        { joined with
          sideA := side
          sideB := { joined.sideB with flowOut := side.flowIn, flowIn := side.flowOut }
          framesAB := List.rel_append joined.framesAB (.cons encodes .nil)
          plainAB := ?_
          unestabA := unestab }⟩
      intro other member
      rcases List.mem_append.mp member with old | new
      · exact joined.plainAB other old
      · rw [List.mem_singleton] at new
        rw [new]
        exact plain_of_encodes encodes (plain bytes sent)

theorem Joined.deliver (joined : Joined p ab ba sa ra qa sb rb qb) (chars : Chars) :
    (p.stepA (.deliver chars)).Inv := by
  have frames := joined.framesBA
  unfold Pair.stepA
  cases onWay : p.ba with
  | nil => exact ⟨ab, ba, sa, ra, qa, sb, rb, qb, joined⟩
  | cons bytes rest =>
      rw [onWay] at frames
      cases frames with
      | cons encodes later =>
          rename_i packet ba'
          rcases (joined.sideAt.front joined.sideB).rxComplete encodes
            (joined.plainBA packet List.mem_cons_self) joined.unestabA chars with
            ⟨⟨sa', ra', qa', after⟩, unestab⟩
          refine ⟨ab, ba', sa', ra', qa', { sb with data := dataOf ba' },
            { rb with acks := acksOf (ba' ++ qb) }, qb,
            { sideA := after
              sideB := joined.sideB.shift after.flowIn after.flowOut
              framesAB := joined.framesAB
              framesBA := later
              plainAB := joined.plainAB
              plainBA := ?_
              unestabA := unestab
              unestabB := joined.unestabB }⟩
          intro other member
          exact joined.plainBA other (List.mem_cons_of_mem packet member)

theorem forall₂_eraseIdx {packets : List Packet} {frames : List (List UInt8)}
    (encodes : List.Forall₂ Encodes packets frames) (index : Nat) :
    List.Forall₂ Encodes (packets.eraseIdx index) (frames.eraseIdx index) := by
  induction encodes generalizing index with
  | nil => exact .nil
  | cons first later ih =>
      cases index with
      | zero => exact later
      | succ index => exact .cons first (ih index)

theorem Joined.lose (joined : Joined p ab ba sa ra qa sb rb qb) (index : Nat) :
    (p.stepA (.lose index)).Inv := by
  have fewer := List.eraseIdx_sublist ba index
  have flowOut := joined.sideB.flowOut
  have flowIn := joined.sideB.flowIn
  have fewerData : List.Sublist (dataOf (ba.eraseIdx index)) sb.data := by
    rw [joined.sideB.data]
    exact fewer.filterMap _
  have fewerAcks : List.Sublist (acksOf (ba.eraseIdx index ++ qb)) rb.acks := by
    rw [joined.sideB.acks]
    exact (fewer.append_right qb).filterMap _
  have lostData := flowOut.lose fewerData (List.Sublist.refl _)
  have lostAcks := flowIn.lose (List.Sublist.refl _) fewerAcks
  refine ⟨ab, ba.eraseIdx index, sa, ra, qa, { sb with data := dataOf (ba.eraseIdx index) },
    { rb with acks := acksOf (ba.eraseIdx index ++ qb) }, qb,
    { joined with
      sideA := { joined.sideA with flowOut := lostAcks, flowIn := lostData }
      sideB := joined.sideB.shift lostData lostAcks
      framesBA := forall₂_eraseIdx joined.framesBA index
      plainBA := ?_ }⟩
  intro packet member
  exact joined.plainBA packet (fewer.subset member)

theorem Joined.timeout (joined : Joined p ab ba sa ra qa sb rb qb) :
    (p.stepA .timeout).Inv := by
  have expired := SideAt.t401Timeout (m := { p.a with bitTimer := 0 })
    (joined.sideAt.of_core rfl) False.elim
  exact joined.of_side _ expired.1.sideOf fun estab => joined.unestabA (expired.2 estab)

theorem Joined.push (joined : Joined p ab ba sa ra qa sb rb qb) (chars : Chars) :
    (p.stepA (.push chars)).Inv := by
  have phase := Modem.phase_pushRestData p.a chars
  have openEq : Open (p.a.pushRestData chars) = Open p.a := by
    unfold Open
    rw [phase]
  apply joined.of_side
  · rw [openEq]
    exact (joined.sideAt.pushRestData id chars).sideOf
  · rw [phase]
    exact joined.unestabA

end Step

theorem Pair.Inv.stepA {p : Pair} (inv : p.Inv) (event : Event)
    (plain : ∀ bytes, p.fetched event = some bytes → ¬ Resets bytes) : (p.stepA event).Inv := by
  rcases inv with ⟨ab, ba, sa, ra, qa, sb, rb, qb, joined⟩
  cases event with
  | fetch chars => exact joined.fetch chars plain
  | deliver chars => exact joined.deliver chars
  | lose index => exact joined.lose index
  | timeout => exact joined.timeout
  | push chars => exact joined.push chars

theorem Pair.Inv.step {p : Pair} (inv : p.Inv) (move : Move)
    (plain : ∀ bytes, p.sent move = some bytes → ¬ Resets bytes) : (p.step move).Inv := by
  cases move with
  | a event => exact inv.stepA event plain
  | b event => exact (inv.swap.stepA event plain).swap

theorem Pair.Inv.run {p : Pair} (inv : p.Inv) (moves : List Move) (plain : p.DataPhase moves) :
    (p.run moves).Inv := by
  induction moves generalizing p with
  | nil => exact inv
  | cons move rest ih => exact ih (inv.step move plain.1) plain.2

theorem Pair.Inv.delivered {p : Pair} (inv : p.Inv) :
    delivered p.b <+: p.a.taken.flatten := by
  rcases inv with ⟨ab, ba, sa, ra, qa, sb, rb, qb, joined⟩
  have terminal : Lapm.delivered p.b ++ (core p.b).rest = rb.received.flatten :=
    joined.sideB.terminal
  have taken : p.a.taken = [] ++ sa.items := joined.sideA.taken
  have ordered := joined.sideA.flowOut.inOrder
  rw [taken, List.nil_append]
  calc Lapm.delivered p.b
    _ <+: rb.received.flatten := by rw [← terminal]; exact List.prefix_append _ _
    _ <+: sa.items.flatten := by
        rw [← List.take_append_drop rb.vr sa.items, List.flatten_append, ← ordered]
        exact List.prefix_append _ _

/-! ### Runs from a reset -/

/-- An end that was just reset into the data phase.  The window is the one that
`modem_create` sets; negotiation does not change it. -/
structure JustReset (m : Modem) : Prop where
  phase : m.lapm.state = .data
  vs : m.lapm.vs = 0
  va : m.lapm.va = 0
  vr : m.lapm.vr = 0
  window : m.lapm.txWinSize = lapmMaxWinSize
  listLt : m.lapm.infoList < lapmInfoFrames
  sentInfo : m.lapm.sentInfo = m.lapm.infoList
  txInfo : m.lapm.txInfo = m.lapm.infoList
  txCtrlLt : m.lapm.txCtrl < lapmCtrlFrames
  ctrlListLt : m.lapm.ctrlList < lapmCtrlFrames
  /-- An answer to the frame that caused the reset may still wait. -/
  queued : ∀ bytes ∈ (core m).queue, bytes.getD 1 0 &&& 0x3 = 0x3
  rxCount : m.lapm.rxCount = 0
  taken : m.taken = []
  delivered : delivered m = []

theorem JustReset.sideOf {m : Modem} (fresh : JustReset m) :
    ∃ queue, Side [] [] { vr := 0, received := [], acks := [] }
      { items := [], va := 0, vs := 0, top := 0, data := [] } (Open m) (core m)
      { items := [], va := 0, vs := 0, top := 0, data := [] }
      { vr := 0, received := [], acks := [] } queue := by
  have rxCount : (core m).rxCount = 0 := fresh.rxCount
  have restNil : (core m).rest = [] := by
    rw [Core.rest, rxCount]
    rfl
  refine ⟨(core m).queue.map .unnum, ?_⟩
  constructor
  · exact Flow.start _
  · exact Flow.start _
  · rfl
  · simp [acksOf, Packet.ack?]
  · exact fresh.txCtrlLt
  · exact fresh.ctrlListLt
  · rw [List.forall₂_map_left_iff, List.forall₂_same]
    intro bytes member
    exact .unnum bytes (fresh.queued bytes member)
  · intro packet member
    rcases List.mem_map.mp member with ⟨bytes, _, same⟩
    rw [← same]
    rfl
  · exact fresh.taken
  · rw [restNil, rxCount]
    rfl
  · rw [restNil]
    exact congrArg (· ++ []) fresh.delivered
  · intro _
    constructor
    · exact fresh.va
    · exact fresh.vs
    · exact fresh.vr
    · exact fresh.window
    · exact fresh.sentInfo.trans_lt fresh.listLt
    · exact fresh.listLt
    · change m.lapm.txInfo = (m.lapm.sentInfo + 0) % lapmInfoFrames
      rw [fresh.txInfo, fresh.sentInfo, Nat.add_zero, Nat.mod_eq_of_lt fresh.listLt]
    · change ringItems lapmInfoFrames _ m.lapm.sentInfo m.lapm.infoList = _
      rw [fresh.sentInfo]
      exact ringItems_empty fresh.listLt
    · intro some
      exact absurd rxCount some

/-- Both ends just reset, and nothing on the way. -/
structure Pair.Fresh (p : Pair) : Prop where
  a : JustReset p.a
  b : JustReset p.b
  ab : p.ab = []
  ba : p.ba = []

theorem Pair.Fresh.inv {p : Pair} (fresh : p.Fresh) : p.Inv := by
  rcases fresh.a.sideOf with ⟨qa, sideA⟩
  rcases fresh.b.sideOf with ⟨qb, sideB⟩
  refine ⟨[], [], _, _, qa, _, _, qb,
    { sideA := sideA
      sideB := sideB
      framesAB := by rw [fresh.ab]; exact .nil
      framesBA := by rw [fresh.ba]; exact .nil
      plainAB := by simp
      plainBA := by simp
      unestabA := by rw [fresh.a.phase]; decide
      unestabB := by rw [fresh.b.phase]; decide }⟩

/-- In every run without SABME, DISC, DM and XID, what one terminal got is a
beginning of what the other gave. -/
theorem delivered_prefix_taken (p : Pair) (fresh : p.Fresh) (moves : List Move)
    (plain : p.DataPhase moves) :
    delivered (p.run moves).b <+: (p.run moves).a.taken.flatten ∧
      delivered (p.run moves).a <+: (p.run moves).b.taken.flatten := by
  have inv := fresh.inv.run moves plain
  exact ⟨inv.delivered, inv.swap.delivered⟩

def linkedEnd (caller : Bool) : Modem :=
  ((Modem.lapmInit { Modem.modemCreate with caller := caller }).setPhase .data).modemSetState
    .modemOnline

theorem linkedEnd_justReset (caller : Bool) : JustReset (linkedEnd caller) := by
  have queueEq : (core (linkedEnd caller)).queue = [] := by
    cases caller <;> rfl
  constructor
  case queued =>
      rw [queueEq]
      simp
  all_goals cases caller <;> decide

/-- One frame with two characters, of which the terminal takes the first. -/
theorem delivered_prefix_taken_of_one_frame :
    let p : Pair := { a := linkedEnd true, b := linkedEnd false, ab := [], ba := [] }
    let moves : List Move :=
      [.a (.fetch { get := some [104, 105], accept := 0, fails := false }),
        .b (.deliver { get := some [], accept := 1, fails := false })]
    delivered (p.run moves).b = [104] ∧
      delivered (p.run moves).b <+: (p.run moves).a.taken.flatten := by
  refine ⟨by decide, (delivered_prefix_taken _ ?_ _ ?_).1⟩
  · exact
      { a := linkedEnd_justReset true
        b := linkedEnd_justReset false
        ab := rfl
        ba := rfl }
  · refine ⟨?_, ?_, trivial⟩
    · intro bytes sent
      have bytesEq : bytes = [3, 0, 0, 104, 105] := (Option.some.inj sent).symm
      rw [bytesEq]
      rintro ⟨type, _⟩
      exact absurd type (by decide)
    · intro bytes sent
      cases sent

end DModem.Lapm
