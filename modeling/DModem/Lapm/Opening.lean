/-
The set-up of a link between the modem that calls and the modem that answers.

The run begins before XID.  Frames may be lost, T401 may expire at any time and either end
may stop.  As long as no SABME reaches an end that has already read from its terminal, the
numbers of the two ends agree and no data is lost, repeated or out of order.
-/

import DModem.Lapm.Establish

namespace DModem.Lapm

open DModem.Lib

/-! ### Two ends that set up a link -/

/-- `sentA` counts the information frames that `a` has numbered, repeats not counted. -/
structure Link where
  pair : Pair
  sentA : Nat
  sentB : Nat

def Link.swap (l : Link) : Link := { pair := l.pair.swap, sentA := l.sentB, sentB := l.sentA }

/-- What can happen at an end: what happens in the data phase too, and `modem_ec_stop`. -/
inductive LinkEvent where
  | event (event : Event)
  | stop

/-- A frame that `m` hands out is a new information frame if it has the number `count`. -/
def countInfo (m : Modem) (count : Nat) (bytes : List UInt8) : Nat :=
  if Frame.type (frameOf bytes) = Modem.frameI ∧ m.lapm.vs = count % 128 then count + 1 else count

def Link.stepA (l : Link) : LinkEvent → Link
  | .event event =>
      { l with
        pair := l.pair.stepA event
        sentA := (l.pair.fetched event).elim l.sentA (countInfo l.pair.a l.sentA) }
  | .stop => { l with pair := { l.pair with a := l.pair.a.modemEcStop } }

inductive LinkMove where
  | a (event : LinkEvent)
  | b (event : LinkEvent)

def Link.step (l : Link) : LinkMove → Link
  | .a event => l.stepA event
  | .b event => (l.swap.stepA event).swap

def Link.run (l : Link) : List LinkMove → Link
  | [] => l
  | move :: rest => (l.step move).run rest

/-- `modem_start` for a call with error correction; the logs begin with it. -/
def opened (caller : Bool) (m : Modem) : Modem :=
  (Modem.modemSetupConfig { m with caller := caller, out := [], taken := [] }).lapmInit

/-- The caller has begun to negotiate; `modem_ec_start` has it do so once. -/
def Link.start (caller answerer : Modem) : Link :=
  { pair :=
      { a := (opened true caller).modemEcNegotiate
        b := opened false answerer
        ab := []
        ba := [] }
    sentA := 0
    sentB := 0 }

def AsksLink (bytes : List UInt8) : Prop :=
  Frame.type (frameOf bytes) = Modem.frameU ∧
    Frame.ctrl (frameOf bytes) &&& 0xef = Modem.frameUSabme

/-- A SABME does not come to `b` after it has read from its terminal. -/
def Link.InTime (l : Link) : LinkMove → Prop
  | .b (.event (.deliver _)) => ∀ bytes ∈ l.pair.ab.head?, AsksLink bytes → l.pair.b.taken = []
  | _ => True

def Link.AlwaysInTime (l : Link) : List LinkMove → Prop
  | [] => True
  | move :: rest => l.InTime move ∧ (l.step move).AlwaysInTime rest

/-- `n` lies in the interval from `low` to `high` modulo 128. -/
def Between (low n high : Nat) : Prop := seqSub n low ≤ seqSub high low

/-- `b` is where `a` has got with its numbers: the number that `b` expects and V(S) lie between
V(A) and the next number that was never given, `a` still holds all that it has not seen
acknowledged, and `b` has all that comes before the number that it expects. -/
def Synchronised (a b : Modem) (sent : Nat) : Prop :=
  Between a.lapm.va b.lapm.vr (sent % 128) ∧ Between a.lapm.va a.lapm.vs (sent % 128) ∧
    ∃ acked expected, acked ≤ expected ∧ expected ≤ sent ∧
      a.lapm.va = acked % 128 ∧ b.lapm.vr = expected % 128 ∧
      ringItems lapmInfoFrames (core a).info a.lapm.sentInfo a.lapm.infoList =
        a.taken.drop acked ∧
      delivered b ++ (core b).rest = (a.taken.take expected).flatten

/-! ### SABME on the way -/

/-- What holds of `out`, on the way from an end, and `queue`, that waits there: data never
goes before a SABME, and until the last SABME has arrived nothing was received. -/
structure Asks (calls : Prop) (out queue : List Packet) (received : Nat) : Prop where
  calling : (∃ packet ∈ out ++ queue, packet.Sabme) → calls
  first : out.Pairwise fun earlier later => later.Sabme → earlier.data? = none
  waiting : (∃ packet ∈ queue, packet.Sabme) → dataOf out = []
  awaited : (∃ packet ∈ out ++ queue, packet.Sabme) → received = 0

section Asks

variable {calls : Prop} {out queue queue' : List Packet} {received : Nat}

theorem Asks.unsent (quiet : ∀ packet ∈ queue, ¬ packet.Sabme) : Asks calls [] queue received := by
  have nothing : ∀ claim : Prop, (∃ packet ∈ queue, packet.Sabme) → claim := by
    rintro claim ⟨packet, member, sabme⟩
    exact absurd sabme (quiet packet member)
  exact
    { calling := nothing calls
      first := .nil
      waiting := nothing _
      awaited := nothing _ }

theorem data_none_of_dataOf {packet : Packet} (empty : dataOf out = []) (member : packet ∈ out) :
    packet.data? = none := by
  unfold dataOf at empty
  exact List.filterMap_eq_nil_iff.mp empty packet member

theorem Asks.requeue (asks : Asks calls out queue received)
    (same : (∃ packet ∈ queue', packet.Sabme) →
      (∃ packet ∈ queue, packet.Sabme) ∨ (calls ∧ dataOf out = [] ∧ received = 0)) :
    Asks calls out queue' received := by
  have either : (∃ packet ∈ out ++ queue', packet.Sabme) →
      (∃ packet ∈ out ++ queue, packet.Sabme) ∨ (calls ∧ dataOf out = [] ∧ received = 0) := by
    rintro ⟨packet, member, sabme⟩
    rcases List.mem_append.mp member with onWay | waits
    · exact Or.inl ⟨packet, List.mem_append_left _ onWay, sabme⟩
    · rcases same ⟨packet, waits, sabme⟩ with ⟨other, old, sabme'⟩ | free
      · exact Or.inl ⟨other, List.mem_append_right _ old, sabme'⟩
      · exact Or.inr free
  constructor
  · intro some
    rcases either some with old | free
    · exact asks.calling old
    · exact free.1
  · exact asks.first
  · intro some
    rcases same some with old | free
    · exact asks.waiting old
    · exact free.2.1
  · intro some
    rcases either some with old | free
    · exact asks.awaited old
    · exact free.2.2

theorem Asks.arrive {packet : Packet} {received' : Nat}
    (asks : Asks calls (packet :: out) queue received)
    (counted : received' = received ∨ packet.data? ≠ none) : Asks calls out queue received' := by
  have more : (∃ other ∈ out ++ queue, other.Sabme) →
      ∃ other ∈ packet :: out ++ queue, other.Sabme := by
    rintro ⟨other, member, sabme⟩
    exact ⟨other, List.mem_cons_of_mem packet member, sabme⟩
  have ordered := List.pairwise_cons.mp asks.first
  constructor
  · exact fun some => asks.calling (more some)
  · exact ordered.2
  · intro some
    have empty := asks.waiting some
    exact List.filterMap_eq_nil_iff.mpr fun other member =>
      data_none_of_dataOf empty (List.mem_cons_of_mem packet member)
  · intro some
    have old := asks.awaited (more some)
    rcases counted with same | data
    · exact same.trans old
    · rcases some with ⟨other, member, sabme⟩
      rcases List.mem_append.mp member with onWay | waits
      · exact absurd (ordered.1 other onWay sabme) data
      · exact absurd (data_none_of_dataOf (asks.waiting ⟨other, waits, sabme⟩)
          List.mem_cons_self) data

theorem Asks.lose {out' : List Packet} (asks : Asks calls out queue received)
    (fewer : out'.Sublist out) : Asks calls out' queue received := by
  have more : (∃ packet ∈ out' ++ queue, packet.Sabme) →
      ∃ packet ∈ out ++ queue, packet.Sabme := by
    rintro ⟨packet, member, sabme⟩
    exact ⟨packet, (fewer.append_right queue).subset member, sabme⟩
  constructor
  · exact fun some => asks.calling (more some)
  · exact asks.first.sublist fewer
  · intro some
    have empty := asks.waiting some
    exact List.filterMap_eq_nil_iff.mpr fun packet member =>
      data_none_of_dataOf empty (fewer.subset member)
  · exact fun some => asks.awaited (more some)

theorem Asks.sendOther {packet : Packet} (asks : Asks calls out queue received)
    (other : ¬ packet.Sabme) (quiet : ∀ waits ∈ queue', ¬ waits.Sabme) :
    Asks calls (out ++ [packet]) queue' received := by
  have old : (∃ onWay ∈ out ++ [packet] ++ queue', onWay.Sabme) →
      ∃ onWay ∈ out ++ queue, onWay.Sabme := by
    rintro ⟨onWay, member, sabme⟩
    rcases List.mem_append.mp member with sent | waits
    · rcases List.mem_append.mp sent with before | new
      · exact ⟨onWay, List.mem_append_left _ before, sabme⟩
      · rw [List.mem_singleton] at new
        rw [new] at sabme
        exact absurd sabme other
    · exact absurd sabme (quiet onWay waits)
  constructor
  · exact fun some => asks.calling (old some)
  · rw [List.pairwise_append]
    refine ⟨asks.first, List.pairwise_singleton _ _, ?_⟩
    intro earlier _ later new sabme
    rw [List.mem_singleton] at new
    rw [new] at sabme
    exact absurd sabme other
  · rintro ⟨waits, member, sabme⟩
    exact absurd sabme (quiet waits member)
  · exact fun some => asks.awaited (old some)

theorem Asks.sendFree {packet : Packet} (free : calls ∧ dataOf out = [] ∧ received = 0)
    (noData : packet.data? = none) : Asks calls (out ++ [packet]) queue' received := by
  have empty : dataOf (out ++ [packet]) = [] := by
    rw [dataOf_append, free.2.1]
    simp [dataOf, noData]
  constructor
  · exact fun _ => free.1
  · rw [List.pairwise_iff_forall_sublist]
    intro earlier later sub _
    exact data_none_of_dataOf empty (sub.subset List.mem_cons_self)
  · exact fun _ => empty
  · exact fun _ => free.2.2

end Asks

/-! ### The joint invariant -/

structure Linking (callsA callsB : Prop) (l : Link) (ab ba : List Packet) (sa : Sender Chunk)
    (ra : Lib.Receiver Chunk) (qa : List Packet) (sb : Sender Chunk) (rb : Lib.Receiver Chunk)
    (qb : List Packet) : Prop where
  sideA : Side [] ab rb sb (Open l.pair.a) (core l.pair.a) sa ra qa
  sideB : Side [] ba ra sa (Open l.pair.b) (core l.pair.b) sb rb qb
  framesAB : List.Forall₂ Encodes ab l.pair.ab
  framesBA : List.Forall₂ Encodes ba l.pair.ba
  stageA : Stage callsA ra.vr l.pair.a
  stageB : Stage callsB rb.vr l.pair.b
  sentA : sa.top = l.sentA
  sentB : sb.top = l.sentB
  asksAB : Asks callsA ab qa rb.vr
  asksBA : Asks callsB ba qb ra.vr

def Link.Inv (callsA callsB : Prop) (l : Link) : Prop :=
  ∃ ab ba sa ra qa sb rb qb, Linking callsA callsB l ab ba sa ra qa sb rb qb

theorem Link.Inv.swap {callsA callsB : Prop} {l : Link} (inv : l.Inv callsA callsB) :
    l.swap.Inv callsB callsA := by
  rcases inv with ⟨ab, ba, sa, ra, qa, sb, rb, qb, linking⟩
  exact ⟨ba, ab, sb, rb, qb, sa, ra, qa,
    { sideA := linking.sideB
      sideB := linking.sideA
      framesAB := linking.framesBA
      framesBA := linking.framesAB
      stageA := linking.stageB
      stageB := linking.stageA
      sentA := linking.sentB
      sentB := linking.sentA
      asksAB := linking.asksBA
      asksBA := linking.asksAB }⟩

section Step

variable {callsA callsB : Prop} {l : Link} {ab ba : List Packet} {sa sb : Sender Chunk}
  {ra rb : Lib.Receiver Chunk} {qa qb : List Packet}

/-- No SABME waits at `a`, and it will not put one. -/
def Calm (qa : List Packet) (m : Modem) : Prop :=
  (∀ packet ∈ qa, ¬ packet.Sabme) ∧ ¬ Calling m

theorem Linking.sideAt (linking : Linking callsA callsB l ab ba sa ra qa sb rb qb) :
    SideAt { top := l.sentA, vr := ra.vr, quiet := Calm qa l.pair.a } [] ab rb sb
      (Open l.pair.a) l.pair.a :=
  ⟨sa, ra, qa, linking.sideA, linking.sentA, rfl, fun calm => calm.1⟩

theorem Linking.unused (linking : Linking callsA callsB l ab ba sa ra qa sb rb qb)
    (calling : Calling l.pair.a) : callsA ∧ dataOf ab = [] ∧ rb.vr = 0 := by
  have fresh := linking.stageA.unused calling
  have items : sa.items = [] := by
    have taken : l.pair.a.taken = [] ++ sa.items := linking.sideA.taken
    rw [fresh.2.1] at taken
    exact taken.symm
  have flow := linking.sideA.flowOut
  have filled := flow.filled
  have expected := flow.expected
  rw [items, List.length_nil] at filled
  refine ⟨fresh.1, ?_, by omega⟩
  rw [← linking.sideA.data]
  apply List.eq_nil_iff_forall_not_mem.mpr
  intro item member
  have high := flow.dataHigh item member
  omega

/-- Either nothing at `a` asks for the link, or no data of `a` is on the way. -/
theorem Linking.calm_or (linking : Linking callsA callsB l ab ba sa ra qa sb rb qb) :
    Calm qa l.pair.a ∨ (callsA ∧ dataOf ab = [] ∧ rb.vr = 0) := by
  by_cases calling : Calling l.pair.a
  · exact Or.inr (linking.unused calling)
  · by_cases some : ∃ packet ∈ qa, packet.Sabme
    · rcases some with ⟨packet, member, sabme⟩
      have there : ∃ packet ∈ ab ++ qa, packet.Sabme :=
        ⟨packet, List.mem_append_right _ member, sabme⟩
      exact Or.inr ⟨linking.asksAB.calling there, linking.asksAB.waiting ⟨packet, member, sabme⟩,
        linking.asksAB.awaited there⟩
    · left
      refine ⟨?_, calling⟩
      intro packet member sabme
      exact some ⟨packet, member, sabme⟩

theorem Linking.requeue (linking : Linking callsA callsB l ab ba sa ra qa sb rb qb)
    {queue : List Packet} (quiet : Calm qa l.pair.a → ∀ packet ∈ queue, ¬ packet.Sabme) :
    Asks callsA ab queue rb.vr := by
  apply linking.asksAB.requeue
  rintro ⟨packet, member, sabme⟩
  rcases linking.calm_or with calm | free
  · exact absurd sabme (quiet calm packet member)
  · exact Or.inr free

/-- Only `a` has changed. -/
theorem Linking.of_side (linking : Linking callsA callsB l ab ba sa ra qa sb rb qb) (a' : Modem)
    (side : SideAt { top := l.sentA, vr := ra.vr, quiet := Calm qa l.pair.a } [] ab rb sb
      (Open a') a') (stage : Stage callsA ra.vr a') :
    Link.Inv callsA callsB { l with pair := { l.pair with a := a' } } := by
  rcases side with ⟨sa', ra', qa', side, top, vr, quiet⟩
  simp only at top vr quiet
  exact ⟨ab, ba, sa', ra', qa', sb, rb, qb,
    { linking with
      sideA := side
      sideB := { linking.sideB with flowOut := side.flowIn, flowIn := side.flowOut }
      stageA := by rw [vr]; exact stage
      sentA := top
      asksAB := linking.requeue quiet
      asksBA := by rw [vr]; exact linking.asksBA }⟩

/-! #### A frame is fetched -/

theorem type_of_data {packet : Packet} {bytes : List UInt8} (encodes : Encodes packet bytes) :
    Frame.type (frameOf bytes) = Modem.frameI ↔ packet.data? ≠ none := by
  cases encodes with
  | info addr seq chunk ack =>
      exact ⟨fun _ => Option.some_ne_none _, fun _ => info_type addr seq ack chunk⟩
  | super addr ctrl pf ack kind bit =>
      rw [super_type addr ctrl pf ack kind]
      exact ⟨fun same => absurd same (by decide), fun data => absurd rfl data⟩
  | unnum bytes kind =>
      rw [unnum_type kind]
      exact ⟨fun same => absurd same (by decide), fun data => absurd rfl data⟩

theorem calm_of_info (linking : Linking callsA callsB l ab ba sa ra qa sb rb qb) (chars : Chars)
    {bytes : List UInt8} (given : (l.pair.a.lapmGetTxFrame chars).2 = some bytes)
    (info : Frame.type (frameOf bytes) = Modem.frameI) : Calm qa l.pair.a := by
  have queued := linking.sideA.queued
  unfold Modem.lapmGetTxFrame at given
  simp only at given
  by_cases ctrl : l.pair.a.lapm.txCtrl ≠ l.pair.a.lapm.ctrlList
  · exfalso
    rw [if_pos ctrl] at given
    have popped := ringItems_pop l.pair.a.lapm.ctrlBuf linking.sideA.ctrlLt
      linking.sideA.ctrlListLt ctrl
    rw [show (core l.pair.a).queue = _ from popped] at queued
    cases queued with
    | cons encodes later =>
        rename_i packet queue
        have frame : Encodes packet bytes := by
          rw [← Option.some.inj given]
          exact encodes
        have data := (type_of_data frame).mp info
        exact data (linking.sideA.noData packet List.mem_cons_self)
  · rw [if_neg ctrl] at given
    rw [not_not] at ctrl
    have nothing : (core l.pair.a).queue = [] := by
      unfold Core.queue core
      simp only [← ctrl]
      exact ringItems_empty linking.sideA.ctrlLt
    rw [nothing] at queued
    cases queued
    refine ⟨by simp, ?_⟩
    by_cases shut : (l.pair.a.lapm.peerBusy || l.pair.a.lapm.config ||
        decide (l.pair.a.lapm.state ≠ .data)) = true
    · rw [if_pos shut] at given
      cases given
    · simp only [Bool.or_eq_true, decide_eq_true_eq, not_or, not_not] at shut
      rintro (negotiates | estab)
      · exact shut.1.2 negotiates
      · rw [shut.2] at estab
        cases estab

theorem Linking.fetch (linking : Linking callsA callsB l ab ba sa ra qa sb rb qb)
    (chars : Chars) : (l.stepA (.event (.fetch chars))).Inv callsA callsB := by
  have fetched := linking.sideAt.getTxFrame id chars
  have stage := linking.stageA.getTxFrame chars
  have openEq : Open (l.pair.a.lapmGetTxFrame chars).1 = Open l.pair.a := by
    unfold Open
    rw [Modem.phase_getTxFrame]
  simp only [Link.stepA, Pair.stepA, Pair.fetched]
  cases given : (l.pair.a.lapmGetTxFrame chars).2 with
  | none =>
      have after := linking.of_side _ (openEq ▸ fetched.1 given) stage
      simpa using after
  | some bytes =>
      rcases fetched.2 bytes given with
        ⟨packet, encodes, other, sa', ra', qa', side, top, vr, quiet⟩
      rw [← openEq] at side
      have same : ra'.vr = ra.vr := by
        rw [vr, Track.after]
        split <;> rfl
      have asks : Asks callsA (ab ++ [packet]) qa' rb.vr := by
        by_cases data : packet.data? = none
        · rcases linking.calm_or with calm | free
          · refine linking.asksAB.sendOther (other calm) (quiet ?_)
            rw [Track.after, if_pos data]
            exact calm
          · exact Asks.sendFree free data
        · have calm := calm_of_info linking chars given ((type_of_data encodes).mpr data)
          refine linking.asksAB.sendOther (other calm) (quiet ?_)
          rw [Track.after, if_neg data]
          exact calm
      refine ⟨ab ++ [packet], ba, sa', ra', qa', sb, rb, qb,
        { linking with
          sideA := side
          sideB := { linking.sideB with flowOut := side.flowIn, flowIn := side.flowOut }
          framesAB := List.rel_append linking.framesAB (.cons encodes .nil)
          stageA := by rw [same]; exact stage
          sentA := ?_
          asksAB := asks
          asksBA := by rw [same]; exact linking.asksBA }⟩
      rw [top, Track.after]
      simp only [Option.elim_some, countInfo, type_of_data encodes]
      by_cases data : packet.data? = none
      · simp [data]
      · simp [data, Track.sent]

/-! #### A frame arrives -/

theorem Linking.deliver (apart : ¬ (callsA ∧ callsB))
    (linking : Linking callsA callsB l ab ba sa ra qa sb rb qb) (chars : Chars)
    (inTime : callsB → ∀ bytes ∈ l.pair.ba.head?, AsksLink bytes → l.pair.a.taken = []) :
    (l.stepA (.event (.deliver chars))).Inv callsA callsB := by
  have frames := linking.framesBA
  simp only [Link.stepA, Pair.stepA, Pair.fetched, Option.elim_none]
  cases onWay : l.pair.ba with
  | nil => exact ⟨ab, ba, sa, ra, qa, sb, rb, qb, linking⟩
  | cons bytes rest =>
      rw [onWay] at frames
      rw [onWay, List.head?_cons] at inTime
      cases frames with
      | cons encodes later =>
          rename_i packet ba'
          have arrives := linking.sideAt.front linking.sideB
          have result : ∃ vr, (vr = ra.vr ∨ packet.data? ≠ none) ∧
              SideAt { top := l.sentA, vr := vr, quiet := Calm qa l.pair.a } [] ab
                { rb with acks := acksOf (ba' ++ qb) } { sb with data := dataOf ba' }
                (Open (l.pair.a.lapmRxComplete (frameOf bytes) chars))
                (l.pair.a.lapmRxComplete (frameOf bytes) chars) ∧
              Stage callsA vr (l.pair.a.lapmRxComplete (frameOf bytes) chars) := by
            by_cases numbered : packet.ack? = none
            · cases encodes with
              | info | super => exact absurd numbered (Option.some_ne_none _)
              | unnum bytes kind =>
                  refine ⟨ra.vr, Or.inl rfl, ?_⟩
                  apply SideAt.rxUnnumbered arrives linking.stageA kind
                  · intro sabme
                    have there : ∃ packet ∈ (Packet.unnum bytes) :: ba' ++ qb, packet.Sabme :=
                      ⟨_, List.mem_cons_self, sabme⟩
                    have asks := linking.asksBA.calling there
                    refine ⟨fun calls => apart ⟨calls, asks⟩, ?_, linking.asksBA.awaited there⟩
                    exact inTime asks bytes rfl ⟨unnum_type kind, sabme⟩
                  · exact fun calm => calm.2
            · exact arrives.rxNumbered linking.stageA encodes numbered chars
          rcases result with ⟨vr, counted, ⟨sa', ra', qa', after, top, vrEq, quiet⟩, stage⟩
          simp only at top vrEq quiet
          exact ⟨ab, ba', sa', ra', qa', { sb with data := dataOf ba' },
            { rb with acks := acksOf (ba' ++ qb) }, qb,
            { sideA := after
              sideB := linking.sideB.shift after.flowIn after.flowOut
              framesAB := linking.framesAB
              framesBA := later
              stageA := by rw [vrEq]; exact stage
              stageB := linking.stageB
              sentA := top
              sentB := linking.sentB
              asksAB := linking.requeue quiet
              asksBA := by rw [vrEq]; exact linking.asksBA.arrive counted }⟩

theorem Linking.lose (linking : Linking callsA callsB l ab ba sa ra qa sb rb qb) (index : Nat) :
    (l.stepA (.event (.lose index))).Inv callsA callsB := by
  have fewer := List.eraseIdx_sublist ba index
  have flowOut := linking.sideB.flowOut
  have flowIn := linking.sideB.flowIn
  have fewerData : List.Sublist (dataOf (ba.eraseIdx index)) sb.data := by
    rw [linking.sideB.data]
    exact fewer.filterMap _
  have fewerAcks : List.Sublist (acksOf (ba.eraseIdx index ++ qb)) rb.acks := by
    rw [linking.sideB.acks]
    exact (fewer.append_right qb).filterMap _
  have lostData := flowOut.lose fewerData (List.Sublist.refl _)
  have lostAcks := flowIn.lose (List.Sublist.refl _) fewerAcks
  exact ⟨ab, ba.eraseIdx index, sa, ra, qa, { sb with data := dataOf (ba.eraseIdx index) },
    { rb with acks := acksOf (ba.eraseIdx index ++ qb) }, qb,
    { linking with
      sideA := { linking.sideA with flowOut := lostAcks, flowIn := lostData }
      sideB := linking.sideB.shift lostData lostAcks
      framesBA := forall₂_eraseIdx linking.framesBA index
      asksBA := linking.asksBA.lose fewer }⟩

theorem Linking.timeout (linking : Linking callsA callsB l ab ba sa ra qa sb rb qb) :
    (l.stepA (.event .timeout)).Inv callsA callsB := by
  have expired := SideAt.t401Timeout (m := { l.pair.a with bitTimer := 0 })
    (linking.sideAt.of_core rfl) (fun calm estab => calm.2 (Or.inr estab))
  have stage : Stage callsA ra.vr { l.pair.a with bitTimer := 0 } :=
    linking.stageA.leave { linking.stageA.numbered with } (Or.inl rfl) rfl rfl
  exact linking.of_side _ expired.1 stage.t401Timeout

theorem Linking.push (linking : Linking callsA callsB l ab ba sa ra qa sb rb qb)
    (chars : Chars) : (l.stepA (.event (.push chars))).Inv callsA callsB := by
  have openEq : Open (l.pair.a.pushRestData chars) = Open l.pair.a := by
    unfold Open
    rw [Modem.phase_pushRestData]
  apply linking.of_side _ _ (linking.stageA.pushRestData chars)
  rw [openEq]
  exact linking.sideAt.pushRestData id chars

theorem Linking.stop (linking : Linking callsA callsB l ab ba sa ra qa sb rb qb) :
    (l.stepA .stop).Inv callsA callsB :=
  linking.of_side _ linking.sideAt.modemEcStop linking.stageA.modemEcStop

end Step

section Run

variable {callsA callsB : Prop} {l : Link}

theorem Link.Inv.stepA (inv : l.Inv callsA callsB) (apart : ¬ (callsA ∧ callsB))
    (event : LinkEvent)
    (inTime : ∀ chars, event = .event (.deliver chars) → callsB →
      ∀ bytes ∈ l.pair.ba.head?, AsksLink bytes → l.pair.a.taken = []) :
    (l.stepA event).Inv callsA callsB := by
  rcases inv with ⟨ab, ba, sa, ra, qa, sb, rb, qb, linking⟩
  cases event with
  | stop => exact linking.stop
  | event event =>
      cases event with
      | fetch chars => exact linking.fetch chars
      | deliver chars => exact linking.deliver apart chars (inTime chars rfl)
      | lose index => exact linking.lose index
      | timeout => exact linking.timeout
      | push chars => exact linking.push chars

theorem Link.Inv.step (inv : l.Inv True False) (move : LinkMove) (inTime : l.InTime move) :
    (l.step move).Inv True False := by
  cases move with
  | a event => exact inv.stepA And.right event fun _ _ answers => answers.elim
  | b event =>
      apply Link.Inv.swap
      apply inv.swap.stepA And.left event
      intro chars same _
      rw [same] at inTime
      exact inTime

theorem Link.Inv.run (inv : l.Inv True False) (moves : List LinkMove)
    (inTime : l.AlwaysInTime moves) : (l.run moves).Inv True False := by
  induction moves generalizing l with
  | nil => exact inv
  | cons move rest ih => exact ih (inv.step move inTime.1) inTime.2

/-! ### What the invariant says -/

theorem Link.Inv.delivered (inv : l.Inv callsA callsB) :
    delivered l.pair.b <+: l.pair.a.taken.flatten := by
  rcases inv with ⟨ab, ba, sa, ra, qa, sb, rb, qb, linking⟩
  have terminal : Lapm.delivered l.pair.b ++ (core l.pair.b).rest = rb.received.flatten :=
    linking.sideB.terminal
  have taken : l.pair.a.taken = [] ++ sa.items := linking.sideA.taken
  rw [taken, List.nil_append]
  calc Lapm.delivered l.pair.b
    _ <+: rb.received.flatten := by rw [← terminal]; exact List.prefix_append _ _
    _ <+: sa.items.flatten := linking.sideA.flowOut.received_prefix.flatten

/-- The number that `b` expects lies between the oldest that `a` has not yet seen
acknowledged and the last that it has given. -/
theorem Link.Inv.between (inv : l.Inv callsA callsB) (openA : Open l.pair.a)
    (openB : Open l.pair.b) :
    Between l.pair.a.lapm.va l.pair.b.lapm.vr (l.sentA % 128) := by
  rcases inv with ⟨ab, ba, sa, ra, qa, sb, rb, qb, linking⟩
  have va : l.pair.a.lapm.va = sa.va % 128 := (linking.sideA.rep openA).va
  have vr : l.pair.b.lapm.vr = rb.vr % 128 := (linking.sideB.rep openB).vr
  have flow := linking.sideA.flowOut
  have acked := flow.acked
  have expected := flow.expected
  have filled := flow.filled
  have window := flow.window
  simp only [lapmMaxWinSize] at window
  unfold Between
  rw [va, vr, ← linking.sentA, Modem.seqSub_mod acked (by omega),
    Modem.seqSub_mod (acked.trans expected) (by omega)]
  omega

theorem Link.Inv.synchronised (inv : l.Inv callsA callsB) (openA : Open l.pair.a)
    (openB : Open l.pair.b) : Synchronised l.pair.a l.pair.b l.sentA := by
  refine ⟨inv.between openA openB, ?_, ?_⟩
  · rcases inv with ⟨ab, ba, sa, ra, qa, sb, rb, qb, linking⟩
    have va : l.pair.a.lapm.va = sa.va % 128 := (linking.sideA.rep openA).va
    have vs : l.pair.a.lapm.vs = sa.vs % 128 := (linking.sideA.rep openA).vs
    have flow := linking.sideA.flowOut
    have sent := flow.sent
    have assigned := flow.assigned
    have filled := flow.filled
    have window := flow.window
    simp only [lapmMaxWinSize] at window
    unfold Between
    rw [va, vs, ← linking.sentA, Modem.seqSub_mod sent (by omega),
      Modem.seqSub_mod (sent.trans assigned) (by omega)]
    omega
  · rcases inv with ⟨ab, ba, sa, ra, qa, sb, rb, qb, linking⟩
    have flow := linking.sideA.flowOut
    have taken : l.pair.a.taken = sa.items := linking.sideA.taken
    have held : ringItems lapmInfoFrames (core l.pair.a).info l.pair.a.lapm.sentInfo
        l.pair.a.lapm.infoList = sa.items.drop sa.va := (linking.sideA.rep openA).items
    have terminal : Lapm.delivered l.pair.b ++ (core l.pair.b).rest = rb.received.flatten :=
      linking.sideB.terminal
    have expected : rb.vr ≤ l.sentA := by
      rw [← linking.sentA]
      exact flow.expected
    refine ⟨sa.va, rb.vr, flow.acked, expected, (linking.sideA.rep openA).va,
      (linking.sideB.rep openB).vr, ?_, ?_⟩
    · rw [held, taken]
    · rw [terminal, flow.inOrder, taken]

end Run

/-! ### Runs from the start -/

structure Unlinked (m : Modem) : Prop where
  phase : m.lapm.state = .idle
  numbered : m.clock.Numbered
  txCtrlLt : m.lapm.txCtrl < lapmCtrlFrames
  ctrlListLt : m.lapm.ctrlList < lapmCtrlFrames
  queued : ∀ bytes ∈ (core m).queue,
    bytes.getD 1 0 &&& 0x3 = 0x3 ∧ bytes.getD 1 0 &&& 0xef ≠ Modem.frameUSabme
  rxCount : m.lapm.rxCount = 0
  taken : m.taken = []
  delivered : delivered m = []

theorem Unlinked.side {m : Modem} (unlinked : Unlinked m) :
    ∃ queue, Side [] [] { vr := 0, received := [], acks := [] }
        { items := [], va := 0, vs := 0, top := 0, data := [] } (Open m) (core m)
        { items := [], va := 0, vs := 0, top := 0, data := [] }
        { vr := 0, received := [], acks := [] } queue ∧
      ∀ packet ∈ queue, ¬ packet.Sabme := by
  have rxCount : (core m).rxCount = 0 := unlinked.rxCount
  have restNil : (core m).rest = [] := by
    rw [Core.rest, rxCount]
    rfl
  refine ⟨(core m).queue.map .unnum, ?_, ?_⟩
  · constructor
    · exact Flow.start _
    · exact Flow.start _
    · rfl
    · simp [acksOf, Packet.ack?]
    · exact unlinked.txCtrlLt
    · exact unlinked.ctrlListLt
    · rw [List.forall₂_map_left_iff, List.forall₂_same]
      intro bytes member
      exact .unnum bytes (unlinked.queued bytes member).1
    · intro packet member
      rcases List.mem_map.mp member with ⟨bytes, _, same⟩
      rw [← same]
      rfl
    · exact unlinked.taken
    · rw [restNil, rxCount]
      rfl
    · rw [restNil]
      exact congrArg (· ++ []) unlinked.delivered
    · intro isOpen
      unfold Open at isOpen
      rw [unlinked.phase] at isOpen
      cases isOpen
  · intro packet member
    rcases List.mem_map.mp member with ⟨bytes, waits, same⟩
    rw [← same]
    exact (unlinked.queued bytes waits).2

theorem Unlinked.stage {m : Modem} {calls : Prop} (unlinked : Unlinked m)
    (config : m.lapm.config = true → calls) : Stage calls 0 m := by
  constructor
  · exact unlinked.numbered
  · rintro (negotiates | estab)
    · exact ⟨config negotiates, unlinked.taken, rfl⟩
    · rw [unlinked.phase] at estab
      cases estab
  · exact fun _ => Or.inl unlinked.phase

theorem opened_numbered (caller : Bool) (m : Modem) : (opened caller m).clock.Numbered :=
  { va := show 0 < 128 by decide
    sent := show 0 < lapmInfoFrames by decide
    tx := show 0 < lapmInfoFrames by decide
    list := show 0 < lapmInfoFrames by decide
    vs := show 0 = (0 + ringLength lapmInfoFrames 0 0) % 128 by decide
    within := Nat.le_refl _
    window := rfl }

theorem opened_unlinked (caller : Bool) (m : Modem) : Unlinked (opened caller m) := by
  constructor
  · rfl
  · exact opened_numbered caller m
  · exact show 0 < lapmCtrlFrames by decide
  · exact show 0 < lapmCtrlFrames by decide
  · intro bytes member
    have queue : (core (opened caller m)).queue = [] :=
      ringItems_empty (show 0 < lapmCtrlFrames by decide)
    rw [queue] at member
    cases member
  · rfl
  · rfl
  · rfl

theorem negotiating_unlinked (m : Modem) : Unlinked (opened true m).modemEcNegotiate := by
  have clockEq : ((opened true m).modemEcNegotiate).clock =
      { (opened true m).clock.start with config := true } := rfl
  constructor
  · rfl
  · rw [clockEq]
    exact { opened_numbered true m with }
  · exact show 0 < lapmCtrlFrames by decide
  · exact show 1 < lapmCtrlFrames by decide
  · intro bytes member
    have queue : (core (opened true m).modemEcNegotiate).queue =
        [(opened true m).xidFrame (opened true m).lapm.cmdAddr] := by
      have pushed := ringItems_push (opened true m).lapm.ctrlBuf (n := lapmCtrlFrames)
        (show 0 < lapmCtrlFrames by decide) (show 0 < lapmCtrlFrames by decide) (by decide)
        ((opened true m).xidFrame (opened true m).lapm.cmdAddr)
      rw [ringItems_empty (show 0 < lapmCtrlFrames by decide)] at pushed
      exact pushed
    rw [queue, List.mem_singleton] at member
    rw [member]
    exact ⟨show Modem.frameUXid &&& 0x3 = 0x3 by decide,
      show Modem.frameUXid &&& 0xef ≠ Modem.frameUSabme by decide⟩
  · rfl
  · rfl
  · rfl

theorem Link.start_inv (caller answerer : Modem) :
    (Link.start caller answerer).Inv True False := by
  have unlinkedA := negotiating_unlinked caller
  have unlinkedB := opened_unlinked false answerer
  rcases unlinkedA.side with ⟨qa, sideA, quietA⟩
  rcases unlinkedB.side with ⟨qb, sideB, quietB⟩
  exact ⟨[], [], _, _, qa, _, _, qb,
    { sideA := sideA
      sideB := sideB
      framesAB := .nil
      framesBA := .nil
      stageA := unlinkedA.stage fun _ => trivial
      stageB := unlinkedB.stage fun negotiates => Bool.noConfusion negotiates
      sentA := rfl
      sentB := rfl
      asksAB := Asks.unsent quietA
      asksBA := Asks.unsent quietB }⟩

/-- From the first XID on, in every run in which no SABME comes to the answering end after
it has read from its terminal: each terminal gets a beginning of what the other side read,
and whenever both ends are in the data phase their numbers agree. -/
theorem link_opens_in_order (caller answerer : Modem) (moves : List LinkMove)
    (inTime : (Link.start caller answerer).AlwaysInTime moves) :
    let l := (Link.start caller answerer).run moves
    delivered l.pair.b <+: l.pair.a.taken.flatten ∧
      delivered l.pair.a <+: l.pair.b.taken.flatten ∧
      (Open l.pair.a → Open l.pair.b →
        Between l.pair.a.lapm.va l.pair.b.lapm.vr (l.sentA % 128) ∧
          Between l.pair.b.lapm.va l.pair.a.lapm.vr (l.sentB % 128)) := by
  have inv := (Link.start_inv caller answerer).run moves inTime
  exact ⟨inv.delivered, inv.swap.delivered,
    fun openA openB => ⟨inv.between openA openB, inv.swap.between openB openA⟩⟩

instance (bytes : List UInt8) : Decidable (AsksLink bytes) :=
  inferInstanceAs (Decidable (_ ∧ _))

instance (l : Link) (move : LinkMove) : Decidable (l.InTime move) :=
  match move with
  | .b (.event (.deliver _)) =>
      inferInstanceAs (Decidable (∀ bytes ∈ l.pair.ab.head?, AsksLink bytes → l.pair.b.taken = []))
  | .a _ | .b .stop | .b (.event (.fetch _)) | .b (.event (.lose _)) | .b (.event .timeout)
  | .b (.event (.push _)) => isTrue trivial

instance decidableAlwaysInTime (l : Link) : ∀ moves, Decidable (l.AlwaysInTime moves)
  | [] => isTrue trivial
  | move :: rest =>
      have := decidableAlwaysInTime (l.step move) rest
      inferInstanceAs (Decidable (l.InTime move ∧ (l.step move).AlwaysInTime rest))

def fetching (text : List UInt8) : LinkEvent :=
  .event (.fetch { get := some text, accept := 0, fails := false })

def delivering (accept : Nat) : LinkEvent :=
  .event (.deliver { get := some [], accept := accept, fails := false })

/-- XID and its answer, SABME, sent again before it is answered, and one frame with two
characters, of which the terminal takes the first. -/
def repeatedSabme : List LinkMove :=
  [.a (fetching []), .b (delivering 0), .b (fetching []), .a (delivering 0), .a (fetching []),
    .a (.event .timeout), .a (fetching []), .b (delivering 0), .b (delivering 0),
    .b (fetching []), .a (delivering 0), .a (fetching [104, 105]), .b (delivering 1)]

theorem link_opens_in_order_of_repeat :
    let l := (Link.start Modem.modemCreate Modem.modemCreate).run repeatedSabme
    (Open l.pair.a ∧ Open l.pair.b ∧ delivered l.pair.b = [104]) ∧
      delivered l.pair.b <+: l.pair.a.taken.flatten ∧
      delivered l.pair.a <+: l.pair.b.taken.flatten ∧
      (Open l.pair.a → Open l.pair.b →
        Between l.pair.a.lapm.va l.pair.b.lapm.vr (l.sentA % 128) ∧
          Between l.pair.b.lapm.va l.pair.a.lapm.vr (l.sentB % 128)) := by
  refine ⟨?_, link_opens_in_order _ _ repeatedSabme (by decide +kernel)⟩
  unfold Open
  decide +kernel

/-- In every run in which no SABME comes to the answering end after it has read from its
terminal, the numbers of the two ends agree whenever both are in the data phase. -/
theorem synchronised_in_time (caller answerer : Modem) (moves : List LinkMove)
    (inTime : (Link.start caller answerer).AlwaysInTime moves) :
    let l := (Link.start caller answerer).run moves
    Open l.pair.a → Open l.pair.b →
      Synchronised l.pair.a l.pair.b l.sentA ∧ Synchronised l.pair.b l.pair.a l.sentB := by
  intro l openA openB
  have inv := (Link.start_inv caller answerer).run moves inTime
  exact ⟨inv.synchronised openA openB, inv.swap.synchronised openB openA⟩

/-- The link is set up, the acknowledgement of the first character is lost, and the second
character goes behind the poll.  The answer to the poll takes V(S) back to 1, although the
second character has arrived. -/
def ackLost : List LinkMove :=
  [.a (fetching []), .b (delivering 0), .b (fetching []), .a (delivering 0), .a (fetching []),
    .b (delivering 0), .b (fetching []), .a (delivering 0), .a (fetching [104]),
    .b (delivering 1), .b (fetching []), .a (.event (.lose 0)), .a (.event .timeout),
    .a (fetching []), .a (fetching [105]), .b (delivering 1), .b (fetching []),
    .b (delivering 1), .a (delivering 0)]

theorem synchronised_in_time_of_ackLost :
    let l := (Link.start Modem.modemCreate Modem.modemCreate).run ackLost
    l.pair.a.lapm.vs = 1 ∧ l.pair.b.lapm.vr = 2 ∧
      Synchronised l.pair.a l.pair.b 2 ∧ Synchronised l.pair.b l.pair.a 0 := by
  have agree := synchronised_in_time Modem.modemCreate Modem.modemCreate ackLost
    (by decide +kernel) (by unfold Open; decide +kernel) (by unfold Open; decide +kernel)
  have sentA : ((Link.start Modem.modemCreate Modem.modemCreate).run ackLost).sentA = 2 := by
    decide +kernel
  have sentB : ((Link.start Modem.modemCreate Modem.modemCreate).run ackLost).sentB = 0 := by
    decide +kernel
  rw [sentA, sentB] at agree
  exact ⟨by decide +kernel, by decide +kernel, agree⟩

/-- The answering end has sent a character that has arrived, and a repeated SABME resets its
numbers. -/
def lateSabme : List LinkMove :=
  [.a (fetching []), .b (delivering 0), .b (fetching []), .a (delivering 0), .a (fetching []),
    .a (.event .timeout), .a (fetching []), .b (delivering 0), .b (fetching []),
    .a (delivering 0), .b (fetching [120]), .a (delivering 1), .b (delivering 0),
    .b (fetching []), .a (delivering 0)]

instance (low n high : Nat) : Decidable (Between low n high) :=
  inferInstanceAs (Decidable (_ ≤ _))

def Link.AtRest (l : Link) : Prop :=
  Open l.pair.a ∧ Open l.pair.b ∧ l.pair.ab = [] ∧ l.pair.ba = []

/-- With nothing on the way, V(R) lies outside of what V(A) and V(S) of the peer bound. -/
theorem vr_outside_window :
    let rewound := (Link.start Modem.modemCreate Modem.modemCreate).run ackLost
    let restarted := (Link.start Modem.modemCreate Modem.modemCreate).run lateSabme
    rewound.AtRest ∧
      ¬ Between rewound.pair.a.lapm.va rewound.pair.b.lapm.vr rewound.pair.a.lapm.vs ∧
      restarted.AtRest ∧
      ¬ Between restarted.pair.b.lapm.va restarted.pair.a.lapm.vr
          restarted.pair.b.lapm.vs := by
  unfold Link.AtRest Open
  decide +kernel

/-- After such a SABME the second character has a number that was acknowledged before, and only
the first and the third arrive. -/
example :
    let l := (Link.start Modem.modemCreate Modem.modemCreate).run
      (lateSabme ++ [.b (fetching [121]), .a (delivering 1), .a (fetching []),
        .b (delivering 0), .a (fetching []), .b (delivering 0), .b (fetching [122]),
        .a (delivering 1)])
    delivered l.pair.a = [120, 122] ∧ l.pair.b.taken.flatten = [120, 121, 122] := by
  decide +kernel

end DModem.Lapm
