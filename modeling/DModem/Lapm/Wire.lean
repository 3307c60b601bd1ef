/-
Two modems in the data phase, joined by a line of bits in each direction.

Each end sends and receives symbols through its HDLC packer, with LAPM as the framer.  What
happens on the bits is what happens to two modems that are joined by frames, none of which
is lost.
-/

import DModem.Hdlc.Carry
import DModem.Lapm.Text
import DModem.Modem.FrameSizes
import DModem.Modem.InFlight

namespace DModem.Lapm

open DModem.Hdlc (HdlcState Carries symbolBits)

/-! ### A frame in the receive buffer -/

section Content

variable {f : Hdlc.Frame} {bytes : List UInt8}

theorem content_getD (content : f.content = (bytes.length, bytes)) {i : Nat}
    (within : i < bytes.length) : f.buf.getD i 0 = (frameOf bytes).buf.getD i 0 := by
  obtain ⟨count, held⟩ := Prod.mk.inj content
  have inside : i < f.count := by omega
  change f.buf.getD i 0 = bytes.getD i 0
  rw [← held, List.getD_eq_getElem?_getD, List.getD_eq_getElem?_getD,
    List.getElem?_take_of_lt inside]

theorem content_drop (content : f.content = (bytes.length, bytes)) (from' few : Nat)
    (within : from' + few ≤ bytes.length) :
    (f.buf.drop from').take few = (bytes.drop from').take few := by
  obtain ⟨count, held⟩ := Prod.mk.inj content
  have parts : bytes.drop from' = (f.buf.drop from').take (f.count - from') := by
    rw [← held, List.drop_take]
  rw [parts, List.take_take, Nat.min_eq_left (by omega)]

theorem callPutChars_take (m : Modem) (chars : Chars) {front back : List UInt8} {n : Int}
    (same : front.take n.toNat = back.take n.toNat) :
    m.callPutChars chars front n = m.callPutChars chars back n := by
  have accepted : front.take (min chars.accept n.toNat) = back.take (min chars.accept n.toNat) := by
    rw [← List.take_take, ← List.take_take, same]
  unfold Modem.callPutChars
  cases m.putChars with
  | none => rfl
  | some routine =>
      simp only
      rw [accepted]

theorem recvInfo_content (m : Modem) (content : f.content = (bytes.length, bytes))
    (header : 3 ≤ bytes.length) (chars : Chars) :
    m.recvInfo f chars = m.recvInfo (frameOf bytes) chars := by
  have count : f.count = bytes.length := (Prod.mk.inj content).1
  have offered : (f.buf.drop 3).take ((bytes.length : Int) - 3).toNat =
      (bytes.drop 3).take ((bytes.length : Int) - 3).toNat :=
    content_drop content 3 _ (by omega)
  obtain ⟨k, few, ret, -⟩ := callPutChars_spec m chars (bytes.drop 3) ((bytes.length : Int) - 3)
  have rest : (f.buf.drop (3 + k)).take ((bytes.length : Int) - 3 - k).toNat =
      (bytes.drop (3 + k)).take ((bytes.length : Int) - 3 - k).toNat :=
    content_drop content (3 + k) _ (by omega)
  have whole : (frameOf bytes).buf = bytes := rfl
  have counted : (frameOf bytes).count = bytes.length := rfl
  unfold Modem.recvInfo
  simp only [count, callPutChars_take m chars offered, whole, counted]
  generalize m.callPutChars chars (bytes.drop 3) ((bytes.length : Int) - 3) = put at ret ⊢
  rw [ret, Int.toNat_natCast, rest]

structure SameHeader (f g : Hdlc.Frame) : Prop where
  addr : Frame.addr f = Frame.addr g
  ctrl : Frame.ctrl f = Frame.ctrl g

theorem content_header (content : f.content = (bytes.length, bytes)) (header : 2 ≤ bytes.length) :
    SameHeader f (frameOf bytes) :=
  { addr := content_getD content (by omega)
    ctrl := content_getD content (by omega) }

theorem SameHeader.type {g : Hdlc.Frame} (same : SameHeader f g) : Frame.type f = Frame.type g := by
  unfold Frame.type
  rw [same.ctrl]

theorem content_numbers (content : f.content = (bytes.length, bytes)) (header : 3 ≤ bytes.length) :
    Frame.ns f = Frame.ns (frameOf bytes) ∧ Frame.nr f = Frame.nr (frameOf bytes) ∧
      Frame.pf f = Frame.pf (frameOf bytes) := by
  have ctrl := (content_header content (by omega)).ctrl
  have third := content_getD content (show 2 < bytes.length by omega)
  unfold Frame.ns Frame.nr Frame.pf
  rw [ctrl, third]
  exact ⟨rfl, rfl, rfl⟩

theorem respondInfo_fields (m : Modem) (chars : Chars) {g : Hdlc.Frame}
    (addr : Frame.addr f = Frame.addr g) (pf : Frame.pf f = Frame.pf g) :
    m.respondInfo f chars = m.respondInfo g chars := by
  unfold Modem.respondInfo
  rw [addr, pf]

theorem rxInfo_content (m : Modem) (content : f.content = (bytes.length, bytes))
    (header : 3 ≤ bytes.length) (chars : Chars) :
    m.rxInfo f chars = m.rxInfo (frameOf bytes) chars := by
  obtain ⟨ns, nr, pf⟩ := content_numbers content header
  have addr := (content_header content (by omega)).addr
  unfold Modem.rxInfo
  simp only [ns, nr, pf, recvInfo_content _ content header, respondInfo_fields _ _ addr pf]

theorem answerSuper_fields (m : Modem) (chars : Chars) {g : Hdlc.Frame}
    (addr : Frame.addr f = Frame.addr g) (pf : Frame.pf f = Frame.pf g) :
    m.answerSuper f chars = m.answerSuper g chars := by
  unfold Modem.answerSuper
  rw [addr, pf]

theorem rxNumbered_content (m : Modem) (content : f.content = (bytes.length, bytes))
    (header : 3 ≤ bytes.length) (numbered : Frame.type (frameOf bytes) ≠ Modem.frameU)
    (chars : Chars) :
    m.lapmRxComplete f chars = m.lapmRxComplete (frameOf bytes) chars := by
  have same := content_header content (by omega)
  obtain ⟨ns, nr, pf⟩ := content_numbers content header
  unfold Modem.lapmRxComplete
  simp only [same.type, if_neg numbered, same.addr, rxInfo_content _ content header]
  unfold Modem.rxSuperCmd Modem.rxSuperRsp
  simp only [same.ctrl, nr, pf, answerSuper_fields _ _ same.addr pf]

theorem rxUnnum_content (m : Modem) (content : f.content = (bytes.length, bytes))
    (header : 2 ≤ bytes.length) (unnum : Frame.type (frameOf bytes) = Modem.frameU)
    (other : ¬ Frame.ctrl (frameOf bytes) &&& 0xef = Modem.frameUXid) (chars : Chars) :
    m.lapmRxComplete f chars = m.lapmRxComplete (frameOf bytes) chars := by
  have same := content_header content header
  have uPf : Frame.uPf f = Frame.uPf (frameOf bytes) := by
    unfold Frame.uPf
    rw [same.ctrl]
  have notInfo : Modem.frameU ≠ Modem.frameI := by decide
  have notSuper : Modem.frameU ≠ Modem.frameS := by decide
  unfold Modem.lapmRxComplete
  simp only [same.type, unnum, same.addr, if_neg notInfo, if_neg notSuper, if_true]
  unfold Modem.rxUnnumCmd Modem.rxUnnumRsp Modem.rxSabme Modem.rxDisc Modem.rxDm
  simp only [same.ctrl, if_neg other, uPf]

theorem Encodes.length {packet : Packet} (encodes : Encodes packet bytes) : 2 ≤ bytes.length := by
  cases encodes with
  | info addr seq chunk ack => simp
  | super addr ctrl pf ack kind bit => exact show 2 ≤ 3 by decide
  | unnum bytes kind =>
      by_contra short
      have nothing : bytes.getD 1 0 = 0 := by
        rw [List.getD_eq_default]
        omega
      rw [nothing] at kind
      exact absurd kind (by decide)

theorem rxComplete_content (m : Modem) {packet : Packet} (encodes : Encodes packet bytes)
    (plain : Plain packet) (content : f.content = (bytes.length, bytes)) (chars : Chars) :
    m.lapmRxComplete f chars = m.lapmRxComplete (frameOf bytes) chars := by
  have short := encodes.length
  cases encodes with
  | info addr seq chunk ack =>
      apply rxNumbered_content m content
      · simp
      · rw [info_type]
        decide
  | super addr ctrl pf ack kind bit =>
      apply rxNumbered_content m content
      · exact Nat.le_refl 3
      · rw [super_type addr ctrl pf ack kind]
        decide
  | unnum bytes kind =>
      have type := unnum_type kind
      apply rxUnnum_content m content short type
      intro xid
      exact plain bytes rfl ⟨type, Or.inr (Or.inr (Or.inr xid))⟩

/-- What `put_chars` is offered depends on the content too. -/
theorem offeredFrame_content (m : Modem) {packet : Packet} (encodes : Encodes packet bytes)
    (content : f.content = (bytes.length, bytes)) :
    offeredFrame m f = offeredFrame m (frameOf bytes) := by
  have notInfo : Modem.frameU ≠ Modem.frameI := by decide
  have notInfo' : Modem.frameS ≠ Modem.frameI := by decide
  have short : 2 ≤ bytes.length := encodes.length
  have type := (content_header content short).type
  unfold offeredFrame
  rw [type]
  cases encodes with
  | info addr seq chunk ack =>
      have header : 3 ≤ ([addr, seqByte seq, seqByte ack] ++ chunk).length := by simp
      obtain ⟨ns, nr, -⟩ := content_numbers content header
      have count := (Prod.mk.inj content).1
      have offered := content_drop content 3
        ((([addr, seqByte seq, seqByte ack] ++ chunk).length : Int) - 3).toNat (by omega)
      unfold offeredInfo
      simp only [ns, nr, count, offered]
      rfl
  | super addr ctrl pf ack kind bit =>
      rw [super_type addr ctrl pf ack kind, if_neg (fun both => notInfo' both.1),
        if_neg (fun both => notInfo' both.1)]
  | unnum bytes kind =>
      rw [unnum_type kind, if_neg (fun both => notInfo both.1),
        if_neg (fun both => notInfo both.1)]

end Content

/-! ### Runs -/

/-- Two modems with their packers, and the bits that are on the way. -/
structure Wire where
  a : Modem
  b : Modem
  ha : HdlcState
  hb : HdlcState
  ab : List Bool
  ba : List Bool

def Wire.swap (w : Wire) : Wire :=
  { a := w.b, b := w.a, ha := w.hb, hb := w.ha, ab := w.ba, ba := w.ab }

/-- An end sends a symbol, or it receives one; the other two are those of `Deed`. -/
inductive WireDeed where
  | send (nbits : Nat)
  | receive (nbits : Nat) (symbol : UInt8)
  | timeout
  | push
  deriving DecidableEq, Repr

/-- What the packer of `a` hands to `lapm_rx_complete`.  Only a symbol that is on the way
is received. -/
def Wire.received (w : Wire) (nbits : Nat) (symbol : UInt8) : List Hdlc.Frame :=
  if symbolBits nbits symbol = w.ba.take nbits then (w.ha.putSymbol nbits symbol).2 else []

/-- A round of `modem_hdlc_get_bits` with `lapm_get_tx_frame`, or of `modem_hdlc_put_bits`
with `lapm_rx_complete`, at the end `a`. -/
def Wire.stepA (w : Wire) (deed : WireDeed) (chars : Chars) : Wire :=
  match deed with
  | .send nbits =>
      let next := HdlcState.modemHdlcGetBits (Modem.framer chars) nbits 1 w.ha w.a
      { w with
        a := next.2.2
        ha := next.2.1
        ab := w.ab ++ next.1.flatMap (symbolBits nbits) }
  | .receive nbits symbol =>
      if symbolBits nbits symbol = w.ba.take nbits then
        { w with
          a := (w.received nbits symbol).foldl (fun m f => m.lapmRxComplete f chars) w.a
          ha := (w.ha.putSymbol nbits symbol).1
          ba := w.ba.drop nbits }
      else w
  | .timeout => { w with a := Modem.t401Timeout { w.a with bitTimer := 0 } }
  | .push => { w with a := w.a.pushRestData chars }

inductive WireMove where
  | a (deed : WireDeed) (chars : Chars)
  | b (deed : WireDeed) (chars : Chars)

def Wire.step (w : Wire) : WireMove → Wire
  | .a deed chars => w.stepA deed chars
  | .b deed chars => (w.swap.stepA deed chars).swap

def Wire.run (w : Wire) : List WireMove → Wire
  | [] => w
  | move :: rest => (w.step move).run rest

def WireDeed.Sized : WireDeed → Prop
  | .send nbits | .receive nbits _ => 1 ≤ nbits ∧ nbits ≤ 8
  | .timeout | .push => True

instance : (deed : WireDeed) → Decidable deed.Sized
  | .send _ | .receive _ _ => inferInstanceAs (Decidable (_ ∧ _))
  | .timeout | .push => isTrue trivial

def WireMove.deed : WireMove → WireDeed
  | .a deed _ | .b deed _ => deed

instance (bytes : List UInt8) : Decidable (Resets bytes) := inferInstanceAs (Decidable (_ ∧ _))

def HoldsPlain (h : HdlcState) : Prop := ∀ bytes ∈ h.txFrame.map Hdlc.Frame.buf, ¬ Resets bytes

instance (h : HdlcState) : Decidable (HoldsPlain h) := inferInstanceAs (Decidable (∀ _ ∈ _, _))

/-- No SABME, DISC, DM or XID is transmitted in the run. -/
def Wire.DataPhase (w : Wire) : List WireMove → Prop
  | [] => True
  | move :: rest =>
      move.deed.Sized ∧ HoldsPlain (w.step move).ha ∧ HoldsPlain (w.step move).hb ∧
        (w.step move).DataPhase rest

instance decidableDataPhase : (moves : List WireMove) → (w : Wire) →
    Decidable (w.DataPhase moves)
  | [], _ => isTrue trivial
  | move :: rest, w =>
      have := decidableDataPhase rest (w.step move)
      inferInstanceAs (Decidable (_ ∧ _ ∧ _ ∧ _))

/-! ### The frames behind the bits -/

def WireDeed.deed : WireDeed → Deed
  | .send _ => .fetch
  | .receive _ _ => .deliver
  | .timeout => .timeout
  | .push => .push

/-- What LAPM offers to `put_chars` at the end `a`. -/
def Wire.offered (w : Wire) : WireDeed → Option (List UInt8)
  | .receive nbits symbol => (w.received nbits symbol).head?.bind (offeredFrame w.a)
  | .push => offeredRest w.a
  | .send _ | .timeout => none

/-- The line carries the frames that are on the way between the modems of `p`. -/
structure Wire.Shows (w : Wire) (p : Pair) : Prop where
  a : w.a = p.a
  b : w.b = p.b
  carriesAB : Carries w.ha w.hb w.ab p.ab
  carriesBA : Carries w.hb w.ha w.ba p.ba
  fitA : w.a.FramesFit
  fitB : w.b.FramesFit
  inv : p.Inv

/-- LAPM is not called, or it is called as it is in a step of `p` that sends no SABME, DISC,
DM or XID. -/
def Wire.Follows (w : Wire) (p : Pair) (deed : WireDeed) (chars : Chars) : Prop :=
  ((w.stepA deed chars).Shows p ∧ w.offered deed = none) ∨
    ((w.stepA deed chars).Shows (p.stepA (deed.deed.event chars)) ∧
      w.offered deed = p.offered deed.deed ∧
      ∀ bytes, p.fetched (deed.deed.event chars) = some bytes → ¬ Resets bytes)

section Step

variable {w : Wire} {p : Pair}

theorem Wire.Shows.swap (shows : w.Shows p) : w.swap.Shows p.swap :=
  { a := shows.b
    b := shows.a
    carriesAB := shows.carriesBA
    carriesBA := shows.carriesAB
    fitA := shows.fitB
    fitB := shows.fitA
    inv := shows.inv.swap }

theorem sized_of_inBuffer {bytes : List UInt8} (short : Modem.InBuffer bytes) :
    Hdlc.Sized bytes := by
  have size : lapmMaxInfoSize = 128 := rfl
  have low := short.1
  have high := short.2
  constructor
  · omega
  · omega

theorem Wire.Shows.unasked (shows : w.Shows p) {nbits : Nat} {chars : Chars}
    (same : (HdlcState.modemHdlcGetBits (Modem.framer chars) nbits 1 w.ha w.a).2.2 = w.a)
    (carries : Carries (w.stepA (.send nbits) chars).ha w.hb (w.stepA (.send nbits) chars).ab
      p.ab) : w.Follows p (.send nbits) chars := by
  have receiver := HdlcState.receiver_getBits w.ha (Modem.framer chars) nbits 1 w.a
  refine Or.inl ⟨?_, rfl⟩
  constructor
  · exact same.trans shows.a
  · exact shows.b
  · exact carries
  · exact shows.carriesBA.of_receiver receiver
  · exact shows.fitA.of_lapm (congrArg Modem.lapm same)
  · exact shows.fitB
  · exact shows.inv

theorem Wire.Shows.send (shows : w.Shows p) {nbits : Nat} (chars : Chars) (some' : 1 ≤ nbits)
    (small : nbits ≤ 8) (plain : HoldsPlain (w.stepA (.send nbits) chars).ha) :
    w.Follows p (.send nbits) chars := by
  have fetched := shows.fitA.getTxFrame chars
  have receiver := HdlcState.receiver_getBits w.ha (Modem.framer chars) nbits 1 w.a
  cases attached : w.a.getTxFrame with
  | false =>
      have answers : Modem.framer chars w.a = (none, w.a) := by
        unfold Modem.framer
        rw [attached]
        rfl
      have sent := shows.carriesAB.get (Modem.framer chars) w.a none (by rw [answers]; rfl)
        (fun text same => by cases same) some' small
      rw [answers, Option.toList_none, List.append_nil] at sent
      rcases sent with ⟨same, carries⟩ | ⟨same, -, carries⟩
      · exact shows.unasked same carries
      · exact shows.unasked same carries
  | true =>
      have answers : Modem.framer chars w.a =
          ((w.a.lapmGetTxFrame chars).2.map Hdlc.loadedFrame, (w.a.lapmGetTxFrame chars).1) := by
        unfold Modem.framer
        rw [attached]
        rfl
      rcases shows.carriesAB.get (Modem.framer chars) w.a (w.a.lapmGetTxFrame chars).2
        (by rw [answers]) (fun text same => sized_of_inBuffer (fetched.2 text same)) some'
        small with
        ⟨same, carries⟩ | ⟨asked, held, carries⟩
      · exact shows.unasked same carries
      · rw [answers] at asked
        obtain ⟨pa, pb, pab, pba⟩ := p
        obtain rfl : w.a = pa := shows.a
        have harmless : ∀ bytes, (w.a.lapmGetTxFrame chars).2 = some bytes → ¬ Resets bytes := by
          intro bytes sent
          exact plain bytes (held.trans sent)
        refine Or.inr ⟨?_, rfl, harmless⟩
        constructor
        · exact asked
        · exact shows.b
        · exact carries
        · exact shows.carriesBA.of_receiver receiver
        · exact fetched.1.of_lapm (congrArg Modem.lapm asked)
        · exact shows.fitB
        · exact shows.inv.stepA _ harmless

theorem Wire.Shows.receive (shows : w.Shows p) {nbits : Nat} (symbol : UInt8) (chars : Chars)
    (small : nbits ≤ 8) : w.Follows p (.receive nbits symbol) chars := by
  by_cases here : symbolBits nbits symbol = w.ba.take nbits
  case neg =>
    left
    simp only [Wire.stepA, Wire.offered, Wire.received, if_neg here]
    exact ⟨shows, rfl⟩
  case pos =>
    have carried := shows.carriesBA
    rw [← List.take_append_drop nbits w.ba, ← here] at carried
    have front := shows.carriesAB.of_sender (HdlcState.sender_putSymbol w.ha nbits symbol)
    unfold Wire.Follows
    simp only [Wire.stepA, Wire.offered, Wire.received, if_pos here]
    rcases carried.put small with
      ⟨nothing, carries⟩ | ⟨text, later, f, frames, one, content, carries⟩
    · left
      rw [nothing]
      exact ⟨{ shows with carriesAB := front, carriesBA := carries }, rfl⟩
    · right
      rw [one]
      obtain ⟨pa, pb, pab, pba⟩ := p
      obtain rfl : w.a = pa := shows.a
      obtain rfl : pba = text :: later := frames
      have harmless : ∀ bytes : List UInt8, none = some bytes → ¬ Resets bytes := by
        intro bytes sent
        cases sent
      have inv := shows.inv.stepA (.deliver chars) harmless
      rcases shows.inv with ⟨ab, ba, sa, ra, qa, sb, rb, qb, joined⟩
      cases joined.framesBA with
      | cons encodes others =>
          refine ⟨?_, offeredFrame_content w.a encodes content, harmless⟩
          constructor
          · exact rxComplete_content w.a encodes (joined.plainBA _ List.mem_cons_self) content chars
          · exact shows.b
          · exact front
          · exact carries
          · exact shows.fitA.rxComplete f chars
          · exact shows.fitB
          · exact inv

theorem Wire.Shows.stepA (shows : w.Shows p) (deed : WireDeed) (chars : Chars)
    (sized : deed.Sized) (plain : HoldsPlain (w.stepA deed chars).ha) :
    w.Follows p deed chars := by
  cases deed with
  | send nbits => exact shows.send chars sized.1 sized.2 plain
  | receive nbits symbol => exact shows.receive symbol chars sized.2
  | timeout =>
      have cleared : Modem.FramesFit { w.a with bitTimer := 0 } := shows.fitA.of_lapm rfl
      have harmless : ∀ bytes : List UInt8, none = some bytes → ¬ Resets bytes := by
        intro bytes sent
        cases sent
      obtain ⟨pa, pb, pab, pba⟩ := p
      obtain rfl : w.a = pa := shows.a
      refine Or.inr ⟨?_, rfl, harmless⟩
      exact
        { shows with
          a := rfl
          fitA := cleared.t401Timeout
          inv := shows.inv.stepA .timeout harmless }
  | push =>
      have harmless : ∀ bytes : List UInt8, none = some bytes → ¬ Resets bytes := by
        intro bytes sent
        cases sent
      obtain ⟨pa, pb, pab, pba⟩ := p
      obtain rfl : w.a = pa := shows.a
      refine Or.inr ⟨?_, rfl, harmless⟩
      exact
        { shows with
          a := rfl
          fitA := shows.fitA.pushRestData chars
          inv := shows.inv.stepA (.push chars) harmless }

end Step

/-! ### Runs without loss -/

def Event.Lossless : Event → Prop
  | .lose _ => False
  | _ => True

def Move.Lossless : Move → Prop
  | .a event | .b event => event.Lossless

section Run

variable {w : Wire} {p : Pair}

theorem WireDeed.lossless (deed : WireDeed) (chars : Chars) : (deed.deed.event chars).Lossless := by
  cases deed with
  | send | receive | timeout | push => trivial

theorem Wire.Shows.step (shows : w.Shows p) (move : WireMove) (sized : move.deed.Sized)
    (plainA : HoldsPlain (w.step move).ha) (plainB : HoldsPlain (w.step move).hb) :
    (w.step move).Shows p ∨
      ∃ frame : Move, frame.Lossless ∧ (w.step move).Shows (p.step frame) := by
  cases move with
  | a deed chars =>
      rcases shows.stepA deed chars sized plainA with ⟨stays, -⟩ | ⟨moves, -, -⟩
      · exact Or.inl stays
      · exact Or.inr ⟨.a (deed.deed.event chars), deed.lossless chars, moves⟩
  | b deed chars =>
      rcases shows.swap.stepA deed chars sized plainB with ⟨stays, -⟩ | ⟨moves, -, -⟩
      · exact Or.inl stays.swap
      · exact Or.inr ⟨.b (deed.deed.event chars), deed.lossless chars, moves.swap⟩

theorem Wire.Shows.run (shows : w.Shows p) (moves : List WireMove) (plain : w.DataPhase moves) :
    ∃ frames : List Move,
      (∀ move ∈ frames, move.Lossless) ∧ (w.run moves).Shows (p.run frames) := by
  induction moves generalizing w p with
  | nil =>
      refine ⟨[], ?_, shows⟩
      intro move member
      cases member
  | cons move rest ih =>
      obtain ⟨sized, plainA, plainB, later⟩ := plain
      rcases shows.step move sized plainA plainB with stays | ⟨frame, lossless, moved⟩
      · exact ih stays later
      · obtain ⟨frames, others, shows'⟩ := ih moved later
        refine ⟨frame :: frames, ?_, shows'⟩
        intro other member
        rcases List.mem_cons.mp member with first | after
        · rw [first]
          exact lossless
        · exact others other after

end Run

/-! ### Runs from a reset -/

/-- Both ends just reset, their packers just started, and nothing on the way. -/
structure Wire.Fresh (w : Wire) : Prop where
  a : JustReset w.a
  b : JustReset w.b
  fitA : w.a.FramesFit
  fitB : w.b.FramesFit
  ha : w.ha = Hdlc.modemHdlcStart
  hb : w.hb = Hdlc.modemHdlcStart
  ab : w.ab = []
  ba : w.ba = []

/-- The modems without their packers. -/
def Wire.pair (w : Wire) : Pair := { a := w.a, b := w.b, ab := [], ba := [] }

theorem Wire.Fresh.shows {w : Wire} (fresh : w.Fresh) : w.Shows w.pair := by
  have starting : w.pair.Fresh :=
    { a := fresh.a
      b := fresh.b
      ab := rfl
      ba := rfl }
  constructor
  · rfl
  · rfl
  · rw [fresh.ha, fresh.hb, fresh.ab]
    exact Hdlc.carries_start
  · rw [fresh.ha, fresh.hb, fresh.ba]
    exact Hdlc.carries_start
  · exact fresh.fitA
  · exact fresh.fitB
  · exact starting.inv

/-- LAPM over HDLC.  Every run on bits without SABME, DISC, DM and XID, with symbols of any
sizes, leaves the modems as some run on frames does in which no frame is lost, and what one
terminal got is a beginning of what the other gave. -/
theorem wire_refines_frames (w : Wire) (fresh : w.Fresh) (moves : List WireMove)
    (plain : w.DataPhase moves) :
    (∃ frames : List Move, (∀ move ∈ frames, move.Lossless) ∧
      (w.pair.run frames).a = (w.run moves).a ∧ (w.pair.run frames).b = (w.run moves).b) ∧
      delivered (w.run moves).b <+: (w.run moves).a.taken.flatten ∧
      delivered (w.run moves).a <+: (w.run moves).b.taken.flatten := by
  obtain ⟨frames, lossless, shows⟩ := fresh.shows.run moves plain
  refine ⟨⟨frames, lossless, shows.a.symm, shows.b.symm⟩, ?_, ?_⟩
  · rw [shows.a, shows.b]
    exact shows.inv.delivered
  · rw [shows.a, shows.b]
    exact shows.inv.swap.delivered

/-- `linkedEnd` with LAPM attached to the packer. -/
def attachedEnd (caller : Bool) : Modem := { linkedEnd caller with getTxFrame := true }

theorem attachedEnd_justReset (caller : Bool) : JustReset (attachedEnd caller) :=
  { linkedEnd_justReset caller with }

theorem attachedEnd_fit (caller : Bool) : (attachedEnd caller).FramesFit := by
  have fresh := Modem.framesFit_lapmInit { Modem.modemCreate with caller := caller }
    { txWinSize := rfl, rxWinSize := rfl, txInfoSize := rfl, rxInfoSize := rfl }
  exact ((fresh.setPhase .data).setState .modemOnline).of_lapm rfl

def attachedWire : Wire :=
  { a := attachedEnd true
    b := attachedEnd false
    ha := Hdlc.modemHdlcStart
    hb := Hdlc.modemHdlcStart
    ab := []
    ba := [] }

def twoChars : List WireMove :=
  .a (.send 8) { get := some [104, 105], accept := 0, fails := false } ::
    (List.replicate 12 (.a (.send 8) { get := some [], accept := 0, fails := false }) ++
      [126, 192, 0, 0, 22, 150, 151, 208, 191, 63, 63, 63, 63].map fun symbol =>
        .b (.receive 8 symbol) { get := some [], accept := 2, fails := false })

theorem wire_refines_frames_of_two_chars :
    delivered (attachedWire.run twoChars).b = [104, 105] ∧
      delivered (attachedWire.run twoChars).b <+:
        (attachedWire.run twoChars).a.taken.flatten := by
  refine ⟨by decide +kernel, (wire_refines_frames attachedWire ?_ twoChars ?_).2.1⟩
  · exact
      { a := attachedEnd_justReset true
        b := attachedEnd_justReset false
        fitA := attachedEnd_fit true
        fitB := attachedEnd_fit false
        ha := rfl
        hb := rfl
        ab := rfl
        ba := rfl }
  · decide +kernel

end DModem.Lapm
