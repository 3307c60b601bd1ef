/-
What `modem_hdlc_get_bits` puts on the line.

The answers of `get_tx_frame` determine the line: each call of it comes with a
flag, and a frame follows the flag as stuffed octets, its check sequence last.
-/

import DModem.Hdlc.Packer

namespace DModem.Hdlc

open DModem.Lib

/-! ### The line -/

def bitsUp : Nat → BitVec 8 → List Bool
  | 0, _ => []
  | left + 1, input => input.getLsbD 0 :: bitsUp left (input >>> 1)

def octetBits (c : UInt8) : List Bool := bitsUp 8 c.toBitVec

def bitsOf (octets : List UInt8) : List Bool := octets.flatMap octetBits

def symbolBits (nbits : Nat) (symbol : UInt8) : List Bool := window symbol.toBitVec nbits

def fcsOf (octets : List UInt8) : BitVec 16 := octets.foldl getFcs initFcs

def fcsLow (text : List UInt8) : UInt8 :=
  UInt8.ofBitVec (((fcsOf text ^^^ 0xffff) &&& 0xff).setWidth 8)

def fcsHigh (text : List UInt8) : UInt8 :=
  UInt8.ofBitVec ((((fcsOf text ^^^ 0xffff) >>> 8) &&& 0xff).setWidth 8)

def checked (text : List UInt8) : List UInt8 := text ++ [fcsLow text, fcsHigh text]

/-- What one answer of `get_tx_frame` adds to the line. -/
def answerBits (answer : Option (List UInt8)) : List Bool :=
  flagBits ++ stuff 0 (bitsOf (answer.elim [] checked))

def lineBits (answers : List (Option (List UInt8))) : List Bool := answers.flatMap answerBits

theorem bitsOf_append (front back : List UInt8) :
    bitsOf (front ++ back) = bitsOf front ++ bitsOf back :=
  List.flatMap_append

theorem bitsOf_cons (c : UInt8) (rest : List UInt8) :
    bitsOf (c :: rest) = octetBits c ++ bitsOf rest := rfl

theorem lineBits_append (front back : List (Option (List UInt8))) :
    lineBits (front ++ back) = lineBits front ++ lineBits back :=
  List.flatMap_append

theorem bitsUp_length (left : Nat) (input : BitVec 8) : (bitsUp left input).length = left := by
  induction left generalizing input with
  | zero => rfl
  | succ left ih => rw [bitsUp, List.length_cons, ih]

theorem octetBits_length (c : UInt8) : (octetBits c).length = 8 := bitsUp_length 8 c.toBitVec

/-! ### Putting bytes into the register -/

def BitsState.bits (s : BitsState) : List Bool := window s.data s.bit

def HdlcState.ahead (h : HdlcState) (octets : List UInt8) : List Bool :=
  h.pack.bits ++ stuff h.txOnes (bitsOf octets)

namespace HdlcState

theorem lowest_bit (input : BitVec 8) : (input &&& 1 ≠ 0) ↔ input.getLsbD 0 = true := by
  revert input
  decide

theorem pack_push (s : BitsState) (bit : Bool) (room : s.bit + 1 ≤ 32) :
    window (s.data <<< 1 ||| (if bit then 1 else 0)) (s.bit + 1) = s.bits ++ [bit] := by
  rw [window_push s.bit 1 room]
  · cases bit with
    | false => rfl
    | true => rfl
  · intro i high
    cases bit with
    | false => simp
    | true =>
        simp
        omega

theorem pack_push_one (s : BitsState) (room : s.bit + 1 ≤ 32) :
    window (s.data <<< 1 ||| 1) (s.bit + 1) = s.bits ++ [true] :=
  pack_push s true room

theorem pack_push_zero (s : BitsState) (room : s.bit + 1 ≤ 32) :
    window (s.data <<< 1) (s.bit + 1) = s.bits ++ [false] := by
  have pushed := pack_push s false room
  simpa using pushed

/-- What a round of `HDLC_PUT_BYTE` with data bit `bit` does: it only touches the
register and the count of ones. -/
structure Put (h : HdlcState) (bits : List Bool) (h' : HdlcState) : Prop where
  frame : h' = { h with txOnes := h'.txOnes, pack := h'.pack }
  ones : h'.txOnes = onesAfter h.txOnes bits
  register : h'.pack.bits = h.pack.bits ++ stuff h.txOnes bits

theorem Put.length {h h' : HdlcState} {bits : List Bool} (put : Put h bits h') :
    h'.pack.bit = h.pack.bit + (stuff h.txOnes bits).length := by
  have sizes := congrArg List.length put.register
  simpa [BitsState.bits] using sizes

theorem Put.trans {h h₁ h' : HdlcState} {front back : List Bool} (first : Put h front h₁)
    (second : Put h₁ back h') : Put h (front ++ back) h' := by
  constructor
  · rw [second.frame, first.frame]
  · rw [second.ones, first.ones, onesAfter_append]
  · rw [second.register, first.register, first.ones, stuff_append, List.append_assoc]

theorem putBit_spec (h : HdlcState) (input : BitVec 8)
    (room : h.pack.bit + (stuff h.txOnes [input.getLsbD 0]).length ≤ 32) :
    Put h [input.getLsbD 0] (h.putBit input) := by
  unfold putBit
  by_cases one : input.getLsbD 0 = true
  · rw [if_pos ((lowest_bit input).mpr one)]
    rw [one] at room ⊢
    by_cases full : h.txOnes + 1 = 5
    · simp only [stuff, full, if_true, List.length_cons, List.length_nil] at room
      rw [if_pos full]
      constructor
      · rfl
      · simp [onesAfter, full]
      · have first := pack_push_one h.pack (by omega)
        have second := pack_push_zero
          { bit := h.pack.bit + 1, data := h.pack.data <<< 1 ||| 1 }
          (by simp only; omega)
        simp only [BitsState.bits, stuff, full, if_true] at first second ⊢
        rw [second, first]
        simp
    · simp only [stuff, full, if_false, List.length_cons, List.length_nil] at room
      rw [if_neg full]
      constructor
      · rfl
      · simp [onesAfter, full]
      · simpa [stuff, full, BitsState.bits] using pack_push_one h.pack room
  · rw [if_neg (fun low => one ((lowest_bit input).mp low))]
    rw [Bool.not_eq_true] at one
    rw [one] at room ⊢
    simp only [stuff, List.length_cons, List.length_nil] at room
    constructor
    · rfl
    · rfl
    · exact pack_push_zero h.pack room

theorem putBitsOf_spec (left : Nat) (h : HdlcState) (input : BitVec 8)
    (room : h.pack.bit + (stuff h.txOnes (bitsUp left input)).length ≤ 32) :
    Put h (bitsUp left input) (putBitsOf left h input) := by
  induction left generalizing h input with
  | zero =>
      constructor
      · rfl
      · rfl
      · exact (List.append_nil _).symm
  | succ left ih =>
      rw [show bitsUp (left + 1) input = [input.getLsbD 0] ++ bitsUp left (input >>> 1) from rfl]
        at room ⊢
      rw [stuff_append, List.length_append] at room
      have first := putBit_spec h input (by omega)
      apply first.trans
      apply ih
      rw [first.length, first.ones]
      omega

theorem hdlcPutByte_spec (h : HdlcState) (c : UInt8)
    (room : h.pack.bit + (stuff h.txOnes (octetBits c)).length ≤ 32) :
    Put h (octetBits c) (h.hdlcPutByte c.toBitVec) :=
  putBitsOf_spec 8 h c.toBitVec room

theorem mask_getLsbD {nbits : Nat} (i : Nat) (within : i < nbits) (inside : i < 8) :
    (BitVec.ofNat 8 (2 ^ nbits - 1)).getLsbD i = true := by
  rw [BitVec.getLsbD_ofNat, Nat.testBit_two_pow_sub_one]
  simp [within, inside]

theorem octet_room {ones : Nat} (few : ones ≤ 4) (c : UInt8) :
    (stuff ones (octetBits c)).length ≤ 10 := by
  have bound := stuff_length_le ones (octetBits c)
  rw [octetBits_length] at bound
  omega

theorem octet_grows (ones : Nat) (c : UInt8) : 8 ≤ (stuff ones (octetBits c)).length := by
  have longer := stuff_length_ge ones (octetBits c)
  rwa [octetBits_length] at longer

end HdlcState

/-! ### Runs of the transmitter -/

/-- A framer whose answers are `answers 0`, `answers 1`, and so on. -/
def fetch (answers : Nat → Option (List UInt8)) (asked : Nat) : Option Frame × Nat :=
  ((answers asked).map fun text => { count := 0, size := text.length, fcs := 0, buf := text },
    asked + 1)

def answered (answers : Nat → Option (List UInt8)) (asked : Nat) :
    List (Option (List UInt8)) :=
  (List.range asked).map answers

theorem lineBits_answered_succ (answers : Nat → Option (List UInt8)) (asked : Nat) :
    lineBits (answered answers (asked + 1)) =
      lineBits (answered answers asked) ++ answerBits (answers asked) := by
  rw [answered, List.range_succ, List.map_append, lineBits_append]
  simp [answered, lineBits]

def HdlcState.unsent (h : HdlcState) : List UInt8 :=
  h.txFrame.elim [] fun f => f.buf.drop f.count ++ [fcsLow f.buf, fcsHigh f.buf]

structure Frame.Loaded (f : Frame) : Prop where
  size : f.size = f.buf.length
  count : f.count ≤ f.size
  fcs : f.fcs = fcsOf (f.buf.take f.count)

/-- The transmitter after it has put `sent` on the line and asked `asked` times
for a frame. -/
structure Sending (answers : Nat → Option (List UInt8)) (sent : List Bool) (h : HdlcState)
    (asked : Nat) : Prop where
  loaded : ∀ f, h.txFrame = some f → f.Loaded
  few : h.txOnes ≤ 4
  idle : h.txFrame = none → h.txOnes = 0
  line : sent ++ h.ahead h.unsent = lineBits (answered answers asked)

namespace Sending

open HdlcState

variable {answers : Nat → Option (List UInt8)} {sent : List Bool} {h : HdlcState} {asked : Nat}

theorem start (answers : Nat → Option (List UInt8)) : Sending answers [] modemHdlcStart 0 := by
  constructor
  · intro f held
    cases held
  · exact Nat.zero_le 4
  · intro _
    rfl
  · rfl

theorem refill_flag (sending : Sending answers sent h asked) (none : h.txFrame = none)
    (low : h.pack.bit < 8) :
    let next := refill (fetch answers) h asked
    Sending answers sent next.1 next.2 ∧ 8 ≤ next.1.pack.bit := by
  have ones := sending.idle none
  have line := sending.line
  have flag : window (h.pack.data <<< 8 ||| hdlcFlag.setWidth 32) (h.pack.bit + 8) =
      h.pack.bits ++ flagBits := by
    rw [window_push h.pack.bit 8 (by omega)]
    · rfl
    · intro i high
      simp [BitVec.getLsbD_of_ge hdlcFlag i high]
  simp only [ahead, unsent, none, Option.elim_none] at line
  simp only [refill, none, fetch]
  constructor
  · constructor
    · intro f held
      cases given : answers asked with
      | none => simp [given] at held
      | some text =>
          simp only [given, Option.map_some, Option.some.injEq] at held
          subst held
          exact { size := rfl, count := Nat.zero_le _, fcs := by simp [fcsOf] }
    · exact sending.few
    · intro _
      exact ones
    · rw [lineBits_answered_succ, ← line]
      simp only [ahead, unsent, BitsState.bits, ones, answerBits] at flag ⊢
      rw [flag]
      cases given : answers asked with
      | none => simp [bitsOf, stuff]
      | some text => simp [bitsOf, stuff, checked]
  · simp

theorem refill_fcs (sending : Sending answers sent h asked) {f : Frame}
    (held : h.txFrame = some f) (done : f.count = f.size) (low : h.pack.bit < 8) :
    let next := refill (fetch answers) h asked
    Sending answers sent next.1 next.2 ∧ 8 ≤ next.1.pack.bit := by
  have loaded := sending.loaded f held
  have line := sending.line
  have whole : f.fcs = fcsOf f.buf := by
    rw [loaded.fcs, done, loaded.size, List.take_length]
  have unsentEq : h.unsent = [fcsLow f.buf, fcsHigh f.buf] := by
    simp [unsent, held, done, loaded.size]
  have firstRoom := octet_room sending.few (fcsLow f.buf)
  have first := hdlcPutByte_spec h (fcsLow f.buf) (by omega)
  have fewer : (h.hdlcPutByte (fcsLow f.buf).toBitVec).txOnes ≤ 4 := by
    rw [first.ones]
    exact onesAfter_le sending.few _
  have secondRoom := octet_room fewer (fcsHigh f.buf)
  have second := hdlcPutByte_spec (h.hdlcPutByte (fcsLow f.buf).toBitVec) (fcsHigh f.buf) (by
    rw [first.length]
    omega)
  have both := first.trans second
  have grown := second.length
  have wider := octet_grows (h.hdlcPutByte (fcsLow f.buf).toBitVec).txOnes (fcsHigh f.buf)
  have nextEq : refill (fetch answers) h asked =
      ({ (h.hdlcPutByte (fcsLow f.buf).toBitVec).hdlcPutByte (fcsHigh f.buf).toBitVec with
          txOnes := 0
          txFrame := none }, asked) := by
    simp only [refill, held, done, if_true, whole]
    rfl
  rw [nextEq]
  constructor
  · constructor
    · intro g gHeld
      cases gHeld
    · exact Nat.zero_le 4
    · intro _
      rfl
    · rw [← line, unsentEq]
      have register := both.register
      simp only [ahead, unsent, Option.elim_none, bitsOf_cons, BitsState.bits] at register ⊢
      rw [register]
      simp [bitsOf, stuff]
  · change 8 ≤ ((h.hdlcPutByte (fcsLow f.buf).toBitVec).hdlcPutByte _).pack.bit
    omega

theorem refill_octet (sending : Sending answers sent h asked) {f : Frame}
    (held : h.txFrame = some f) (more : f.count ≠ f.size) (low : h.pack.bit < 8) :
    let next := refill (fetch answers) h asked
    Sending answers sent next.1 next.2 ∧ 8 ≤ next.1.pack.bit := by
  have loaded := sending.loaded f held
  have line := sending.line
  have inside : f.count < f.buf.length := by
    have := loaded.count
    have := loaded.size
    omega
  obtain ⟨c, cEq⟩ : ∃ c, f.buf[f.count] = c := ⟨_, rfl⟩
  have dropEq : f.buf.drop f.count = c :: f.buf.drop (f.count + 1) := by
    rw [List.drop_eq_getElem_cons inside, cEq]
  have takeEq : f.buf.take (f.count + 1) = f.buf.take f.count ++ [c] := by
    rw [List.take_succ_eq_append_getElem inside, cEq]
  have unsentEq : h.unsent = c :: (f.buf.drop (f.count + 1) ++ [fcsLow f.buf, fcsHigh f.buf]) := by
    simp [unsent, held, dropEq]
  have room := octet_room sending.few c
  obtain ⟨loadedNext, loadedEq⟩ : ∃ next : HdlcState, next =
      { h with txFrame := some { f with count := f.count + 1, fcs := getFcs f.fcs c } } := ⟨_, rfl⟩
  have samePack : loadedNext.pack = h.pack := by rw [loadedEq]
  have sameOnes : loadedNext.txOnes = h.txOnes := by rw [loadedEq]
  have put := hdlcPutByte_spec loadedNext c (by
    rw [samePack, sameOnes]
    omega)
  have nextEq : refill (fetch answers) h asked = (loadedNext.hdlcPutByte c.toBitVec, asked) := by
    simp [refill, held, more, loadedEq, List.getD_eq_getElem?_getD, inside, cEq]
  have frameEq : (loadedNext.hdlcPutByte c.toBitVec).txFrame =
      some { f with count := f.count + 1, fcs := getFcs f.fcs c } := by
    rw [put.frame, loadedEq]
  rw [nextEq]
  constructor
  · constructor
    · intro g gHeld
      simp only [frameEq, Option.some.injEq] at gHeld
      subst gHeld
      constructor
      · exact loaded.size
      · have := loaded.size
        change f.count + 1 ≤ f.size
        omega
      · simp only [takeEq, fcsOf, List.foldl_append, List.foldl_cons, List.foldl_nil]
        rw [loaded.fcs]
        rfl
    · simp only [put.ones, sameOnes]
      exact onesAfter_le sending.few _
    · intro none
      simp [frameEq] at none
    · rw [← line, unsentEq]
      have register := put.register
      simp only [ahead, unsent, frameEq, Option.elim_some, bitsOf_cons, put.ones, sameOnes,
        samePack] at register ⊢
      rw [register, stuff_append, List.append_assoc]
  · have grown := put.length
    have wider := octet_grows loadedNext.txOnes c
    simp only
    omega

theorem refill_spec (sending : Sending answers sent h asked) (low : h.pack.bit < 8) :
    let next := refill (fetch answers) h asked
    Sending answers sent next.1 next.2 ∧ 8 ≤ next.1.pack.bit := by
  cases held : h.txFrame with
  | none => exact sending.refill_flag held low
  | some f =>
      by_cases done : f.count = f.size
      · exact sending.refill_fcs held done low
      · exact sending.refill_octet held done low

theorem refillFor_spec (sending : Sending answers sent h asked) {nbits : Nat} (some : 1 ≤ nbits)
    (small : nbits ≤ 8) :
    let next := refillFor (fetch answers) nbits nbits h asked
    Sending answers sent next.1 next.2 ∧ nbits ≤ next.1.pack.bit := by
  obtain ⟨rounds, roundsEq⟩ : ∃ rounds, nbits = rounds + 1 := ⟨nbits - 1, by omega⟩
  by_cases full : nbits ≤ h.pack.bit
  · rw [roundsEq] at full ⊢
    simp only [refillFor, full, if_true]
    exact ⟨sending, trivial⟩
  · have once := sending.refill_spec (by omega)
    have enough : nbits ≤ (refill (fetch answers) h asked).1.pack.bit := by omega
    have stays : ∀ left, refillFor (fetch answers) nbits left
        (refill (fetch answers) h asked).1 (refill (fetch answers) h asked).2 =
          refill (fetch answers) h asked := by
      intro left
      cases left with
      | zero => rfl
      | succ left => simp [refillFor, enough]
    have nextEq : refillFor (fetch answers) nbits (rounds + 1) h asked =
        refill (fetch answers) h asked := by
      rw [refillFor, if_neg full]
      exact stays rounds
    rw [show refillFor (fetch answers) nbits nbits h asked = refill (fetch answers) h asked by
      rw [← nextEq, ← roundsEq]]
    exact ⟨once.1, enough⟩

theorem take_symbol (sending : Sending answers sent h asked) {nbits : Nat}
    (small : nbits ≤ 8) (full : nbits ≤ h.pack.bit) :
    Sending answers
      (sent ++ window ((h.pack.data >>> (h.pack.bit - nbits)).setWidth 8 &&&
        BitVec.ofNat 8 (2 ^ nbits - 1)) nbits)
      { h with pack := { h.pack with bit := h.pack.bit - nbits } } asked := by
  obtain ⟨left, leftEq⟩ : ∃ left, h.pack.bit = left + nbits := ⟨h.pack.bit - nbits, by omega⟩
  have symbolEq : window ((h.pack.data >>> left).setWidth 8 &&& BitVec.ofNat 8 (2 ^ nbits - 1))
      nbits = window (h.pack.data >>> left) nbits := by
    apply window_congr
    intro i within
    have inside : i < 8 := by omega
    rw [BitVec.getLsbD_and, mask_getLsbD i within inside, BitVec.getLsbD_setWidth]
    simp [inside]
  constructor
  · exact sending.loaded
  · exact sending.few
  · exact sending.idle
  · rw [← sending.line, leftEq, Nat.add_sub_cancel, symbolEq]
    have cut : h.pack.bits = window (h.pack.data >>> left) nbits ++ window h.pack.data left := by
      rw [BitsState.bits, leftEq, ← window_take, ← window_drop h.pack.data left nbits,
        List.take_append_drop]
    simp only [ahead, cut]
    simp [unsent, BitsState.bits]

theorem getBits_spec {nbits : Nat} (some : 1 ≤ nbits) (small : nbits ≤ 8) (bitCnt : Nat)
    (sending : Sending answers sent h asked) :
    let next := modemHdlcGetBits (fetch answers) nbits bitCnt h asked
    Sending answers (sent ++ next.1.flatMap (symbolBits nbits)) next.2.1 next.2.2 := by
  induction bitCnt generalizing sent h asked with
  | zero => simpa [modemHdlcGetBits] using sending
  | succ bitCnt ih =>
      have ready := sending.refillFor_spec some small
      have taken := ready.1.take_symbol small ready.2
      have rest := ih taken
      simpa [modemHdlcGetBits, symbolBits] using rest

end Sending

end DModem.Hdlc
