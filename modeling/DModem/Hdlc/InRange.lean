/-
The HDLC packer with every bound checked, and why it stays within its bounds.

A refill starts with less than a symbol in the register, and the two bytes of the check sequence
add at most 20 bits.  The receiver looks at a character once there are 18 bits; what is left of the
character, its stuffed bits and the look-ahead always fit in what it still has.
-/

import DModem.Hdlc.Register
import DModem.Hdlc.Genuine

namespace DModem.Hdlc

open DModem.Lib

namespace Checked

/-! ### Transmitter -/

/-- One round of `HDLC_PUT_BYTE`. -/
def putBit (h : HdlcState) (input : BitVec 8) : Option HdlcState := do
  let s ← h.pack.appended packLimit 1 0
  if input &&& 1 ≠ 0 then
    let s : BitsState := { s with data := s.data ||| 1 }
    if h.txOnes + 1 = 5 then
      let s ← s.appended packLimit 1 0
      some { h with txOnes := 0, pack := s }
    else some { h with txOnes := h.txOnes + 1, pack := s }
  else some { h with txOnes := 0, pack := s }

def putBitsOf : Nat → HdlcState → BitVec 8 → Option HdlcState
  | 0, h, _ => some h
  | left + 1, h, input => do
      let h ← putBit h input
      putBitsOf left h (input >>> 1)

/-- `HDLC_PUT_BYTE`. -/
def hdlcPutByte (h : HdlcState) (input : BitVec 8) : Option HdlcState := putBitsOf 8 h input

section GetBits

variable {σ : Type} (getTxFrame : σ → Option Frame × σ)

def refill (h : HdlcState) (framer : σ) : Option (HdlcState × σ) :=
  match h.txFrame with
  | none => do
      let s ← h.pack.appended packLimit 8 (hdlcFlag.setWidth 32)
      let asked := getTxFrame framer
      some
        ({ h with
            pack := s
            txFrame := asked.1.map fun f => { f with fcs := initFcs, count := 0 } }, asked.2)
  | some f =>
      if f.count = f.size then do
        let fcs := f.fcs ^^^ 0xffff
        let h ← hdlcPutByte h ((fcs &&& 0xff).setWidth 8)
        let h ← hdlcPutByte h (((fcs >>> 8) &&& 0xff).setWidth 8)
        some ({ h with txOnes := 0, txFrame := none }, framer)
      else do
        let input := f.buf.getD f.count 0
        let h ← hdlcPutByte
          { h with txFrame := some { f with count := f.count + 1, fcs := getFcs f.fcs input } }
          input.toBitVec
        some (h, framer)

def transmitter : SymbolSource (HdlcState × σ) where
  pack x := x.1.pack
  setPack x s := ({ x.1 with pack := s }, x.2)
  symbol nbits word := UInt8.ofBitVec (word.setWidth 8 &&& BitVec.ofNat 8 (2 ^ nbits - 1))
  refill x := (refill getTxFrame x.1 x.2).map fun next => (next, true)

/-- `modem_hdlc_get_bits`, with the amount by which the mask is shifted. -/
def modemHdlcGetBits (rounds nbits bitCnt : Nat) (x : HdlcState × σ) :
    Option (List UInt8 × HdlcState × σ) := do
  let _ ← shiftAmount nbits
  let got ← (transmitter getTxFrame).getBits nbits rounds bitCnt x
  some (got.1, got.2.2)

end GetBits

/-! ### Receiver -/

/-- The count of bits after `s->bit--`. -/
def dropBit (h : HdlcState) : Option HdlcState := do
  let s ← h.unpack.moved unpackLimit (-1)
  some { h with unpack := s }

def finishFrame (h : HdlcState) : Option HdlcState := do
  let s ← h.unpack.moved unpackLimit (-8)
  some
    { h with
      unpack := s
      rxOnes := 0
      rxError := 0
      rxFrame := { h.rxFrame with fcs := initFcs, count := 0 } }

def takeBit (h : HdlcState) (input : BitVec 8) : Option HdlcState :=
  if input &&& 0x80 ≠ 0 then
    if h.rxOnes + 1 = 5 then do
      let h :=
        if input &&& 0x40 ≠ 0 then
          { h with rxError := h.rxError + 1, rxFrame := { h.rxFrame with count := 0 } }
        else h
      let h ← dropBit h
      dropBit { h with rxOnes := 0 }
    else dropBit { h with rxOnes := h.rxOnes + 1 }
  else dropBit { h with rxOnes := 0 }

/-- `for ( i=0 ; i<8 ; i++ )`, with `left` rounds to go. -/
def takeChar : Nat → HdlcState → BitVec 8 → Option (HdlcState × HdlcState.Taken)
  | 0, h, out => some (h, .char out)
  | left + 1, h, out => do
      let word ← h.unpack.shifted (h.unpack.bit - 8)
      let input := word.setWidth 8
      if input = hdlcFlag then
        let ended ← finishFrame h
        some (ended, .flag (h.finishedFrame (8 - (left + 1))))
      else if h.rxError ≠ 0 then
        let h ← dropBit h
        takeChar left h out
      else
        let h ← takeBit h input
        takeChar left h (HdlcState.shiftIn out input)

def putSymbol (h : HdlcState) (nbits : Nat) (symbol : UInt8) :
    Option (HdlcState × List Frame) := do
  let masked := symbol.toBitVec &&& BitVec.ofNat 8 (2 ^ nbits - 1)
  let s ← h.unpack.appended unpackLimit nbits (masked.setWidth 32)
  if s.bit < 8 + 8 + 2 then some ({ h with unpack := s }, [])
  else
    let taken ← takeChar 8 { h with unpack := s } 0
    match taken.2 with
    | .flag frame => some (taken.1, frame.toList)
    | .char out => some (taken.1.finishChar (UInt8.ofBitVec out), [])

/-- `modem_hdlc_put_bits`: what it returns, and the frames that it delivers. -/
def modemHdlcPutBits (nbits : Nat) : List UInt8 → HdlcState → Option (Nat × HdlcState × List Frame)
  | [], h => some (0, h, [])
  | symbol :: rest, h => do
      let next ← putSymbol h nbits symbol
      let later ← modemHdlcPutBits nbits rest next.1
      some (later.1 + 1, later.2.1, next.2 ++ later.2.2)

end Checked

/-! ### A byte goes out -/

section Transmitter

variable {h : HdlcState}

theorem checked_putBit {input : BitVec 8}
    (room : h.pack.bit + (stuff h.txOnes [input.getLsbD 0]).length ≤ packLimit) :
    Checked.putBit h input = some (h.putBit input) := by
  have narrow : packLimit ≤ 32 := by decide
  have longer := stuff_length_ge h.txOnes [input.getLsbD 0]
  rw [List.length_singleton] at longer
  have first : h.pack.appended packLimit 1 0 =
      some { bit := h.pack.bit + 1, data := h.pack.data <<< 1 ||| 0 } :=
    h.pack.appended_eq (k := 1) 0 (by decide) (by omega) narrow
  unfold Checked.putBit HdlcState.putBit
  rw [first]
  by_cases one : input.getLsbD 0 = true
  · have odd := (HdlcState.lowest_bit input).mpr one
    simp only [Option.bind_eq_bind, Option.bind_some]
    rw [if_pos odd, if_pos odd]
    rw [one] at room
    by_cases full : h.txOnes + 1 = 5
    · simp only [stuff, full, if_true, List.length_cons, List.length_nil] at room
      rw [if_pos full, if_pos full]
      have second : ({ bit := h.pack.bit + 1, data := h.pack.data <<< 1 ||| 0 ||| 1 } :
          BitsState).appended packLimit 1 0 =
            some
              { bit := h.pack.bit + 1 + 1
                data := (h.pack.data <<< 1 ||| 0 ||| 1) <<< 1 ||| 0 } :=
        BitsState.appended_eq (k := 1) _ 0 (by decide) (by dsimp only; omega) narrow
      rw [second]
      simp
    · rw [if_neg full, if_neg full]
      simp
  · have even : ¬ input &&& 1 ≠ 0 := fun low => one ((HdlcState.lowest_bit input).mp low)
    simp only [Option.bind_eq_bind, Option.bind_some]
    rw [if_neg even, if_neg even]
    simp

theorem checked_putBitsOf (left : Nat) {h : HdlcState} {input : BitVec 8}
    (room : h.pack.bit + (stuff h.txOnes (bitsUp left input)).length ≤ packLimit) :
    Checked.putBitsOf left h input = some (HdlcState.putBitsOf left h input) := by
  have narrow : packLimit ≤ 32 := by decide
  induction left generalizing h input with
  | zero => rfl
  | succ left ih =>
      rw [show bitsUp (left + 1) input = [input.getLsbD 0] ++ bitsUp left (input >>> 1) from rfl,
        stuff_append, List.length_append] at room
      have put := HdlcState.putBit_spec h input (by omega)
      have further : Checked.putBitsOf left (h.putBit input) (input >>> 1) =
          some (HdlcState.putBitsOf left (h.putBit input) (input >>> 1)) := by
        apply ih
        rw [put.length, put.ones]
        omega
      rw [Checked.putBitsOf, checked_putBit (by omega)]
      exact further

theorem checked_hdlcPutByte {h : HdlcState} (c : UInt8)
    (room : h.pack.bit + (stuff h.txOnes (octetBits c)).length ≤ packLimit) :
    Checked.hdlcPutByte h c.toBitVec = some (h.hdlcPutByte c.toBitVec) :=
  checked_putBitsOf 8 room

structure SameReceiver (h h' : HdlcState) : Prop where
  frame : h'.rxFrame = h.rxFrame
  error : h'.rxError = h.rxError
  ones : h'.rxOnes = h.rxOnes
  unpack : h'.unpack = h.unpack

theorem SameReceiver.trans {h₁ h' : HdlcState} (first : SameReceiver h h₁)
    (second : SameReceiver h₁ h') : SameReceiver h h' := by
  constructor
  · exact second.frame.trans first.frame
  · exact second.error.trans first.error
  · exact second.ones.trans first.ones
  · exact second.unpack.trans first.unpack

/-- The register has grown by at least `least` and at most `most` bits. -/
structure Longer (h h' : HdlcState) (least most : Nat) : Prop where
  few : h'.txOnes ≤ 4
  least : h.pack.bit + least ≤ h'.pack.bit
  most : h'.pack.bit ≤ h.pack.bit + most
  receiver : SameReceiver h h'

theorem Longer.trans {h₁ h' : HdlcState} {least most least' most' : Nat}
    (first : Longer h h₁ least most) (second : Longer h₁ h' least' most') :
    Longer h h' (least + least') (most + most') := by
  have := first.least
  have := first.most
  have := second.least
  have := second.most
  constructor
  · exact second.few
  · omega
  · omega
  · exact first.receiver.trans second.receiver

theorem byte_in_range (few : h.txOnes ≤ 4) (c : UInt8) (room : h.pack.bit + 10 ≤ packLimit) :
    Checked.hdlcPutByte h c.toBitVec = some (h.hdlcPutByte c.toBitVec) ∧
      Longer h (h.hdlcPutByte c.toBitVec) 8 10 := by
  have most := HdlcState.octet_room few c
  have least := HdlcState.octet_grows h.txOnes c
  have narrow : packLimit ≤ 32 := by decide
  have put := HdlcState.hdlcPutByte_spec h c (by omega)
  have grown := put.length
  constructor
  · exact checked_hdlcPutByte c (by omega)
  · constructor
    · rw [put.ones]
      exact onesAfter_le few _
    · omega
    · omega
    · rw [put.frame]
      exact ⟨rfl, rfl, rfl, rfl⟩

variable {σ : Type} (getTxFrame : σ → Option Frame × σ)

theorem refill_in_range (few : h.txOnes ≤ 4) (low : h.pack.bit < 8) (framer : σ) :
    Checked.refill getTxFrame h framer = some (h.refill getTxFrame framer) ∧
      Longer h (h.refill getTxFrame framer).1 8 20 := by
  unfold Checked.refill HdlcState.refill
  cases held : h.txFrame with
  | none =>
      have flag : h.pack.appended packLimit 8 (hdlcFlag.setWidth 32) =
          some { bit := h.pack.bit + 8, data := h.pack.data <<< 8 ||| hdlcFlag.setWidth 32 } :=
        h.pack.appended_eq (k := 8) _ (by decide) (by rw [packLimit]; omega) (by decide)
      rw [flag]
      constructor
      · rfl
      · constructor
        · exact few
        · exact Nat.le_refl _
        · simp only
          omega
        · exact ⟨rfl, rfl, rfl, rfl⟩
  | some f =>
      simp only
      by_cases done : f.count = f.size
      · rw [if_pos done, if_pos done]
        have first := byte_in_range few (UInt8.ofBitVec (((f.fcs ^^^ 0xffff) &&& 0xff).setWidth 8))
          (by rw [packLimit]; omega)
        have most := first.2.most
        have second := byte_in_range first.2.few
          (UInt8.ofBitVec ((((f.fcs ^^^ 0xffff) >>> 8) &&& 0xff).setWidth 8))
          (by rw [packLimit]; omega)
        constructor
        · simp only [first.1, second.1, Option.bind_eq_bind, Option.bind_some]
        · have both := first.2.trans second.2
          constructor
          · exact Nat.zero_le 4
          · exact Nat.le_trans (by omega) both.least
          · exact both.most
          · exact { both.receiver with }
      · rw [if_neg done, if_neg done]
        have room : h.pack.bit + 10 ≤ packLimit := by
          rw [packLimit]
          omega
        have byte := byte_in_range (h :=
            { h with
              txFrame := some
                { f with count := f.count + 1, fcs := getFcs f.fcs (f.buf.getD f.count 0) } })
          few (f.buf.getD f.count 0) room
        constructor
        · simp only [byte.1, Option.bind_eq_bind, Option.bind_some]
        · constructor
          · exact byte.2.few
          · exact byte.2.least
          · exact Nat.le_trans byte.2.most (Nat.add_le_add_left (by decide) h.pack.bit)
          · exact { byte.2.receiver with }

/-! ### A request -/

/-- Where a transmitter can be while it fills a request, beside the receiver of `h`. -/
structure Bounded (h : HdlcState) (x : HdlcState × σ) : Prop where
  few : x.1.txOnes ≤ 4
  within : x.1.pack.bit ≤ packLimit
  receiver : SameReceiver h x.1

theorem refillFor_full {nbits : Nat} (full : nbits ≤ h.pack.bit) (rounds : Nat) (framer : σ) :
    HdlcState.refillFor getTxFrame nbits rounds h framer = (h, framer) := by
  cases rounds with
  | zero => rfl
  | succ rounds => rw [HdlcState.refillFor, if_pos full]

theorem hdlc_computes {nbits : Nat} (positive : 1 ≤ nbits) (small : nbits ≤ 8) :
    (Checked.transmitter getTxFrame).Computes nbits (Bounded h)
      (fun bitCnt x => HdlcState.modemHdlcGetBits getTxFrame nbits bitCnt x.1 x.2)
      (fun x => (x.1.refill getTxFrame x.2, true)) fun _ x => ([], x) := by
  constructor
  · intro x good
    exact good.within
  · intro x good
    constructor
    · exact good.few
    · exact Nat.le_trans (Nat.sub_le _ _) good.within
    · exact { good.receiver with }
  · intro x good low
    have low' : x.1.pack.bit < 8 := Nat.lt_of_lt_of_le low small
    rcases refill_in_range getTxFrame good.few low' x.2 with ⟨same, longer⟩
    have most := longer.most
    have least := longer.least
    refine ⟨?_, ?_, ?_⟩
    · simp only [Checked.transmitter, same, Option.map_some]
    · constructor
      · exact longer.few
      · rw [packLimit]
        simp only
        omega
      · exact good.receiver.trans longer.receiver
    · intro _
      simp only [Checked.transmitter]
      omega
  · intro x
    rfl
  · intro bitCnt x full
    simp only [Checked.transmitter] at full
    simp only [HdlcState.modemHdlcGetBits, refillFor_full getTxFrame full]
    rfl
  · intro bitCnt x good low _
    simp only [Checked.transmitter] at low
    have low' : x.1.pack.bit < 8 := Nat.lt_of_lt_of_le low small
    have least := (refill_in_range getTxFrame good.few low' x.2).2.least
    have full : nbits ≤ (x.1.refill getTxFrame x.2).1.pack.bit := by omega
    obtain ⟨rounds, roundsEq⟩ : ∃ rounds, nbits = rounds + 1 := ⟨nbits - 1, by omega⟩
    have once : HdlcState.refillFor getTxFrame nbits nbits x.1 x.2 =
        x.1.refill getTxFrame x.2 := by
      have short : ¬ nbits ≤ x.1.pack.bit := Nat.not_le_of_lt low
      nth_rewrite 2 [roundsEq]
      rw [HdlcState.refillFor, if_neg short]
      exact refillFor_full getTxFrame full rounds _
    simp only [HdlcState.modemHdlcGetBits, once, refillFor_full getTxFrame full]
  · intro bitCnt x _ never
    cases never

theorem hdlc_getBits_in_range {nbits : Nat} (positive : 1 ≤ nbits) (small : nbits ≤ 8)
    {rounds bitCnt : Nat} (enough : bitCnt < rounds) (x : HdlcState × σ) (good : Bounded h x) :
    let total := HdlcState.modemHdlcGetBits getTxFrame nbits bitCnt x.1 x.2
    Checked.modemHdlcGetBits getTxFrame rounds nbits bitCnt x = some total ∧
      total.1.length = bitCnt ∧ Bounded h total.2 := by
  intro total
  rcases SymbolSource.getBits_spec (hdlc_computes getTxFrame positive small) rounds bitCnt x good
      (Or.inl enough) with ⟨⟨symbols, left, y⟩, ran, leaves⟩
  have met : left = 0 := leaves.all fun _ => rfl
  subst met
  have same : total = (symbols, y) := leaves.done rfl
  rw [Checked.modemHdlcGetBits, shiftAmount_eq (by omega)]
  simp only [Option.bind_eq_bind, Option.bind_some, ran, same]
  exact ⟨trivial, leaves.count, leaves.good⟩

end Transmitter

/-! ### A character comes in -/

section Receiver

variable {h : HdlcState}

theorem checked_dropBit (enough : 1 ≤ h.unpack.bit) (within : h.unpack.bit ≤ unpackLimit) :
    Checked.dropBit h = some { h with unpack := { h.unpack with bit := h.unpack.bit - 1 } } := by
  have moved : h.unpack.moved unpackLimit (-1) =
      some { h.unpack with bit := h.unpack.bit - 1 } := h.unpack.moved_down enough within
  rw [Checked.dropBit, moved]
  rfl

theorem checked_finishFrame (enough : 8 ≤ h.unpack.bit) (within : h.unpack.bit ≤ unpackLimit) :
    Checked.finishFrame h = some h.finishFrame := by
  have moved : h.unpack.moved unpackLimit (-8) =
      some { h.unpack with bit := h.unpack.bit - 8 } := h.unpack.moved_down enough within
  rw [Checked.finishFrame, moved]
  rfl

theorem checked_dropBoth (enough : 2 ≤ h.unpack.bit) (within : h.unpack.bit ≤ unpackLimit) :
    ((Checked.dropBit h).bind fun h => Checked.dropBit { h with rxOnes := 0 }) =
      some { h with unpack := { h.unpack with bit := h.unpack.bit - 1 - 1 }, rxOnes := 0 } := by
  have less : h.unpack.bit - 1 ≤ unpackLimit := Nat.le_trans (Nat.sub_le _ _) within
  rw [checked_dropBit (by omega) within, Option.bind_some, checked_dropBit (by simp only; omega)]
  exact less

theorem checked_takeBit {input : BitVec 8} (enough : 2 ≤ h.unpack.bit)
    (within : h.unpack.bit ≤ unpackLimit) :
    Checked.takeBit h input = some (h.takeBit input) := by
  have one : 1 ≤ h.unpack.bit := by omega
  unfold Checked.takeBit HdlcState.takeBit
  by_cases high : input &&& 0x80 ≠ 0
  · rw [if_pos high, if_pos high]
    by_cases fifth : h.rxOnes + 1 = 5
    · rw [if_pos fifth, if_pos fifth]
      by_cases sixth : input &&& 0x40 ≠ 0
      · simp only [if_pos sixth]
        exact checked_dropBoth enough within
      · simp only [if_neg sixth]
        exact checked_dropBoth enough within
    · rw [if_neg fifth, if_neg fifth]
      exact checked_dropBit one within
  · rw [if_neg high, if_neg high]
    exact checked_dropBit one within

theorem checked_takeChar (left : Nat) (h : HdlcState) (out : BitVec 8) (tame : h.Tame)
    (room : left + (h.rxOnes + left) / 5 + 8 ≤ h.unpack.bit)
    (within : h.unpack.bit ≤ unpackLimit) :
    Checked.takeChar left h out = some (HdlcState.takeChar left h out) := by
  induction left generalizing h out with
  | zero => rfl
  | succ left ih =>
      have enough : 8 ≤ h.unpack.bit := by omega
      have fits : h.unpack.bit - 8 ≤ 31 := by
        rw [unpackLimit] at within
        omega
      have word := h.unpack.shifted_eq
        (show (h.unpack.bit : Int) - 8 = (h.unpack.bit - 8 : Nat) by omega) fits
      have later := HdlcState.advance_room tame room
      have lower : h.advance.unpack.bit ≤ unpackLimit := by
        rw [HdlcState.advance_bit]
        exact Nat.le_trans (Nat.sub_le _ _) within
      have next := fun out => ih h.advance out (HdlcState.advance_tame tame) later lower
      rw [Checked.takeChar, HdlcState.takeChar, word]
      simp only [Option.bind_eq_bind, Option.bind_some]
      by_cases flag : (h.unpack.data >>> (h.unpack.bit - 8)).setWidth 8 = hdlcFlag
      · rw [if_pos flag, if_pos flag, checked_finishFrame enough within]
        rfl
      · rw [if_neg flag, if_neg flag]
        by_cases error : h.rxError ≠ 0
        · rw [if_pos error, if_pos error, checked_dropBit (by omega) within]
          have goes : h.advance =
              { h with unpack := { h.unpack with bit := h.unpack.bit - 1 } } := if_pos error
          have step := next out
          rw [goes] at step
          exact step
        · rw [if_neg error, if_neg error, checked_takeBit (by omega) within]
          have goes : h.advance = h.takeBit h.lookAhead := if_neg error
          have step := next (HdlcState.shiftIn out h.lookAhead)
          rw [goes] at step
          exact step

/-! ### Symbols come in -/

structure SameTransmitter (h h' : HdlcState) : Prop where
  ones : h'.txOnes = h.txOnes
  pack : h'.pack = h.pack

theorem SameTransmitter.advance {h' : HdlcState} (same : SameTransmitter h h') :
    SameTransmitter h h'.advance := by
  rcases HdlcState.advance_cases h' with
    ⟨_, _, next⟩ | ⟨_, _, _, next⟩ | ⟨_, _, _, _, next⟩ | ⟨_, _, _, _, _, next⟩ |
      ⟨_, _, _, _, _, next⟩
  all_goals
    rw [next]
    exact ⟨same.ones, same.pack⟩

structure Resting (h : HdlcState) : Prop where
  tame : h.Tame
  low : h.unpack.bit ≤ 17

theorem Resting.beside (resting : Resting h) {h' : HdlcState} (same : SameReceiver h h') :
    Resting h' := by
  have tame := resting.tame
  constructor
  · constructor
    · rw [same.ones]
      exact tame.ones
    · rw [same.error, same.frame]
      exact tame.empty
    · rw [same.frame]
      exact tame.size
    · rw [same.frame]
      exact tame.buffer
  · rw [same.unpack]
    exact resting.low

theorem placed_alone (h : HdlcState) : Placed h.unpack.bits h.unpack.bits 0 h := by
  constructor
  · exact List.prefix_rfl
  · rfl
  · rw [BitsState.bits, window_length, Nat.zero_add]

theorem hdlc_putSymbol_in_range {nbits : Nat} (small : nbits ≤ 8) (symbol : UInt8)
    (resting : Resting h) :
    Checked.putSymbol h nbits symbol = some (h.putSymbol nbits symbol) ∧
      Resting (h.putSymbol nbits symbol).1 ∧
      SameTransmitter h (h.putSymbol nbits symbol).1 := by
  have low := resting.low
  have within : h.unpack.bit + nbits ≤ unpackLimit := by
    rw [unpackLimit]
    omega
  have pushed := h.unpack.appended_eq
    ((symbol.toBitVec &&& BitVec.ofNat 8 (2 ^ nbits - 1)).setWidth 32)
    (show nbits ≤ 31 by omega) within (by decide)
  have tame : (h.pushSymbol nbits symbol).Tame := { resting.tame with }
  unfold Checked.putSymbol HdlcState.putSymbol
  simp only [pushed, Option.bind_eq_bind, Option.bind_some]
  by_cases few : h.unpack.bit + nbits < 8 + 8 + 2
  · have few' : (h.pushSymbol nbits symbol).unpack.bit < 8 + 8 + 2 := few
    rw [if_pos few, if_pos few']
    constructor
    · rfl
    · exact ⟨⟨tame, Nat.le_of_lt_succ few⟩, rfl, rfl⟩
  · have few' : ¬ (h.pushSymbol nbits symbol).unpack.bit < 8 + 8 + 2 := few
    rw [if_neg few, if_neg few']
    have enough : 18 ≤ (h.pushSymbol nbits symbol).unpack.bit := Nat.le_of_not_lt few'
    have ones := tame.ones
    have whole := checked_takeChar 8 (h.pushSymbol nbits symbol) 0 tame (by omega) within
    have lower := takeChar_low (placed_alone _) tame enough within
    have stays : (HdlcState.takeChar 8 (h.pushSymbol nbits symbol) 0).1.Tame ∧
        SameTransmitter h (HdlcState.takeChar 8 (h.pushSymbol nbits symbol) 0).1 := by
      rcases takeChar_walk (fun h' _ => SameTransmitter h h')
          (fun _ _ same _ _ _ _ => same.advance) 8 (h.pushSymbol nbits symbol) 0 0 ⟨rfl, rfl⟩
          (placed_alone _) tame (by omega) with
        ⟨h₁, pos₁, i, same₁, -, tame₁, -, -, -, ended⟩ | ⟨h₁, pos₁, out, same₁, -, tame₁, -, ended⟩
      · rw [ended]
        exact ⟨tame₁.finishFrame, same₁.ones, same₁.pack⟩
      · rw [ended]
        exact ⟨tame₁, same₁⟩
    change (Checked.takeChar 8 (h.pushSymbol nbits symbol) 0).bind _ = _ ∧ _
    rw [whole]
    simp only [Option.bind_some]
    cases taken : HdlcState.takeChar 8 (h.pushSymbol nbits symbol) 0 with
    | mk h₁ ended =>
        rw [taken] at lower stays
        cases ended with
        | flag frame => exact ⟨rfl, ⟨stays.1, lower⟩, stays.2⟩
        | char out =>
            have same : SameTransmitter h₁ (h₁.finishChar (UInt8.ofBitVec out)) ∧
                (h₁.finishChar (UInt8.ofBitVec out)).unpack = h₁.unpack := by
              unfold HdlcState.finishChar
              split_ifs
              all_goals exact ⟨⟨rfl, rfl⟩, rfl⟩
            refine ⟨rfl, ⟨stays.1.finishChar _, ?_⟩, ?_⟩
            · simp only
              rw [same.2]
              exact lower
            · exact ⟨same.1.ones.trans stays.2.ones, same.1.pack.trans stays.2.pack⟩

theorem hdlc_putBits_in_range {nbits : Nat} (small : nbits ≤ 8) (symbols : List UInt8)
    (resting : Resting h) :
    let total := HdlcState.modemHdlcPutBits nbits symbols h
    Checked.modemHdlcPutBits nbits symbols h = some (symbols.length, total) ∧
      Resting total.1 ∧ SameTransmitter h total.1 := by
  induction symbols generalizing h with
  | nil => exact ⟨rfl, resting, rfl, rfl⟩
  | cons symbol rest ih =>
      rcases hdlc_putSymbol_in_range small symbol resting with ⟨once, rests, same⟩
      rcases ih rests with ⟨later, stays, keeps⟩
      refine ⟨?_, stays, keeps.ones.trans same.ones, keeps.pack.trans same.pack⟩
      rw [Checked.modemHdlcPutBits, once]
      simp only [Option.bind_eq_bind, Option.bind_some, later]
      rfl

end Receiver

end DModem.Hdlc
