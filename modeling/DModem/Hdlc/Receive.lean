/-
What `modem_hdlc_put_bits` makes of the line.

The receiver looks 8 bits ahead of the bit it takes.  On a line made of flags and
stuffed octets it finds a flag exactly where one was put, and takes the octets in
between back out.
-/

import DModem.Hdlc.Transmit

namespace DModem.Hdlc

open DModem.Lib

/-! ### Looking ahead -/

namespace HdlcState

def lookAhead (h : HdlcState) : BitVec 8 := (h.unpack.data >>> (h.unpack.bit - 8)).setWidth 8

theorem lookAhead_window (h : HdlcState) (enough : 8 ≤ h.unpack.bit) :
    window h.lookAhead 8 = h.unpack.bits.take 8 := by
  obtain ⟨left, leftEq⟩ : ∃ left, h.unpack.bit = left + 8 := ⟨h.unpack.bit - 8, by omega⟩
  rw [BitsState.bits, leftEq, window_take, lookAhead, leftEq, Nat.add_sub_cancel]
  apply window_congr
  intro i within
  rw [BitVec.getLsbD_setWidth]
  simp [within]

theorem flag_window : window hdlcFlag 8 = flagBits := rfl

theorem lookAhead_flag (h : HdlcState) (enough : 8 ≤ h.unpack.bit) :
    h.lookAhead = hdlcFlag ↔ flagBits <+: h.unpack.bits := by
  rw [← window_eq_iff, lookAhead_window h enough, flag_window, List.prefix_iff_eq_take]
  exact eq_comm

theorem top_bit (input : BitVec 8) : (input &&& 0x80 ≠ 0) ↔ input.getLsbD 7 = true := by
  revert input
  decide

theorem second_bit (input : BitVec 8) : (input &&& 0x40 ≠ 0) ↔ input.getLsbD 6 = true := by
  revert input
  decide

theorem lookAhead_top (h : HdlcState) (enough : 8 ≤ h.unpack.bit) {bit : Bool}
    {rest : List Bool} (bitsEq : h.unpack.bits = bit :: rest) :
    h.lookAhead.getLsbD 7 = bit := by
  have seen := lookAhead_window h enough
  rw [bitsEq, List.take_succ_cons, window, List.cons.injEq] at seen
  exact seen.1

theorem lookAhead_second (h : HdlcState) (enough : 8 ≤ h.unpack.bit) {first bit : Bool}
    {rest : List Bool} (bitsEq : h.unpack.bits = first :: bit :: rest) :
    h.lookAhead.getLsbD 6 = bit := by
  have seen := lookAhead_window h enough
  rw [bitsEq, List.take_succ_cons, List.take_succ_cons, window, window, List.cons.injEq,
    List.cons.injEq] at seen
  exact seen.2.1

/-! ### Taking an octet -/

def shiftBit (out : BitVec 8) (bit : Bool) : BitVec 8 :=
  if bit then out >>> 1 ||| 0x80 else out >>> 1

theorem shiftBit_octet (c : BitVec 8) : (bitsUp 8 c).foldl shiftBit 0 = c := by
  revert c
  decide +kernel

/-- The receiver takes data bits out of its register and changes nothing else. -/
structure Took (h : HdlcState) (bits : List Bool) (h' : HdlcState) : Prop where
  frame : h' =
    { h with unpack := { h.unpack with bit := h'.unpack.bit }, rxOnes := h'.rxOnes }
  ones : h'.rxOnes = onesAfter h.rxOnes bits
  register : h.unpack.bits = stuff h.rxOnes bits ++ h'.unpack.bits

theorem Took.trans {h h₁ h' : HdlcState} {front back : List Bool} (first : Took h front h₁)
    (second : Took h₁ back h') : Took h (front ++ back) h' := by
  constructor
  · rw [second.frame, first.frame]
  · rw [second.ones, first.ones, onesAfter_append]
  · rw [first.register, second.register, first.ones, stuff_append, List.append_assoc]

theorem Took.length {h h' : HdlcState} {bits : List Bool} (took : Took h bits h') :
    h.unpack.bit = (stuff h.rxOnes bits).length + h'.unpack.bit := by
  have sizes := congrArg List.length took.register
  simpa [BitsState.bits] using sizes

theorem bits_drop (s : BitsState) (k : Nat) (within : k ≤ s.bit) :
    BitsState.bits { s with bit := s.bit - k } = s.bits.drop k := by
  obtain ⟨left, leftEq⟩ : ∃ left, s.bit = left + k := ⟨s.bit - k, by omega⟩
  simp only [BitsState.bits, leftEq, Nat.add_sub_cancel, window_drop]

section OneBit

variable {h : HdlcState} {bit : Bool} {tail : List Bool}

theorem takeBit_spec (more : List Bool)
    (enough : (stuff h.rxOnes [bit]).length + 8 ≤ h.unpack.bit)
    (line : h.unpack.bits <+: stuff h.rxOnes (bit :: more) ++ tail) :
    Took h [bit] (h.takeBit h.lookAhead) ∧ ∀ out, shiftIn out h.lookAhead = shiftBit out bit := by
  have shows : ∀ first rest, h.unpack.bits = first :: rest → first = bit →
      ∀ out, shiftIn out h.lookAhead = shiftBit out bit := by
    intro first rest bitsEq same out
    unfold shiftIn shiftBit
    simp only [top_bit, lookAhead_top h (by omega) bitsEq, same]
  have lengthEq : h.unpack.bits.length = h.unpack.bit := window_length _ _
  cases bit with
  | false =>
      simp only [stuff, List.length_cons, List.length_nil] at enough
      cases bitsEq : h.unpack.bits with
      | nil =>
          rw [bitsEq] at lengthEq
          simp only [List.length_nil] at lengthEq
          omega
      | cons first rest =>
          rw [bitsEq, stuff, List.cons_append, List.cons_prefix_cons] at line
          have top := lookAhead_top h (by omega) bitsEq
          rw [line.1] at top
          have low : ¬ (h.lookAhead &&& 0x80 ≠ 0) := by
            rw [top_bit, top]
            exact Bool.false_ne_true
          constructor
          · unfold takeBit
            rw [if_neg low]
            constructor
            · rfl
            · rfl
            · rw [bits_drop h.unpack 1 (by omega), bitsEq, line.1]
              rfl
          · exact shows first rest bitsEq line.1
  | true =>
      by_cases full : h.rxOnes + 1 = 5
      · simp only [stuff, full, if_true, List.length_cons, List.length_nil] at enough
        rcases bitsEq : h.unpack.bits with _ | ⟨first, _ | ⟨second, rest⟩⟩
        · rw [bitsEq] at lengthEq
          simp only [List.length_nil] at lengthEq
          omega
        · rw [bitsEq] at lengthEq
          simp only [List.length_cons, List.length_nil] at lengthEq
          omega
        · simp only [bitsEq, stuff, full, if_true, List.cons_append,
            List.cons_prefix_cons] at line
          have top := lookAhead_top h (by omega) bitsEq
          have next := lookAhead_second h (by omega) bitsEq
          rw [line.1] at top
          rw [line.2.1] at next
          have high : h.lookAhead &&& 0x80 ≠ 0 := by
            rw [top_bit, top]
          have noError : ¬ (h.lookAhead &&& 0x40 ≠ 0) := by
            rw [second_bit, next]
            exact Bool.false_ne_true
          constructor
          · unfold takeBit
            rw [if_pos high, if_pos full, if_neg noError]
            constructor
            · rfl
            · simp [onesAfter, full]
            · simp only [Nat.sub_sub]
              rw [bits_drop h.unpack 2 (by omega), bitsEq, line.1, line.2.1]
              simp [stuff, full]
          · exact shows first (second :: rest) bitsEq line.1
      · simp only [stuff, full, if_false, List.length_cons, List.length_nil] at enough
        cases bitsEq : h.unpack.bits with
        | nil =>
            rw [bitsEq] at lengthEq
            simp only [List.length_nil] at lengthEq
            omega
        | cons first rest =>
            simp only [bitsEq, stuff, full, if_false, List.cons_append,
              List.cons_prefix_cons] at line
            have top := lookAhead_top h (by omega) bitsEq
            rw [line.1] at top
            have high : h.lookAhead &&& 0x80 ≠ 0 := by
              rw [top_bit, top]
            constructor
            · unfold takeBit
              rw [if_pos high, if_neg full]
              constructor
              · rfl
              · simp [onesAfter, full]
              · rw [bits_drop h.unpack 1 (by omega), bitsEq, line.1]
                simp [stuff, full]
            · exact shows first rest bitsEq line.1

end OneBit

theorem takeChar_spec (bits more tail : List Bool) (h : HdlcState) (out : BitVec 8)
    (clean : h.rxError = 0) (ends : tail.head? ≠ some true)
    (enough : (stuff h.rxOnes bits).length + 8 ≤ h.unpack.bit)
    (line : h.unpack.bits <+: stuff h.rxOnes (bits ++ more) ++ tail) :
    ∃ h', Took h bits h' ∧ takeChar bits.length h out = (h', .char (bits.foldl shiftBit out)) := by
  induction bits generalizing h out with
  | nil =>
      refine ⟨h, ?_, rfl⟩
      constructor
      · rfl
      · rfl
      · rfl
  | cons bit rest ih =>
      rw [show bit :: rest = [bit] ++ rest from rfl, stuff_append, List.length_append] at enough
      have wide : 8 ≤ h.unpack.bit := by omega
      have notFlag : h.lookAhead ≠ hdlcFlag := by
        intro flag
        have starts := (lookAhead_flag h wide).mp flag
        exact stuff_no_flag (bit :: rest ++ more) tail (by simp) ends (starts.trans line)
      have one := takeBit_spec (rest ++ more) (by omega) line
      have took := one.1
      have sizes := took.length
      have later := ih (h.takeBit h.lookAhead) (shiftBit out bit)
        (by rw [took.frame]; exact clean)
        (by rw [took.ones]; omega)
        (by
          rw [took.ones]
          rw [took.register, List.cons_append, show bit :: (rest ++ more) = [bit] ++ (rest ++ more)
            from rfl, stuff_append, List.append_assoc] at line
          exact (List.prefix_append_right_inj _).mp line)
      obtain ⟨h', tookRest, restEq⟩ := later
      refine ⟨h', took.trans tookRest, ?_⟩
      change takeChar (rest.length + 1) h out = _
      rw [takeChar]
      change (if h.lookAhead = hdlcFlag then _ else _) = _
      rw [if_neg notFlag, if_neg (by simp [clean])]
      change takeChar rest.length (h.takeBit h.lookAhead) (shiftIn out h.lookAhead) = _
      rw [one.2 out, restEq]
      rfl

theorem takeOctet_spec (c : UInt8) (more tail : List Bool) (h : HdlcState)
    (clean : h.rxError = 0) (few : h.rxOnes ≤ 4) (ends : tail.head? ≠ some true)
    (enough : 18 ≤ h.unpack.bit)
    (line : h.unpack.bits <+: stuff h.rxOnes (octetBits c ++ more) ++ tail) :
    ∃ h', Took h (octetBits c) h' ∧ takeChar 8 h 0 = (h', .char c.toBitVec) := by
  have room := octet_room few c
  obtain ⟨h', took, charEq⟩ := takeChar_spec (octetBits c) more tail h 0 clean ends (by omega) line
  rw [octetBits_length, octetBits, shiftBit_octet] at charEq
  exact ⟨h', took, charEq⟩

theorem takeFlag_spec (h : HdlcState) (enough : 8 ≤ h.unpack.bit)
    (flag : flagBits <+: h.unpack.bits) (out : BitVec 8) :
    takeChar 8 h out = (h.finishFrame, .flag (h.finishedFrame 0)) := by
  have seen := (lookAhead_flag h enough).mpr flag
  rw [takeChar]
  change (if h.lookAhead = hdlcFlag then _ else _) = _
  rw [if_pos seen]

/-! ### Symbols -/

theorem pushSymbol_bits (h : HdlcState) {nbits : Nat} (small : nbits ≤ 8) (symbol : UInt8)
    (room : h.unpack.bit ≤ 24) :
    (h.pushSymbol nbits symbol).unpack.bits = h.unpack.bits ++ symbolBits nbits symbol := by
  simp only [pushSymbol, BitsState.bits]
  rw [window_push h.unpack.bit nbits (by omega)]
  · congr 1
    apply window_congr
    intro i within
    have inside : i < 8 := by omega
    rw [BitVec.getLsbD_setWidth, BitVec.getLsbD_and, mask_getLsbD i within inside]
    simp [show i < 32 by omega]
  · intro i high
    rw [BitVec.getLsbD_setWidth, BitVec.getLsbD_and, BitVec.getLsbD_ofNat,
      Nat.testBit_two_pow_sub_one]
    simp [Nat.not_lt.mpr high]

end HdlcState

/-! ### The check sequence -/

theorem fcs_low_byte (fcs : BitVec 16) :
    ((fcs ^^^ (((fcs ^^^ 0xffff) &&& 0xff).setWidth 8).setWidth 16) &&& 0xff) = 0xff := by
  apply BitVec.eq_of_getLsbD_eq
  intro i within
  by_cases low : i < 8
  · interval_cases i <;> simp
  · interval_cases i <;> simp at low ⊢

theorem fcs_high_byte (fcs : BitVec 16) :
    ((((fcs >>> 8) ^^^ (0x0f78 : BitVec 16)) ^^^
      ((((fcs ^^^ 0xffff) >>> 8) &&& 0xff).setWidth 8).setWidth 16) &&& 0xff) = 0x87 := by
  apply BitVec.eq_of_getLsbD_eq
  intro i within
  interval_cases i <;> simp

theorem fcs_shifted (fcs : BitVec 16) :
    (((fcs >>> 8) ^^^ (0x0f78 : BitVec 16)) >>> 8) = 0x0f := by
  apply BitVec.eq_of_getLsbD_eq
  intro i within
  interval_cases i <;> simp

theorem fcs16Tab_ff : fcs16Tab.getD (0xff : BitVec 16).toNat 0 = 0x0f78 := by
  decide +kernel

theorem fcs16Tab_87 : fcs16Tab.getD (0x87 : BitVec 16).toNat 0 = 0xf0b7 := by
  decide +kernel

theorem fcsOf_checked (text : List UInt8) : fcsOf (checked text) = goodFcs := by
  have first : getFcs (fcsOf text) (fcsLow text) = (fcsOf text >>> 8) ^^^ 0x0f78 := by
    rw [getFcs, fcsLow, UInt8.toBitVec_ofBitVec, fcs_low_byte, fcs16Tab_ff]
  have second : getFcs ((fcsOf text >>> 8) ^^^ 0x0f78) (fcsHigh text) = goodFcs := by
    rw [getFcs, fcsHigh, UInt8.toBitVec_ofBitVec, fcs_high_byte, fcs_shifted, fcs16Tab_87]
    rfl
  rw [checked, fcsOf, List.foldl_append]
  change getFcs (getFcs (fcsOf text) (fcsLow text)) (fcsHigh text) = goodFcs
  rw [first, second]

end DModem.Hdlc
