/-
The frame check sequence.

`GET_FCS` is eight steps of the reflected CRC with the polynomial 0x8408, so that the check of
the receiver passes for the check sequence of the transmitter only, and fails for every burst
of errors that is not longer than the register.
-/

import DModem.Lib.Crc
import DModem.Hdlc.Receive

namespace DModem.Hdlc

open DModem.Lib

def fcsPoly : BitVec 16 := 0x8408

theorem fcsPoly_top : fcsPoly.getLsbD (16 - 1) = true := by decide

/-! ### One octet -/

theorem fcs16Tab_crc {n : Nat} (octet : n < 256) :
    fcs16Tab.getD n 0 = crc fcsPoly (BitVec.ofNat 16 n) (List.replicate 8 false) := by
  revert n
  decide +kernel

theorem octetBits_packed (c : UInt8) : packed 16 (octetBits c) = c.toBitVec.setWidth 16 := by
  have every : ∀ n < 256, packed 16 (octetBits (UInt8.ofNat n)) =
      (UInt8.ofNat n).toBitVec.setWidth 16 := by
    decide +kernel
  have known := every c.toNat c.toNat_lt
  rw [UInt8.ofNat_toNat] at known
  exact known

theorem split_low (reg : BitVec 16) : reg = (reg &&& 0xff) ^^^ (reg &&& 0xff00) := by
  apply BitVec.eq_of_getLsbD_eq
  intro i inside
  interval_cases i <;> simp

theorem high_shifted (fcs : BitVec 16) (c : BitVec 8) :
    ((fcs ^^^ c.setWidth 16) &&& 0xff00) >>> 8 = fcs >>> 8 := by
  apply BitVec.eq_of_getLsbD_eq
  intro i inside
  interval_cases i <;> simp

theorem high_clear (reg : BitVec 16) : ∀ i < 8, (reg &&& 0xff00).getLsbD i = false := by
  intro i low
  interval_cases i <;> simp

theorem getFcs_crc (fcs : BitVec 16) (c : UInt8) :
    getFcs fcs c = crc fcsPoly fcs (octetBits c) := by
  have fits : (octetBits c).length ≤ 16 := by
    rw [octetBits_length]
    omega
  have octet : ((fcs ^^^ c.toBitVec.setWidth 16) &&& 0xff).toNat < 256 := by
    rw [BitVec.toNat_and]
    exact Nat.lt_succ_of_le Nat.and_le_right
  have entry := fcs16Tab_crc octet
  rw [BitVec.ofNat_toNat, BitVec.setWidth_eq] at entry
  rw [crc_packed fits, octetBits_packed, octetBits_length, split_low (fcs ^^^ _), crc_xor,
    crc_shift (high_clear _), high_shifted, ← entry, BitVec.xor_comm]
  rfl

theorem foldl_getFcs (fcs : BitVec 16) (octets : List UInt8) :
    octets.foldl getFcs fcs = crc fcsPoly fcs (bitsOf octets) := by
  induction octets generalizing fcs with
  | nil => rfl
  | cons c octets ih => rw [List.foldl_cons, ih, getFcs_crc, bitsOf_cons, crc_append]

theorem fcsOf_crc (octets : List UInt8) : fcsOf octets = crc fcsPoly initFcs (bitsOf octets) :=
  foldl_getFcs initFcs octets

/-! ### The check of the receiver -/

theorem octetBits_injective {c d : UInt8} (same : octetBits c = octetBits d) : c = d := by
  have packs := octetBits_packed d
  rw [← same, octetBits_packed] at packs
  apply UInt8.toBitVec_inj.mp
  have narrow := congrArg (BitVec.setWidth 8) packs
  rw [BitVec.setWidth_setWidth_of_le _ (by omega), BitVec.setWidth_setWidth_of_le _ (by omega),
    BitVec.setWidth_eq, BitVec.setWidth_eq] at narrow
  exact narrow

theorem bitsOf_pair (x y : UInt8) : bitsOf [x, y] = octetBits x ++ octetBits y := by
  simp [bitsOf]

theorem fcsOf_good_iff (text : List UInt8) (x y : UInt8) :
    fcsOf (text ++ [x, y]) = goodFcs ↔ x = fcsLow text ∧ y = fcsHigh text := by
  constructor
  · intro good
    have same : crc fcsPoly (fcsOf text) (bitsOf [x, y]) =
        crc fcsPoly (fcsOf text) (bitsOf [fcsLow text, fcsHigh text]) := by
      rw [← foldl_getFcs, ← foldl_getFcs, fcsOf, ← List.foldl_append, ← List.foldl_append]
      exact good.trans (fcsOf_checked text).symm
    have fits : (bitsOf [x, y]).length ≤ 16 := by
      rw [bitsOf_pair, List.length_append, octetBits_length, octetBits_length]
    have length : (bitsOf [x, y]).length = (bitsOf [fcsLow text, fcsHigh text]).length := rfl
    have bits := crc_bits_injective fcsPoly_top fits length same
    rw [bitsOf_pair, bitsOf_pair] at bits
    obtain ⟨low, high⟩ := List.append_inj bits rfl
    exact ⟨octetBits_injective low, octetBits_injective high⟩
  · rintro ⟨rfl, rfl⟩
    exact fcsOf_checked text

theorem fcsOf_burst {text received : List UInt8}
    (burst : Burst 16 (bitsOf (checked text)) (bitsOf received)) : fcsOf received ≠ goodFcs := by
  rw [← fcsOf_checked text, fcsOf_crc, fcsOf_crc]
  exact (crc_burst fcsPoly_top burst).symm

theorem finishedFrame_bad {h : HdlcState} {received : List UInt8} (i : Nat)
    (fcs : h.rxFrame.fcs = fcsOf received) (bad : fcsOf received ≠ goodFcs) :
    h.finishedFrame i = none := by
  rw [← fcs] at bad
  unfold HdlcState.finishedFrame
  rw [if_pos bad]
  split_ifs <;> rfl

/-- The check sequence is the CRC of the frame; it is the only one that the receiver takes, and
a frame with a burst of up to 16 wrong bits is dropped. -/
theorem fcs_is_crc :
    (∀ octets, octets.foldl getFcs initFcs = crc fcsPoly initFcs (bitsOf octets)) ∧
    (∀ text x y, fcsOf (text ++ [x, y]) = goodFcs ↔ x = fcsLow text ∧ y = fcsHigh text) ∧
    ∀ text received, Burst 16 (bitsOf (checked text)) (bitsOf received) →
      fcsOf received ≠ goodFcs ∧
      ∀ h : HdlcState, ∀ i, h.rxFrame.fcs = fcsOf received → h.finishedFrame i = none := by
  refine ⟨fcsOf_crc, fcsOf_good_iff, ?_⟩
  intro text received burst
  have bad := fcsOf_burst burst
  exact ⟨bad, fun h i fcs => finishedFrame_bad i fcs bad⟩

/-- Two wrong bits of an SABME frame. -/
theorem fcs_is_crc_sabme : fcsOf [0x03, 0x7c, fcsLow [0x03, 0x7f], fcsHigh [0x03, 0x7f]] ≠
    goodFcs := by
  apply (fcs_is_crc.2.2 [0x03, 0x7f] _ ?_).1
  refine ⟨octetBits 0x03, octetBits 0x7f, octetBits 0x7c,
    bitsOf [fcsLow [0x03, 0x7f], fcsHigh [0x03, 0x7f]], rfl, rfl, rfl, ?_, ?_⟩
  · rw [octetBits_length]
    omega
  · decide

end DModem.Hdlc
