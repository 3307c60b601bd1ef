/-
Cyclic redundancy checks, a bit at a time.

The register is taken with its lowest bit first.  A step is linear over exclusive or, and it
loses nothing if the highest bit of the polynomial is set; so two messages that differ within
the width of the register leave different remainders.
-/

import Mathlib

namespace DModem.Lib

/-- Messages that differ within `n` bits in a row. -/
def Burst (n : Nat) (sent got : List Bool) : Prop :=
  ∃ front burst burst' back, sent = front ++ burst ++ back ∧ got = front ++ burst' ++ back ∧
    burst.length = burst'.length ∧ burst.length ≤ n ∧ burst ≠ burst'

section Crc

variable {w : Nat} (poly : BitVec w)

def crcStep (reg : BitVec w) (bit : Bool) : BitVec w :=
  if (reg.getLsbD 0 ^^ bit) = true then reg >>> 1 ^^^ poly else reg >>> 1

def crc (reg : BitVec w) (bits : List Bool) : BitVec w := bits.foldl (crcStep poly) reg

def packed (w : Nat) (bits : List Bool) : BitVec w := (BitVec.ofBoolListLE bits).setWidth w

variable {poly} {reg other : BitVec w} {bits : List Bool}

@[simp]
theorem crc_nil : crc poly reg [] = reg := rfl

theorem crc_cons (bit : Bool) : crc poly reg (bit :: bits) = crc poly (crcStep poly reg bit) bits :=
  rfl

theorem crc_append (front back : List Bool) :
    crc poly reg (front ++ back) = crc poly (crc poly reg front) back := List.foldl_append

/-! ### Linearity -/

theorem crcStep_xor (bit bit' : Bool) :
    crcStep poly (reg ^^^ other) (bit ^^ bit') =
      crcStep poly reg bit ^^^ crcStep poly other bit' := by
  have cancels : ∀ a b p : BitVec w, a ^^^ b = a ^^^ p ^^^ (b ^^^ p) := by
    intro a b p
    rw [BitVec.xor_assoc, BitVec.xor_comm b p, ← BitVec.xor_assoc p, BitVec.xor_self,
      BitVec.zero_xor]
  have parity : ((reg.getLsbD 0 ^^ other.getLsbD 0) ^^ (bit ^^ bit')) =
      ((reg.getLsbD 0 ^^ bit) ^^ (other.getLsbD 0 ^^ bit')) := by
    rw [Bool.xor_assoc, Bool.xor_assoc, Bool.xor_left_comm (other.getLsbD 0)]
  unfold crcStep
  rw [BitVec.getLsbD_xor, BitVec.ushiftRight_xor_distrib, parity]
  generalize (reg.getLsbD 0 ^^ bit) = first
  generalize (other.getLsbD 0 ^^ bit') = second
  cases first with
  | true =>
      cases second with
      | true => exact cancels _ _ _
      | false =>
          change reg >>> 1 ^^^ other >>> 1 ^^^ poly = reg >>> 1 ^^^ poly ^^^ other >>> 1
          ac_rfl
  | false =>
      cases second with
      | true => exact BitVec.xor_assoc _ _ _
      | false => rfl

theorem crcStep_zero : crcStep poly 0 false = 0 := by
  simp [crcStep]

/-! ### The register -/

theorem packed_getLsbD {i : Nat} (inside : i < w) :
    (packed w bits).getLsbD i = bits.getD i false := by
  simp [packed, inside, BitVec.getLsbD_ofBoolListLE]

theorem packed_cons_step {bit : Bool} (fits : bits.length < w) :
    crcStep poly (packed w (bit :: bits)) bit = packed w bits := by
  have first : (packed w (bit :: bits)).getLsbD 0 = bit := by
    rw [packed_getLsbD (by omega)]
    rfl
  unfold crcStep
  rw [first, Bool.xor_self, if_neg Bool.false_ne_true]
  apply BitVec.eq_of_getLsbD_eq
  intro i inside
  rw [BitVec.getLsbD_ushiftRight, packed_getLsbD inside]
  by_cases within : 1 + i < w
  · rw [packed_getLsbD within, Nat.add_comm, List.getD_cons_succ]
  · rw [BitVec.getLsbD_of_ge _ _ (by omega), List.getD_eq_default _ _ (by omega)]

theorem crc_packed (fits : bits.length ≤ w) :
    crc poly reg bits = crc poly (reg ^^^ packed w bits) (List.replicate bits.length false) := by
  induction bits generalizing reg with
  | nil =>
      have zero : packed w [] = 0 := by
        apply BitVec.eq_of_getLsbD_eq
        intro i inside
        rw [packed_getLsbD inside]
        simp
      rw [zero]
      exact BitVec.xor_zero.symm
  | cons bit bits ih =>
      rw [List.length_cons] at fits
      have step : crcStep poly (reg ^^^ packed w (bit :: bits)) false =
          crcStep poly reg bit ^^^ packed w bits := by
        have shorter : bits.length < w := by omega
        have packedStep : crcStep poly (packed w (bit :: bits)) bit = packed w bits :=
          packed_cons_step shorter
        rw [← packedStep, ← crcStep_xor, Bool.xor_self]
      rw [crc_cons, ih (by omega), List.length_cons, List.replicate_succ, crc_cons, step]

theorem crc_shift {n : Nat} (clear : ∀ i < n, reg.getLsbD i = false) :
    crc poly reg (List.replicate n false) = reg >>> n := by
  induction n generalizing reg with
  | zero => simp
  | succ n ih =>
      have step : crcStep poly reg false = reg >>> 1 := by
        unfold crcStep
        rw [clear 0 (Nat.succ_pos n)]
        rfl
      rw [List.replicate_succ, crc_cons, step, ih]
      · rw [← BitVec.shiftRight_add, Nat.add_comm]
      · intro i within
        rw [BitVec.getLsbD_ushiftRight]
        exact clear (1 + i) (by omega)

theorem crc_xor (reg other : BitVec w) (n : Nat) :
    crc poly (reg ^^^ other) (List.replicate n false) =
      crc poly reg (List.replicate n false) ^^^ crc poly other (List.replicate n false) := by
  induction n generalizing reg other with
  | zero => rfl
  | succ n ih =>
      rw [List.replicate_succ, crc_cons, crc_cons, crc_cons, ← ih, ← crcStep_xor, Bool.xor_self]

/-! ### Nothing is lost -/

section Lossless

variable (top : poly.getLsbD (w - 1) = true)
include top

theorem crcStep_eq_zero (gone : crcStep poly reg false = 0) : reg = 0 := by
  have wide : 0 < w := by
    by_contra narrow
    rw [BitVec.getLsbD_of_ge _ _ (by omega)] at top
    cases top
  have high : (reg >>> 1).getLsbD (w - 1) = false := by
    rw [BitVec.getLsbD_ushiftRight]
    exact BitVec.getLsbD_of_ge _ _ (by omega)
  unfold crcStep at gone
  rw [Bool.xor_false] at gone
  by_cases low : reg.getLsbD 0 = true
  · rw [if_pos low] at gone
    have bit := congrArg (fun reg => reg.getLsbD (w - 1)) gone
    simp [high, top] at bit
  · rw [if_neg low] at gone
    apply BitVec.eq_of_getLsbD_eq
    intro i inside
    cases i with
    | zero => simpa using low
    | succ i =>
        have bit := congrArg (fun reg => reg.getLsbD i) gone
        rw [BitVec.getLsbD_ushiftRight, Nat.add_comm] at bit
        simpa using bit

theorem crcStep_injective {bit : Bool} (same : crcStep poly reg bit = crcStep poly other bit) :
    reg = other := by
  apply BitVec.xor_eq_zero_iff.mp
  apply crcStep_eq_zero top
  have split : crcStep poly (reg ^^^ other) (bit ^^ bit) =
      crcStep poly reg bit ^^^ crcStep poly other bit := crcStep_xor bit bit
  rw [Bool.xor_self, same, BitVec.xor_self] at split
  exact split

theorem crc_register_injective (same : crc poly reg bits = crc poly other bits) :
    reg = other := by
  induction bits generalizing reg other with
  | nil => exact same
  | cons bit bits ih => exact crcStep_injective top (ih same)

theorem crc_bits_injective {bits' : List Bool} (fits : bits.length ≤ w)
    (length : bits.length = bits'.length) (same : crc poly reg bits = crc poly reg bits') :
    bits = bits' := by
  have fits' : bits'.length ≤ w := by omega
  have padded := (crc_packed fits).symm.trans (same.trans (crc_packed fits'))
  rw [length] at padded
  have packs := crc_register_injective top padded
  rw [BitVec.xor_right_inj] at packs
  apply List.ext_getElem length
  intro i inside inside'
  have bit : (packed w bits).getLsbD i = (packed w bits').getLsbD i := by rw [packs]
  rw [packed_getLsbD (by omega), packed_getLsbD (by omega)] at bit
  simpa [List.getD_eq_getElem?_getD, inside, inside'] using bit

theorem crc_burst {sent got : List Bool} (burst : Burst w sent got) :
    crc poly reg sent ≠ crc poly reg got := by
  obtain ⟨front, wrong, right, back, rfl, rfl, length, fits, differs⟩ := burst
  intro same
  rw [crc_append, crc_append, crc_append, crc_append] at same
  exact differs (crc_bits_injective top fits length (crc_register_injective top same))

end Lossless

end Crc

end DModem.Lib
