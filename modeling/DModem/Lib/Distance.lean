/-
How far apart messages with the same cyclic redundancy check are.

Two messages of one length that leave the same remainder differ by a pattern of errors that
leaves none.  If the polynomial has an even number of terms, that pattern has an even number
of wrong bits, and if its order is not less than the length, it has not just two.
-/

import DModem.Lib.Crc

namespace DModem.Lib

def wrongBits (sent got : List Bool) : List Bool := List.zipWith (· ^^ ·) sent got

/-- In how many bits two messages of one length differ. -/
def distance (sent got : List Bool) : Nat := (wrongBits sent got).count true

def parity (bits : List Bool) : Bool := bits.foldr (· ^^ ·) false

section Parity

variable {bits : List Bool}

theorem parity_append (front back : List Bool) :
    parity (front ++ back) = (parity front ^^ parity back) := by
  induction front with
  | nil => exact (Bool.false_xor _).symm
  | cons bit front ih =>
      change (bit ^^ parity (front ++ back)) = ((bit ^^ parity front) ^^ parity back)
      rw [ih, Bool.xor_assoc]

theorem parity_count (bits : List Bool) : parity bits = decide (bits.count true % 2 = 1) := by
  induction bits with
  | nil => rfl
  | cons bit bits ih =>
      change (bit ^^ parity bits) = _
      rw [ih]
      cases bit with
      | true =>
          rw [List.count_cons_self, Bool.true_xor, ← decide_not, decide_eq_decide]
          omega
      | false => rw [List.count_cons_of_ne (by decide), Bool.false_xor]

theorem parity_xor {α : Type} (f g : α → Bool) (items : List α) :
    parity (items.map fun i => f i ^^ g i) = (parity (items.map f) ^^ parity (items.map g)) := by
  induction items with
  | nil => rfl
  | cons i items ih =>
      change ((f i ^^ g i) ^^ parity (items.map fun i => f i ^^ g i)) =
        ((f i ^^ parity (items.map f)) ^^ (g i ^^ parity (items.map g)))
      rw [ih]
      generalize parity (items.map f) = first
      generalize parity (items.map g) = second
      cases f i <;> cases g i <;> cases first <;> cases second <;> rfl

/-- A message with `n + 1` ones begins with zeros and a one. -/
theorem first_one {n : Nat} (some : bits.count true = n + 1) :
    ∃ zeros rest, bits = List.replicate zeros false ++ true :: rest ∧ rest.count true = n := by
  induction bits with
  | nil => cases some
  | cons bit bits ih =>
      cases bit with
      | true =>
          rw [List.count_cons_self] at some
          exact ⟨0, bits, rfl, by omega⟩
      | false =>
          rw [List.count_cons_of_ne (by decide)] at some
          obtain ⟨zeros, rest, split, left⟩ := ih some
          refine ⟨zeros + 1, rest, ?_, left⟩
          rw [split]
          rfl

theorem all_zeros (none : bits.count true = 0) : bits = List.replicate bits.length false := by
  rw [List.eq_replicate_iff]
  refine ⟨rfl, ?_⟩
  intro bit member
  cases bit with
  | false => rfl
  | true => exact absurd member (List.count_eq_zero.mp none)

end Parity

section Distance

variable {sent got : List Bool}

theorem wrongBits_length (length : sent.length = got.length) :
    (wrongBits sent got).length = sent.length := by
  rw [wrongBits, List.length_zipWith, length, Nat.min_self]

theorem eq_of_distance_zero (length : sent.length = got.length) (same : distance sent got = 0) :
    sent = got := by
  induction sent generalizing got with
  | nil => exact (List.eq_nil_of_length_eq_zero length.symm).symm
  | cons bit sent ih =>
      cases got with
      | nil => cases length
      | cons bit' got =>
          have split : distance (bit :: sent) (bit' :: got) =
              ((bit ^^ bit') :: wrongBits sent got).count true := rfl
          rw [split] at same
          cases equal : bit ^^ bit' with
          | true =>
              rw [equal, List.count_cons_self] at same
              cases same
          | false =>
              rw [equal, List.count_cons_of_ne (by decide)] at same
              rw [ih (Nat.succ.inj length) same, bne_eq_false_iff_eq.mp equal]

end Distance

section Remainders

variable {w : Nat} {poly : BitVec w} {reg other : BitVec w} {bits sent got : List Bool}

theorem crc_wrongBits (length : sent.length = got.length) :
    crc poly reg sent ^^^ crc poly other got = crc poly (reg ^^^ other) (wrongBits sent got) := by
  induction sent generalizing got reg other with
  | nil =>
      rw [List.eq_nil_of_length_eq_zero length.symm]
      rfl
  | cons bit sent ih =>
      cases got with
      | nil => cases length
      | cons bit' got =>
          have split : wrongBits (bit :: sent) (bit' :: got) =
              (bit ^^ bit') :: wrongBits sent got := rfl
          rw [split, crc_cons, crc_cons, crc_cons, ih (Nat.succ.inj length), crcStep_xor]

/-! ### An even number of terms -/

def regParity (reg : BitVec w) : Bool := parity ((List.range w).map reg.getLsbD)

theorem regParity_xor (reg other : BitVec w) :
    regParity (reg ^^^ other) = (regParity reg ^^ regParity other) := by
  unfold regParity
  rw [← parity_xor]
  congr 1
  apply List.map_congr_left
  intro i _
  exact BitVec.getLsbD_xor

theorem regParity_shift (reg : BitVec w) :
    regParity (reg >>> 1) = (reg.getLsbD 0 ^^ regParity reg) := by
  have shifted : (List.range w).map (reg >>> 1).getLsbD =
      (List.range w).map (reg.getLsbD ∘ Nat.succ) := by
    apply List.map_congr_left
    intro i _
    rw [BitVec.getLsbD_ushiftRight, Nat.add_comm]
    rfl
  have front : parity ((List.range (w + 1)).map reg.getLsbD) =
      (reg.getLsbD 0 ^^ regParity (reg >>> 1)) := by
    rw [List.range_succ_eq_map, List.map_cons, List.map_map, ← shifted]
    rfl
  have back : parity ((List.range (w + 1)).map reg.getLsbD) = regParity reg := by
    have high : reg.getLsbD w = false := BitVec.getLsbD_of_ge _ _ (Nat.le_refl w)
    rw [List.range_succ, List.map_append, parity_append]
    change (regParity reg ^^ (reg.getLsbD w ^^ false)) = _
    rw [high, Bool.xor_false, Bool.xor_false]
  rw [← back, front, ← Bool.xor_assoc, Bool.xor_self, Bool.false_xor]

theorem regParity_zero : regParity (0 : BitVec w) = false := by
  have zeros : (List.range w).map (0 : BitVec w).getLsbD = List.replicate w false := by
    rw [List.eq_replicate_iff]
    refine ⟨by simp, ?_⟩
    intro bit member
    obtain ⟨i, _, same⟩ := List.mem_map.mp member
    rw [← same]
    exact BitVec.getLsbD_zero
  unfold regParity
  rw [zeros, parity_count, List.count_replicate, if_neg (by decide)]
  rfl

theorem regParity_crc (odd : regParity poly = true) :
    regParity (crc poly reg bits) = (regParity reg ^^ parity bits) := by
  induction bits generalizing reg with
  | nil => exact (Bool.xor_false _).symm
  | cons bit bits ih =>
      have step : regParity (crcStep poly reg bit) = (regParity reg ^^ bit) := by
        unfold crcStep
        by_cases low : (reg.getLsbD 0 ^^ bit) = true
        · rw [if_pos low, regParity_xor, regParity_shift, odd]
          cases first : reg.getLsbD 0 <;> cases bit <;> simp_all
        · rw [if_neg low, regParity_shift]
          cases first : reg.getLsbD 0 <;> cases bit <;> simp_all
      rw [crc_cons, ih, step, Bool.xor_assoc]
      rfl

/-! ### Two wrong bits -/

/-- Zeros that follow do not bring the register to `goal` in fewer than `n` steps. -/
def avoids (poly goal : BitVec w) : Nat → BitVec w → Bool
  | 0, _ => true
  | n + 1, reg => reg != goal && avoids poly goal n (crcStep poly reg false)

theorem avoids_ne {goal : BitVec w} {n : Nat} (never : avoids poly goal n reg = true) {zeros : Nat}
    (few : zeros < n) : crc poly reg (List.replicate zeros false) ≠ goal := by
  induction n generalizing reg zeros with
  | zero => exact absurd few (Nat.not_lt_zero zeros)
  | succ n ih =>
      rw [avoids, Bool.and_eq_true] at never
      cases zeros with
      | zero => exact bne_iff_ne.mp never.1
      | succ zeros => exact ih never.2 (Nat.lt_of_succ_lt_succ few)

theorem crc_zeros (zeros : Nat) : crc poly 0 (List.replicate zeros false) = 0 := by
  induction zeros with
  | zero => rfl
  | succ zeros ih =>
      rw [List.replicate_succ, crc_cons, crcStep_zero]
      exact ih

section Top

variable (top : poly.getLsbD (w - 1) = true)
include top

theorem eq_zero_of_crc_zeros {zeros : Nat}
    (gone : crc poly reg (List.replicate zeros false) = 0) : reg = 0 :=
  crc_register_injective top (gone.trans (crc_zeros zeros).symm)

theorem eq_one_of_crcStep (gone : crcStep poly reg true = 0) : reg = 1 := by
  have alone : crcStep poly (1 : BitVec w) true = 0 := by
    have wide : 0 < w := by
      by_contra narrow
      rw [BitVec.getLsbD_of_ge _ _ (by omega)] at top
      cases top
    have low : (1 : BitVec w).getLsbD 0 = true := by simp [wide]
    unfold crcStep
    rw [low, Bool.xor_self, if_neg Bool.false_ne_true]
    apply BitVec.eq_of_getLsbD_eq
    intro i inside
    simp
  exact crcStep_injective top (gone.trans alone.symm)

theorem crc_two_ones {n : Nat} (never : avoids poly 1 n poly = true) (two : bits.count true = 2)
    (short : bits.length ≤ n + 1) : crc poly 0 bits ≠ 0 := by
  obtain ⟨before, rest, split, one⟩ := first_one two
  obtain ⟨apart, last, split', none⟩ := first_one one
  have lengths := congrArg List.length split
  rw [split', List.length_append, List.length_cons, List.length_append, List.length_replicate,
    List.length_replicate, List.length_cons] at lengths
  have first : crcStep poly 0 true = poly := by
    unfold crcStep
    simp
  intro gone
  rw [split, crc_append, crc_zeros, crc_cons, first, split', crc_append, crc_cons,
    all_zeros none] at gone
  have met := eq_one_of_crcStep top (eq_zero_of_crc_zeros top gone)
  exact avoids_ne never (by omega) met

/-- **Distance.**  Different messages of one length that leave the same remainder differ in an
even number of bits and in four at least. -/
theorem crc_distance (odd : regParity poly = true) {n : Nat} (never : avoids poly 1 n poly = true)
    (length : sent.length = got.length) (short : sent.length ≤ n + 1) (differs : sent ≠ got)
    (same : crc poly reg sent = crc poly reg got) :
    4 ≤ distance sent got ∧ distance sent got % 2 = 0 := by
  have gone : crc poly 0 (wrongBits sent got) = 0 := by
    have difference : crc poly reg sent ^^^ crc poly reg got =
        crc poly (reg ^^^ reg) (wrongBits sent got) := crc_wrongBits length
    rw [same, BitVec.xor_self, BitVec.xor_self] at difference
    exact difference.symm
  have even : parity (wrongBits sent got) = false := by
    have parities : regParity (crc poly 0 (wrongBits sent got)) =
        (regParity (0 : BitVec w) ^^ parity (wrongBits sent got)) := regParity_crc odd
    rw [gone, regParity_zero, Bool.false_xor] at parities
    exact parities.symm
  rw [parity_count, decide_eq_false_iff_not] at even
  change ¬distance sent got % 2 = 1 at even
  have some : distance sent got ≠ 0 := fun zero => differs (eq_of_distance_zero length zero)
  have notTwo : distance sent got ≠ 2 := by
    intro two
    apply crc_two_ones top never two _ gone
    rw [wrongBits_length length]
    exact short
  omega

end Top

end Remainders

end DModem.Lib
