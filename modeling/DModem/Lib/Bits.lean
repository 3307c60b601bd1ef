/-
Shift registers and bit stuffing over lists of bits.

A register that is filled from the right holds its last `n` bits as the list
`window data n`, oldest bit first.  Bit stuffing inserts a zero after five ones,
so that six ones in a row only occur in a flag.
-/

import Mathlib

namespace DModem.Lib

/-! ### Shift registers -/

/-- The low `n` bits of a register, the highest of them first. -/
def window {w : Nat} (data : BitVec w) : Nat → List Bool
  | 0 => []
  | n + 1 => data.getLsbD n :: window data n

section Window

variable {w : Nat} {data symbol : BitVec w}

@[simp]
theorem window_length (data : BitVec w) (n : Nat) : (window data n).length = n := by
  induction n with
  | zero => rfl
  | succ n ih => rw [window, List.length_cons, ih]

theorem window_congr {v : Nat} {other : BitVec v} {n : Nat}
    (same : ∀ i < n, data.getLsbD i = other.getLsbD i) : window data n = window other n := by
  induction n with
  | zero => rfl
  | succ n ih =>
      rw [window, window, same n (Nat.lt_succ_self n),
        ih (fun i within => same i (Nat.lt_succ_of_lt within))]

theorem getLsbD_of_window {v : Nat} {other : BitVec v} {n : Nat}
    (same : window data n = window other n) : ∀ i < n, data.getLsbD i = other.getLsbD i := by
  induction n with
  | zero =>
      intro i within
      omega
  | succ n ih =>
      rw [window, window, List.cons.injEq] at same
      intro i within
      rcases Nat.lt_succ_iff_lt_or_eq.mp within with below | top
      · exact ih same.2 i below
      · subst top
        exact same.1

theorem window_drop (data : BitVec w) (n k : Nat) :
    (window data (n + k)).drop k = window data n := by
  induction k with
  | zero => rfl
  | succ k ih => rw [← Nat.add_assoc, window, List.drop_succ_cons, ih]

/-- The oldest `k` bits of a register are the low bits once the others are
shifted out. -/
theorem window_take (data : BitVec w) (n k : Nat) :
    (window data (n + k)).take k = window (data >>> n) k := by
  induction k with
  | zero => rfl
  | succ k ih =>
      rw [← Nat.add_assoc, window, List.take_succ_cons, ih, window]
      congr 1
      rw [BitVec.getLsbD_ushiftRight]

theorem window_push (n k : Nat) (fits : n + k ≤ w)
    (small : ∀ i, k ≤ i → symbol.getLsbD i = false) :
    window (data <<< k ||| symbol) (n + k) = window data n ++ window symbol k := by
  induction n with
  | zero =>
      rw [Nat.zero_add]
      apply window_congr
      intro i within
      simp [within]
  | succ n ih =>
      rw [Nat.succ_add, window, ih (by omega), window, List.cons_append]
      congr 1
      rw [BitVec.getLsbD_or, BitVec.getLsbD_shiftLeft, small (n + k) (by omega)]
      have inside : n + k < w := by omega
      simp [inside]

theorem window_eq_iff {v other : BitVec w} : window v w = window other w ↔ v = other := by
  constructor
  · intro same
    apply BitVec.eq_of_getLsbD_eq
    intro i within
    exact getLsbD_of_window same i within
  · intro same
    rw [same]

end Window

/-! ### Bit stuffing -/

def flagBits : List Bool := [false, true, true, true, true, true, true, false]

/-- The bits on the line, when `ones` ones in a row went before. -/
def stuff : Nat → List Bool → List Bool
  | _, [] => []
  | _, false :: rest => false :: stuff 0 rest
  | ones, true :: rest =>
      if ones + 1 = 5 then true :: false :: stuff 0 rest
      else true :: stuff (ones + 1) rest

/-- The count of ones that `stuff` ends with. -/
def onesAfter : Nat → List Bool → Nat
  | ones, [] => ones
  | _, false :: rest => onesAfter 0 rest
  | ones, true :: rest => if ones + 1 = 5 then onesAfter 0 rest else onesAfter (ones + 1) rest

def unstuff : Nat → List Bool → List Bool
  | _, [] => []
  | ones, bit :: rest =>
      if ones = 5 then unstuff 0 rest
      else if bit then true :: unstuff (ones + 1) rest
      else false :: unstuff 0 rest

theorem unstuff_stuff {ones : Nat} (few : ones ≤ 4) (bits : List Bool) :
    unstuff ones (stuff ones bits) = bits := by
  induction bits generalizing ones with
  | nil => rfl
  | cons bit rest ih =>
      have short : ones ≠ 5 := by omega
      cases bit with
      | false => simp [stuff, unstuff, short, ih]
      | true =>
          by_cases full : ones + 1 = 5
          · simp [stuff, unstuff, short, full, ih]
          · simp only [stuff, unstuff, short, full, if_false, if_true]
            rw [ih (by omega)]

theorem stuff_append (ones : Nat) (front back : List Bool) :
    stuff ones (front ++ back) = stuff ones front ++ stuff (onesAfter ones front) back := by
  induction front generalizing ones with
  | nil => rfl
  | cons bit rest ih =>
      cases bit with
      | false => simp [stuff, onesAfter, ih]
      | true =>
          by_cases full : ones + 1 = 5
          · simp [stuff, onesAfter, full, ih]
          · simp [stuff, onesAfter, full, ih]

theorem onesAfter_append (ones : Nat) (front back : List Bool) :
    onesAfter ones (front ++ back) = onesAfter (onesAfter ones front) back := by
  induction front generalizing ones with
  | nil => rfl
  | cons bit rest ih =>
      cases bit with
      | false => simp [onesAfter, ih]
      | true =>
          by_cases full : ones + 1 = 5
          · simp [onesAfter, full, ih]
          · simp [onesAfter, full, ih]

theorem onesAfter_le {ones : Nat} (few : ones ≤ 4) (bits : List Bool) :
    onesAfter ones bits ≤ 4 := by
  induction bits generalizing ones with
  | nil => exact few
  | cons bit rest ih =>
      cases bit with
      | false => exact ih (Nat.zero_le 4)
      | true =>
          by_cases full : ones + 1 = 5
          · simp only [onesAfter, full, if_true]
            exact ih (Nat.zero_le 4)
          · simp only [onesAfter, full, if_false]
            exact ih (by omega)

theorem stuff_length_le (ones : Nat) (bits : List Bool) :
    5 * (stuff ones bits).length ≤ 6 * bits.length + ones := by
  induction bits generalizing ones with
  | nil => simp [stuff]
  | cons bit rest ih =>
      cases bit with
      | false =>
          have := ih 0
          simp only [stuff, List.length_cons]
          omega
      | true =>
          by_cases full : ones + 1 = 5
          · have := ih 0
            simp only [stuff, full, if_true, List.length_cons]
            omega
          · have := ih (ones + 1)
            simp only [stuff, full, if_false, List.length_cons]
            omega

theorem stuff_length_ge (ones : Nat) (bits : List Bool) :
    bits.length ≤ (stuff ones bits).length := by
  induction bits generalizing ones with
  | nil => exact Nat.zero_le _
  | cons bit rest ih =>
      cases bit with
      | false =>
          have := ih 0
          simp only [stuff, List.length_cons]
          omega
      | true =>
          by_cases full : ones + 1 = 5
          · have := ih 0
            simp only [stuff, full, if_true, List.length_cons]
            omega
          · have := ih (ones + 1)
            simp only [stuff, full, if_false, List.length_cons]
            omega

/-- Six ones in a row, counting those that went before, never start in stuffed
bits that are followed by a zero or by nothing. -/
theorem stuff_no_six {ones : Nat} (few : ones ≤ 4) (bits tail : List Bool)
    (ends : tail.head? ≠ some true) :
    ¬ List.replicate (6 - ones) true <+: stuff ones bits ++ tail := by
  induction bits generalizing ones with
  | nil =>
      intro six
      obtain ⟨more, moreEq⟩ : ∃ more, 6 - ones = more + 1 := ⟨5 - ones, by omega⟩
      rw [moreEq, List.replicate_succ] at six
      apply ends
      rcases six with ⟨rest, restEq⟩
      rw [stuff, List.nil_append] at restEq
      rw [← restEq]
      rfl
  | cons bit rest ih =>
      obtain ⟨more, moreEq⟩ : ∃ more, 6 - ones = more + 1 := ⟨5 - ones, by omega⟩
      rw [moreEq, List.replicate_succ]
      cases bit with
      | false => simp [stuff]
      | true =>
          by_cases full : ones + 1 = 5
          · obtain ⟨again, againEq⟩ : ∃ again, more = again + 1 := ⟨more - 1, by omega⟩
            simp [stuff, full, againEq, List.replicate_succ]
          · simp only [stuff, full, if_false, List.cons_append, List.cons_prefix_cons, true_and]
            have fewer := ih (show ones + 1 ≤ 4 by omega)
            rwa [show 6 - (ones + 1) = more by omega] at fewer

theorem stuff_never_six {ones : Nat} (few : ones ≤ 4) (bits : List Bool) :
    ¬ List.replicate 6 true <:+: stuff ones bits := by
  induction bits generalizing ones with
  | nil =>
      intro six
      have length := six.length_le
      simp [stuff] at length
  | cons bit rest ih =>
      have noSix := stuff_no_six few (bit :: rest) [] (by simp)
      rw [List.append_nil] at noSix
      have noStart : ¬ List.replicate 6 true <+: stuff ones (bit :: rest) := by
        intro six
        have shorter : List.replicate (6 - ones) true <+: List.replicate 6 true :=
          ⟨List.replicate ones true, by
            rw [← List.replicate_add, Nat.sub_add_cancel (by omega)]⟩
        exact noSix (shorter.trans six)
      cases bit with
      | false =>
          rw [stuff] at noStart ⊢
          rw [List.infix_cons_iff, not_or]
          exact ⟨noStart, ih (Nat.zero_le 4)⟩
      | true =>
          by_cases full : ones + 1 = 5
          · simp only [stuff, full, if_true] at noStart ⊢
            rw [List.infix_cons_iff, not_or, List.infix_cons_iff, not_or]
            refine ⟨noStart, ?_, ih (Nat.zero_le 4)⟩
            simp [List.replicate_succ]
          · simp only [stuff, full, if_false] at noStart ⊢
            rw [List.infix_cons_iff, not_or]
            exact ⟨noStart, ih (by omega)⟩

theorem stuff_no_flag {ones : Nat} (bits tail : List Bool) (nonempty : bits ≠ [])
    (ends : tail.head? ≠ some true) : ¬ flagBits <+: stuff ones bits ++ tail := by
  cases bits with
  | nil => exact absurd rfl nonempty
  | cons bit rest =>
      cases bit with
      | false =>
          intro flag
          have six := stuff_no_six (Nat.zero_le 4) rest tail ends
          apply six
          simp only [flagBits, stuff, List.cons_append, List.cons_prefix_cons, true_and] at flag
          apply List.IsPrefix.trans _ flag
          exact ⟨[false], rfl⟩
      | true =>
          by_cases full : ones + 1 = 5
          · simp [stuff, full, flagBits]
          · simp [stuff, full, flagBits]

end DModem.Lib
