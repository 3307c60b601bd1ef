/-
Ring buffers.

A ring of `n` slots with a first index and an index behind the last item holds the
list `ringItems`.  One slot always stays free.  A ring that keeps a count of its
items may fill all slots; it holds the list `ringSpan`.
-/

import Mathlib

namespace DModem.Lib

def ringLength (n first last : Nat) : Nat := (last + n - first) % n

def ringItems {α : Type*} (n : Nat) (buf : Nat → α) (first last : Nat) : List α :=
  (List.range (ringLength n first last)).map fun i => buf ((first + i) % n)

section Ring

variable {α : Type*} {n first last : Nat} {buf : Nat → α}

theorem ringLength_lt (first last : Nat) (some : 0 < n) : ringLength n first last < n :=
  Nat.mod_lt _ some

theorem ringItems_length : (ringItems n buf first last).length = ringLength n first last := by
  simp [ringItems]

theorem ringLength_zero (firstLt : first < n) (lastLt : last < n) :
    ringLength n first last = 0 ↔ first = last := by
  unfold ringLength
  by_cases le : first ≤ last
  · have split : last + n - first = (last - first) + n := by omega
    rw [split, Nat.add_mod_right, Nat.mod_eq_of_lt (by omega)]
    omega
  · rw [Nat.mod_eq_of_lt (by omega)]
    omega

theorem ring_last (firstLt : first < n) (lastLt : last < n) :
    (first + ringLength n first last) % n = last := by
  unfold ringLength
  by_cases le : first ≤ last
  · have split : last + n - first = (last - first) + n := by omega
    rw [split, Nat.add_mod_right, Nat.mod_eq_of_lt (show last - first < n by omega),
      Nat.add_sub_cancel' le, Nat.mod_eq_of_lt lastLt]
  · rw [Nat.mod_eq_of_lt (show last + n - first < n by omega),
      show first + (last + n - first) = last + n by omega, Nat.add_mod_right,
      Nat.mod_eq_of_lt lastLt]

theorem ringLength_of_offset {k : Nat} (firstLt : first < n) (small : k < n) :
    ringLength n first ((first + k) % n) = k := by
  unfold ringLength
  by_cases wraps : first + k < n
  · rw [Nat.mod_eq_of_lt wraps, show first + k + n - first = k + n by omega, Nat.add_mod_right,
      Nat.mod_eq_of_lt small]
  · have wrapped : (first + k) % n = first + k - n := by
      rw [Nat.mod_eq_sub_mod (by omega), Nat.mod_eq_of_lt (by omega)]
    rw [wrapped, show first + k - n + n - first = k by omega, Nat.mod_eq_of_lt small]

theorem ringLength_succ_last (firstLt : first < n) (lastLt : last < n)
    (free : (last + 1) % n ≠ first) :
    ringLength n first ((last + 1) % n) = ringLength n first last + 1 := by
  have bound := ringLength_lt first last (Nat.zero_lt_of_lt firstLt)
  have atLast := ring_last firstLt lastLt
  have notFull : ringLength n first last + 1 < n := by
    by_contra full
    apply free
    rw [← atLast, Nat.mod_add_mod, show first + ringLength n first last + 1 = first + n by omega,
      Nat.add_mod_right, Nat.mod_eq_of_lt firstLt]
  rw [← ringLength_of_offset firstLt notFull]
  congr 1
  rw [← Nat.add_assoc, ← Nat.mod_add_mod (first + ringLength n first last), atLast]

theorem ringLength_succ_first (firstLt : first < n) (lastLt : last < n) (some : first ≠ last) :
    ringLength n first last = ringLength n ((first + 1) % n) last + 1 := by
  have positive : ringLength n first last ≠ 0 := fun none =>
    some ((ringLength_zero firstLt lastLt).mp none)
  have bound := ringLength_lt first last (Nat.zero_lt_of_lt firstLt)
  have atLast := ring_last firstLt lastLt
  obtain ⟨k, kEq⟩ : ∃ k, ringLength n first last = k + 1 :=
    ⟨ringLength n first last - 1, by omega⟩
  have nextLt : (first + 1) % n < n := Nat.mod_lt _ (by omega)
  have offset : ((first + 1) % n + k) % n = last := by
    rw [Nat.mod_add_mod, show first + 1 + k = first + (k + 1) by omega, ← kEq, atLast]
  rw [kEq, ← ringLength_of_offset nextLt (show k < n by omega), offset]

theorem ringItems_empty (firstLt : first < n) : ringItems n buf first first = [] := by
  rw [ringItems, (ringLength_zero firstLt firstLt).mpr rfl]
  rfl

theorem ringItems_pop (buf : Nat → α) (firstLt : first < n) (lastLt : last < n)
    (some : first ≠ last) :
    ringItems n buf first last = buf first :: ringItems n buf ((first + 1) % n) last := by
  rw [ringItems, ringLength_succ_first firstLt lastLt some, List.range_succ_eq_map, List.map_cons,
    List.map_map, Nat.add_zero, Nat.mod_eq_of_lt firstLt, ringItems]
  congr 1
  apply List.map_congr_left
  intro i _
  simp only [Function.comp_apply, Nat.mod_add_mod]
  congr 2
  omega

theorem ringItems_push (buf : Nat → α) (firstLt : first < n) (lastLt : last < n)
    (free : (last + 1) % n ≠ first) (item : α) :
    ringItems n (Function.update buf last item) first ((last + 1) % n) =
      ringItems n buf first last ++ [item] := by
  have atLast := ring_last firstLt lastLt
  have bound := ringLength_lt first last (Nat.zero_lt_of_lt firstLt)
  rw [ringItems, ringLength_succ_last firstLt lastLt free, List.range_succ, List.map_append,
    ringItems]
  congr 1
  · apply List.map_congr_left
    intro i member
    have before : i < ringLength n first last := List.mem_range.mp member
    apply Function.update_of_ne
    intro same
    have first' := ringLength_of_offset firstLt (show i < n by omega)
    rw [same] at first'
    omega
  · rw [List.map_singleton, atLast, Function.update_self]

theorem ringLength_full (firstLt : first < n) (lastLt : last < n) (full : (last + 1) % n = first) :
    ringLength n first last + 1 = n := by
  have atLast := ring_last firstLt lastLt
  have bound := ringLength_lt first last (Nat.zero_lt_of_lt firstLt)
  by_contra short
  have offset : (first + (ringLength n first last + 1)) % n = first := by
    rw [← Nat.add_assoc, ← Nat.mod_add_mod (first + ringLength n first last), atLast, full]
  have longer := ringLength_of_offset firstLt
    (show ringLength n first last + 1 < n by omega)
  rw [offset, (ringLength_zero firstLt firstLt).mpr rfl] at longer
  omega

theorem ringLength_drop (firstLt : first < n) (lastLt : last < n) {k : Nat}
    (within : k ≤ ringLength n first last) :
    ringLength n ((first + k) % n) last = ringLength n first last - k := by
  have atLast := ring_last firstLt lastLt
  have bound := ringLength_lt first last (Nat.zero_lt_of_lt firstLt)
  have offset : ((first + k) % n + (ringLength n first last - k)) % n = last := by
    rw [Nat.mod_add_mod, show first + k + (ringLength n first last - k) =
      first + ringLength n first last by omega, atLast]
  have shorter := ringLength_of_offset (Nat.mod_lt (first + k) (Nat.zero_lt_of_lt firstLt))
    (show ringLength n first last - k < n by omega)
  rwa [offset] at shorter

theorem ringItems_getElem {k : Nat} (within : k < (ringItems n buf first last).length) :
    (ringItems n buf first last)[k] = buf ((first + k) % n) := by
  simp [ringItems]

theorem ringItems_drop (buf : Nat → α) (firstLt : first < n) (lastLt : last < n) {k : Nat}
    (within : k ≤ ringLength n first last) :
    ringItems n buf ((first + k) % n) last = (ringItems n buf first last).drop k := by
  induction k generalizing first with
  | zero => rw [Nat.add_zero, Nat.mod_eq_of_lt firstLt, List.drop_zero]
  | succ k ih =>
      have some : first ≠ last := by
        intro same
        rw [(ringLength_zero firstLt lastLt).mpr same] at within
        omega
      have nextLt : (first + 1) % n < n := Nat.mod_lt _ (Nat.zero_lt_of_lt firstLt)
      rw [ringLength_succ_first firstLt lastLt some] at within
      rw [ringItems_pop buf firstLt lastLt some, List.drop_succ_cons, ← ih nextLt (by omega),
        Nat.mod_add_mod]
      congr 2
      omega

end Ring

/-! ### Rings with a count -/

/-- The `count` items from the slot `first` on. -/
def ringSpan {α : Type*} (n : Nat) (buf : Nat → α) (first count : Nat) : List α :=
  (List.range count).map fun i => buf ((first + i) % n)

section Span

variable {α : Type*} {n first count : Nat} {buf buf' : Nat → α}

@[simp]
theorem ringSpan_length : (ringSpan n buf first count).length = count := by
  simp [ringSpan]

theorem ringSpan_add (n : Nat) (buf : Nat → α) (first a b : Nat) :
    ringSpan n buf first (a + b) = ringSpan n buf first a ++ ringSpan n buf ((first + a) % n) b := by
  rw [ringSpan, List.range_add, List.map_append, List.map_map, ringSpan, ringSpan]
  congr 1
  apply List.map_congr_left
  intro i _
  simp only [Function.comp_apply, Nat.mod_add_mod, Nat.add_assoc]

theorem ringSpan_take {k : Nat} (within : k ≤ count) :
    (ringSpan n buf first count).take k = ringSpan n buf first k := by
  obtain ⟨rest, restEq⟩ := Nat.exists_eq_add_of_le within
  rw [restEq, ringSpan_add, List.take_left' ringSpan_length]

theorem ringSpan_drop {k : Nat} (within : k ≤ count) :
    (ringSpan n buf first count).drop k = ringSpan n buf ((first + k) % n) (count - k) := by
  obtain ⟨rest, restEq⟩ := Nat.exists_eq_add_of_le within
  rw [restEq, ringSpan_add, List.drop_left' ringSpan_length, Nat.add_sub_cancel_left]

theorem ringSpan_congr (same : ∀ i < count, buf' ((first + i) % n) = buf ((first + i) % n)) :
    ringSpan n buf' first count = ringSpan n buf first count := by
  apply List.map_congr_left
  intro i member
  exact same i (List.mem_range.mp member)

theorem ringSpan_flat (fits : first + count ≤ n) :
    ringSpan n buf first count = (List.range count).map fun i => buf (first + i) := by
  apply List.map_congr_left
  intro i member
  have within := List.mem_range.mp member
  rw [Nat.mod_eq_of_lt (by omega)]

/-- The slots behind a span of at most `n` items are not in it. -/
theorem ringSpan_behind {i j : Nat} (inside : i < count) (outside : count + j < n)
    (firstLt : first < n) : (first + i) % n ≠ (first + (count + j)) % n := by
  intro same
  have lengths := ringLength_of_offset firstLt (show i < n by omega)
  rw [same, ringLength_of_offset firstLt outside] at lengths
  omega

end Span

end DModem.Lib
