/-
Go-back-N over channels that lose but do not reorder.

A sender numbers its items without bound, keeps at most `w` of them
unacknowledged, and may go back to the oldest of these at any time.  A receiver
takes items in order only, and its acknowledgements travel back in the order in
which they were made.  `Flow` is the joint invariant of the two ends and of what is
on the way between them; each lemma below is one thing that can happen.
-/

import Mathlib

namespace DModem.Lib

/-- The numbers below `top` have been sent at least once; `data` is on the way to
the receiver, oldest first. -/
structure Sender (α : Type*) where
  items : List α
  va : Nat
  vs : Nat
  top : Nat
  data : List (Nat × α)

/-- `acks` is on the way to the sender, oldest first. -/
structure Receiver (α : Type*) where
  vr : Nat
  received : List α
  acks : List Nat

structure Flow {α : Type*} (w : Nat) (s : Sender α) (r : Receiver α) : Prop where
  sent : s.va ≤ s.vs
  assigned : s.vs ≤ s.top
  filled : s.top ≤ s.items.length
  window : s.items.length ≤ s.va + w
  acked : s.va ≤ r.vr
  expected : r.vr ≤ s.top
  inOrder : r.received = s.items.take r.vr
  acksLow : ∀ a ∈ r.acks, s.va ≤ a
  acksHigh : ∀ a ∈ r.acks, a ≤ r.vr
  acksSorted : r.acks.Pairwise (· ≤ ·)
  dataItem : ∀ p ∈ s.data, s.items[p.1]? = some p.2
  dataHigh : ∀ p ∈ s.data, p.1 < s.top
  dataLow : ∀ p ∈ s.data, r.vr ≤ p.1 + w
  dataNear : s.data.Pairwise fun earlier later => earlier.1 < later.1 + w

namespace Flow

variable {α : Type*} {w : Nat} {s : Sender α} {r : Receiver α}

theorem start (w : Nat) :
    Flow w ({ items := [], va := 0, vs := 0, top := 0, data := [] } : Sender α)
      { vr := 0, received := [], acks := [] } := by
  constructor <;> simp

theorem received_prefix (flow : Flow w s r) : r.received <+: s.items := by
  rw [flow.inOrder]
  exact List.take_prefix _ _

theorem fill (flow : Flow w s r) (item : α) (room : s.items.length < s.va + w) :
    Flow w { s with items := s.items ++ [item] } r := by
  have filled := flow.filled
  have expected := flow.expected
  constructor
  · exact flow.sent
  · exact flow.assigned
  · simp only [List.length_append, List.length_cons, List.length_nil]
    omega
  · simp only [List.length_append, List.length_cons, List.length_nil]
    omega
  · exact flow.acked
  · exact flow.expected
  · rw [flow.inOrder, List.take_append_of_le_length (by omega)]
  · exact flow.acksLow
  · exact flow.acksHigh
  · exact flow.acksSorted
  · intro p member
    have old := flow.dataItem p member
    have high := flow.dataHigh p member
    rw [List.getElem?_append_left (by omega), old]
  · exact flow.dataHigh
  · exact flow.dataLow
  · exact flow.dataNear

/-- The item `vs` is sent, for the first time or again. -/
theorem send (flow : Flow w s r) {item : α} (next : s.items[s.vs]? = some item) :
    Flow w
      { s with
        vs := s.vs + 1
        top := max s.top (s.vs + 1)
        data := s.data ++ [(s.vs, item)] } r := by
  have sent := flow.sent
  have assigned := flow.assigned
  have filled := flow.filled
  have window := flow.window
  have expected := flow.expected
  have inside : s.vs < s.items.length := by
    by_contra beyond
    rw [List.getElem?_eq_none (by omega)] at next
    cases next
  constructor
  · exact Nat.le_succ_of_le sent
  · exact Nat.le_max_right _ _
  · exact Nat.max_le.mpr ⟨filled, inside⟩
  · exact window
  · exact flow.acked
  · exact Nat.le_trans expected (Nat.le_max_left _ _)
  · exact flow.inOrder
  · exact flow.acksLow
  · exact flow.acksHigh
  · exact flow.acksSorted
  · intro p member
    rcases List.mem_append.mp member with old | new
    · exact flow.dataItem p old
    · rw [List.mem_singleton] at new
      rw [new]
      exact next
  · intro p member
    rcases List.mem_append.mp member with old | new
    · exact Nat.lt_of_lt_of_le (flow.dataHigh p old) (Nat.le_max_left _ _)
    · rw [List.mem_singleton] at new
      rw [new]
      exact Nat.le_max_right _ _
  · intro p member
    rcases List.mem_append.mp member with old | new
    · exact flow.dataLow p old
    · rw [List.mem_singleton] at new
      rw [new]
      simp only
      omega
  · rw [List.pairwise_append]
    refine ⟨flow.dataNear, List.pairwise_singleton _ _, ?_⟩
    intro earlier old later new
    rw [List.mem_singleton] at new
    have high := flow.dataHigh earlier old
    rw [new]
    simp only
    omega

theorem rewind (flow : Flow w s r) : Flow w { s with vs := s.va } r :=
  { flow with
    sent := Nat.le_refl _
    assigned := Nat.le_trans flow.sent flow.assigned }

/-- An acknowledgement arrives.  It may lie beyond the place that the sender has
gone back to, and then only counts up to there. -/
theorem acknowledge {a : Nat} {rest : List Nat} (flow : Flow w s { r with acks := a :: rest }) :
    Flow w { s with va := min a s.vs } { r with acks := rest } := by
  have low := flow.acksLow a List.mem_cons_self
  have high := flow.acksHigh a List.mem_cons_self
  have sent := flow.sent
  have window := flow.window
  simp only at low high
  have grows : s.va ≤ min a s.vs := Nat.le_min.mpr ⟨low, sent⟩
  have sorted := List.pairwise_cons.mp flow.acksSorted
  constructor
  · exact Nat.min_le_right _ _
  · exact flow.assigned
  · exact flow.filled
  · simp only
    omega
  · exact Nat.le_trans (Nat.min_le_left _ _) high
  · exact flow.expected
  · exact flow.inOrder
  · intro b member
    exact Nat.le_trans (Nat.min_le_left _ _) (sorted.1 b member)
  · intro b member
    exact flow.acksHigh b (List.mem_cons_of_mem a member)
  · exact sorted.2
  · exact flow.dataItem
  · exact flow.dataHigh
  · exact flow.dataLow
  · exact flow.dataNear

theorem respond (flow : Flow w s r) : Flow w s { r with acks := r.acks ++ [r.vr] } := by
  have acked := flow.acked
  refine { flow with acksLow := ?_, acksHigh := ?_, acksSorted := ?_ }
  · intro a member
    rcases List.mem_append.mp member with old | new
    · exact flow.acksLow a old
    · rw [List.mem_singleton] at new
      rw [new]
      exact acked
  · intro a member
    rcases List.mem_append.mp member with old | new
    · exact flow.acksHigh a old
    · rw [List.mem_singleton] at new
      exact Nat.le_of_eq new
  · rw [List.pairwise_append]
    refine ⟨flow.acksSorted, List.pairwise_singleton _ _, ?_⟩
    intro a old b new
    rw [List.mem_singleton] at new
    rw [new]
    exact flow.acksHigh a old

theorem accept {item : α} {rest : List (Nat × α)}
    (flow : Flow w { s with data := (r.vr, item) :: rest } r) :
    Flow w { s with data := rest }
      { r with vr := r.vr + 1, received := r.received ++ [item] } := by
  have high := flow.dataHigh _ List.mem_cons_self
  have here := flow.dataItem _ List.mem_cons_self
  have near := List.pairwise_cons.mp flow.dataNear
  simp only at high here
  constructor
  · exact flow.sent
  · exact flow.assigned
  · exact flow.filled
  · exact flow.window
  · exact Nat.le_succ_of_le flow.acked
  · exact high
  · have inside : r.vr < s.items.length := by
      have := flow.filled
      simp only at this
      omega
    rw [List.getElem?_eq_getElem inside, Option.some.injEq] at here
    simp only
    rw [flow.inOrder, List.take_succ_eq_append_getElem inside, here]
  · exact flow.acksLow
  · intro a member
    exact Nat.le_succ_of_le (flow.acksHigh a member)
  · exact flow.acksSorted
  · intro p member
    exact flow.dataItem p (List.mem_cons_of_mem _ member)
  · intro p member
    exact flow.dataHigh p (List.mem_cons_of_mem _ member)
  · intro p member
    have closer := near.1 p member
    simp only at closer ⊢
    omega
  · exact near.2

theorem lose {data : List (Nat × α)} {acks : List Nat} (flow : Flow w s r)
    (fewer : List.Sublist data s.data) (fewerAcks : List.Sublist acks r.acks) :
    Flow w { s with data := data } { r with acks := acks } :=
  { flow with
    acksLow := fun a member => flow.acksLow a (fewerAcks.subset member)
    acksHigh := fun a member => flow.acksHigh a (fewerAcks.subset member)
    acksSorted := flow.acksSorted.sublist fewerAcks
    dataItem := fun p member => flow.dataItem p (fewer.subset member)
    dataHigh := fun p member => flow.dataHigh p (fewer.subset member)
    dataLow := fun p member => flow.dataLow p (fewer.subset member)
    dataNear := flow.dataNear.sublist fewer }

/-! ### Numbers modulo a bound above the window -/

theorem mod_inj {n x y : Nat} (same : x % n = y % n) (near : x < y + n) (near' : y < x + n) :
    x = y := by
  have cancel : ∀ {u v : Nat}, u ≤ v → v < u + n → u % n = v % n → u = v := by
    intro u v le lt eq
    have congr : (v - u) % n = 0 := by
      have := (Nat.modEq_iff_dvd' le).mp eq
      exact Nat.mod_eq_zero_of_dvd this
    rw [Nat.mod_eq_of_lt (by omega)] at congr
    omega
  rcases Nat.le_total x y with le | le
  · exact cancel le near' same
  · exact (cancel le near same.symm).symm

theorem expected_of_mod {n : Nat} (flow : Flow w s r) (bound : w < n) {p : Nat × α}
    (member : p ∈ s.data) (same : p.1 % n = r.vr % n) : p.1 = r.vr := by
  have high := flow.dataHigh p member
  have low := flow.dataLow p member
  have filled := flow.filled
  have window := flow.window
  have acked := flow.acked
  exact mod_inj same (by omega) (by omega)

end Flow

end DModem.Lib
