/-
Slots that are in use after their ring has given them out.

A producer fills the slots of a ring and a consumer takes them.  The item taken last may
still be read while its slot already counts as free; the slot that every ring leaves
empty keeps it from being overwritten.
-/

import DModem.Lib.Ring

namespace DModem.Lib

/-! ### A queue -/

structure SlotQueue (α : Type*) where
  buf : Nat → α
  last : Nat
  next : Nat

namespace SlotQueue

variable {α : Type*} {n : Nat}

inductive Put (n : Nat) : SlotQueue α → SlotQueue α → Prop
  | put (q : SlotQueue α) (item : α) (free : (q.last + 1) % n ≠ q.next) :
      Put n q { q with buf := Function.update q.buf q.last item, last := (q.last + 1) % n }

theorem Put.keeps {q q' : SlotQueue α} {p : Nat} (put : Put n q q') (taken : q.next = (p + 1) % n) :
    q'.next = q.next ∧ q'.buf p = q.buf p := by
  cases put with
  | put item free =>
      constructor
      · rfl
      · apply Function.update_of_ne
        intro same
        apply free
        rw [← same, taken]

theorem puts_keep {q q' : SlotQueue α} {p : Nat} (puts : Relation.ReflTransGen (Put n) q q')
    (taken : q.next = (p + 1) % n) : q'.next = q.next ∧ q'.buf p = q.buf p := by
  induction puts with
  | refl => exact ⟨rfl, rfl⟩
  | tail _ put ih =>
      rcases put.keeps (ih.1.trans taken) with ⟨next, buf⟩
      exact ⟨next.trans ih.1, buf.trans ih.2⟩

end SlotQueue

/-! ### A window -/

/-- A ring of items that stay until they are acknowledged: `first` is the oldest of
them, `next` is sent next, and `last` is filled next. -/
structure SlotWindow (α : Type*) where
  buf : Nat → α
  first : Nat
  next : Nat
  last : Nat

namespace SlotWindow

variable {α : Type*} {n : Nat}

/-- A slot is filled when all items were sent; sending may start again from the oldest
item; and an item that was sent may be acknowledged. -/
inductive Move (n : Nat) : SlotWindow α → SlotWindow α → Prop
  | fill (w : SlotWindow α) (item : α) (drained : w.next = w.last)
      (free : (w.last + 1) % n ≠ w.first) :
      Move n w { w with buf := Function.update w.buf w.last item, last := (w.last + 1) % n }
  | rewind (w : SlotWindow α) : Move n w { w with next := w.first }
  | acknowledge (w : SlotWindow α) (sent : w.first ≠ w.next) :
      Move n w { w with first := (w.first + 1) % n }

structure Ordered (n : Nat) (w : SlotWindow α) : Prop where
  first : w.first < n
  next : w.next < n
  last : w.last < n
  within : ringLength n w.first w.next ≤ ringLength n w.first w.last

/-- The slot `p` is not the one filled next, and comes just before the item sent next or
among those not yet sent again. -/
structure Guards (n : Nat) (w : SlotWindow α) (p : Nat) : Prop where
  ordered : Ordered n w
  slot : p < n
  spared : w.last ≠ p
  place : w.next = (p + 1) % n ∨ ringLength n w.next p < ringLength n w.next w.last

theorem Ordered.fill {w : SlotWindow α} (ordered : Ordered n w) (buf : Nat → α)
    (free : (w.last + 1) % n ≠ w.first) :
    Ordered n { w with buf := buf, last := (w.last + 1) % n } := by
  have grown := ringLength_succ_last ordered.first ordered.last free
  have within := ordered.within
  exact
    { first := ordered.first
      next := ordered.next
      last := Nat.mod_lt _ (Nat.zero_lt_of_lt ordered.first)
      within := by
        simp only [grown]
        omega }

theorem Ordered.rewind {w : SlotWindow α} (ordered : Ordered n w) :
    Ordered n { w with next := w.first } := by
  have empty := (ringLength_zero ordered.first ordered.first).mpr rfl
  exact
    { first := ordered.first
      next := ordered.first
      last := ordered.last
      within := by
        simp only [empty]
        omega }

theorem Ordered.acknowledge {w : SlotWindow α} (ordered : Ordered n w)
    (sent : w.first ≠ w.next) : Ordered n { w with first := (w.first + 1) % n } := by
  have within := ordered.within
  have shorter := ringLength_succ_first ordered.first ordered.next sent
  have some : w.first ≠ w.last := by
    intro same
    have empty := (ringLength_zero ordered.first ordered.last).mpr same
    omega
  have shorterLast := ringLength_succ_first ordered.first ordered.last some
  exact
    { first := Nat.mod_lt _ (Nat.zero_lt_of_lt ordered.first)
      next := ordered.next
      last := ordered.last
      within := by
        simp only
        omega }

theorem Guards.before_last {w : SlotWindow α} {p : Nat} (guards : Guards n w p)
    (some : w.first ≠ w.next ∨ w.next ≠ (p + 1) % n) :
    ringLength n w.first p < ringLength n w.first w.last := by
  have ordered := guards.ordered
  have within := ordered.within
  have bound := ringLength_lt w.first w.last (Nat.zero_lt_of_lt ordered.first)
  rcases guards.place with just | again
  · have free : (p + 1) % n ≠ w.first := by
      intro same
      rcases some with apart | apart
      · exact apart (same.symm.trans just.symm)
      · exact apart just
    have grown := ringLength_succ_last ordered.first guards.slot free
    rw [← just] at grown
    omega
  · have start := ring_last ordered.first ordered.next
    have place := ring_last ordered.next guards.slot
    have rest := ringLength_drop ordered.first ordered.last within
    rw [start] at rest
    have offset : (w.first + (ringLength n w.first w.next + ringLength n w.next p)) % n = p := by
      rw [← Nat.add_assoc, ← Nat.mod_add_mod, start, place]
    have length := ringLength_of_offset ordered.first
      (show ringLength n w.first w.next + ringLength n w.next p < n by omega)
    rw [offset] at length
    omega

theorem Move.guards {w w' : SlotWindow α} {p : Nat} (wide : 2 < n) (move : Move n w w')
    (guards : Guards n w p) : Guards n w' p ∧ w'.buf p = w.buf p := by
  have slot := guards.slot
  cases move with
  | fill item drained free =>
      have just : w.next = (p + 1) % n := by
        rcases guards.place with just | again
        · exact just
        · rw [drained, (ringLength_zero guards.ordered.last guards.ordered.last).mpr rfl] at again
          omega
      have apart : (w.last + 1) % n ≠ p := by
        rw [← drained, just, Nat.mod_add_mod]
        by_cases wraps : p + 1 + 1 < n
        · rw [Nat.mod_eq_of_lt wraps]
          omega
        · rw [Nat.mod_eq_sub_mod (by omega), Nat.mod_eq_of_lt (by omega)]
          omega
      constructor
      · exact
          { ordered := guards.ordered.fill _ free
            slot := slot
            spared := apart
            place := Or.inl just }
      · exact Function.update_of_ne (Ne.symm guards.spared) _ _
  | rewind =>
      constructor
      · by_cases settled : w.first = w.next ∧ w.next = (p + 1) % n
        · exact
            { ordered := guards.ordered.rewind
              slot := slot
              spared := guards.spared
              place := Or.inl (settled.1.trans settled.2) }
        · exact
            { ordered := guards.ordered.rewind
              slot := slot
              spared := guards.spared
              place := Or.inr (guards.before_last (not_and_or.mp settled)) }
      · rfl
  | acknowledge sent =>
      constructor
      · exact
          { ordered := guards.ordered.acknowledge sent
            slot := slot
            spared := guards.spared
            place := guards.place }
      · rfl

/-- A slot that was just sent stays as it is, whatever is acknowledged, sent again or
filled, as long as no further item is sent. -/
theorem moves_guard {w w' : SlotWindow α} {p : Nat} (wide : 2 < n)
    (moves : Relation.ReflTransGen (Move n) w w') (guards : Guards n w p) :
    Guards n w' p ∧ w'.buf p = w.buf p := by
  induction moves with
  | refl => exact ⟨guards, rfl⟩
  | tail _ move ih =>
      rcases move.guards wide ih.1 with ⟨after, buf⟩
      exact ⟨after, buf.trans ih.2⟩

end SlotWindow

end DModem.Lib
