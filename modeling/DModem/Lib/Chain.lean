/-
Null-terminated chains over a successor map on indices.

A chain is the list of indices met when following `next` from a start index
until the null index 0.  The lemmas cover what a pointer program does with such
a list: walk it, push a new head, cut an interior element out, and write fields
of elements that are not on it.
-/

import Mathlib

namespace DModem.Lib

/-- `IsChain next start items`: following `next` from `start` meets exactly
`items` before the null index. -/
def IsChain (next : Nat → Nat) : Nat → List Nat → Prop
  | start, [] => start = 0
  | start, item :: rest => start = item ∧ item ≠ 0 ∧ IsChain next (next item) rest

namespace IsChain

variable {next next' : Nat → Nat} {start : Nat} {items : List Nat}

theorem zero (next : Nat → Nat) : IsChain next 0 [] := rfl

theorem congr (chain : IsChain next start items)
    (same : ∀ item ∈ items, next' item = next item) :
    IsChain next' start items := by
  induction items generalizing start with
  | nil => exact chain
  | cons item rest ih =>
      obtain ⟨startEq, itemNe, tail⟩ := chain
      refine ⟨startEq, itemNe, ?_⟩
      rw [same item List.mem_cons_self]
      exact ih tail (fun other member => same other (List.mem_cons_of_mem item member))

theorem unique {other : List Nat} (chain : IsChain next start items)
    (chain' : IsChain next start other) : items = other := by
  induction items generalizing start other with
  | nil =>
      cases other with
      | nil => rfl
      | cons item rest => exact absurd (chain'.1.symm.trans chain) chain'.2.1
  | cons item rest ih =>
      cases other with
      | nil => exact absurd (chain.1.symm.trans chain') chain.2.1
      | cons item' rest' =>
          have headEq : item = item' := chain.1.symm.trans chain'.1
          subst headEq
          rw [ih chain.2.2 chain'.2.2]

theorem all {holds : Nat → Prop} (chain : IsChain next start items)
    (first : start ≠ 0 → holds start)
    (later : ∀ item, holds item → next item ≠ 0 → holds (next item)) :
    ∀ item ∈ items, holds item := by
  induction items generalizing start with
  | nil =>
      intro item member
      cases member
  | cons head rest ih =>
      obtain ⟨startEq, headNe, tail⟩ := chain
      subst startEq
      have here := first headNe
      intro item member
      rcases List.mem_cons.mp member with same | inTail
      · rw [same]
        exact here
      · exact ih tail (later start here) item inTail

theorem start_mem (chain : IsChain next start items) (nonzero : start ≠ 0) : start ∈ items := by
  cases items with
  | nil => exact absurd chain nonzero
  | cons head rest =>
      rw [chain.1]
      exact List.mem_cons_self

theorem next_mem {item : Nat} (chain : IsChain next start items) (member : item ∈ items)
    (nonzero : next item ≠ 0) : next item ∈ items := by
  induction items generalizing start with
  | nil => cases member
  | cons head rest ih =>
      obtain ⟨startEq, headNe, tail⟩ := chain
      rcases List.mem_cons.mp member with same | inTail
      · subst same
        exact List.mem_cons_of_mem _ (tail.start_mem nonzero)
      · exact List.mem_cons_of_mem _ (ih tail inTail)

theorem cut {pred victim : Nat} (before after : List Nat)
    (chain : IsChain next start (before ++ pred :: victim :: after))
    (distinct : (before ++ pred :: victim :: after).Nodup) :
    IsChain (Function.update next pred (next victim)) start
      (before ++ pred :: after) := by
  induction before generalizing start with
  | nil =>
      obtain ⟨startEq, predNe, _victimEq, _victimNe, tail⟩ := chain
      refine ⟨startEq, predNe, ?_⟩
      rw [Function.update_self]
      apply tail.congr
      intro item member
      apply Function.update_of_ne
      intro same
      subst same
      simp only [List.nil_append, List.nodup_cons, List.mem_cons, not_or] at distinct
      exact distinct.1.2 member
  | cons head rest ih =>
      obtain ⟨startEq, headNe, tail⟩ := chain
      rw [List.cons_append, List.nodup_cons] at distinct
      refine ⟨startEq, headNe, ?_⟩
      have headFresh : head ≠ pred := by
        intro same
        subst same
        exact distinct.1 (by simp)
      rw [Function.update_of_ne headFresh]
      exact ih tail distinct.2

end IsChain

theorem erase_interior {before after : List Nat} {pred victim : Nat}
    (distinct : (before ++ pred :: victim :: after).Nodup) :
    (before ++ pred :: victim :: after).erase victim = before ++ pred :: after := by
  rw [List.nodup_append] at distinct
  obtain ⟨_, inner, apart⟩ := distinct
  have notBefore : victim ∉ before := fun member => apart victim member victim (by simp) rfl
  have notPred : pred ≠ victim := by
    intro same
    subst same
    simp at inner
  rw [List.erase_append_right _ notBefore, List.erase_cons_tail (by simpa using notPred),
    List.erase_cons_head]

end DModem.Lib
