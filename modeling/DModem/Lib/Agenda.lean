/-
Deadlines of items, and a wake-up time that is not behind any of them.

An item has one deadline at most: a new one replaces it.  A poll takes the items whose
deadlines have come.  Times on a clock that wraps are compared by the sign of their
difference, which is right as long as they are less than half the range apart.
-/

import Mathlib.Data.Finset.Fold
import Mathlib.Data.Finset.Prod

namespace DModem.Lib

/-! ### A clock that wraps -/

def Near (w : Nat) (a b : Int) : Prop := -2 ^ (w - 1) ≤ a - b ∧ a - b < 2 ^ (w - 1)

instance (w : Nat) (a b : Int) : Decidable (Near w a b) := inferInstanceAs (Decidable (_ ∧ _))

theorem wrapped_sub {w : Nat} {a b : Int} (positive : 0 < w) (near : Near w a b) :
    (BitVec.ofInt w a - BitVec.ofInt w b).toInt = a - b := by
  have split : BitVec.ofInt w a = BitVec.ofInt w (a - b) + BitVec.ofInt w b := by
    rw [← BitVec.ofInt_add, Int.sub_add_cancel]
  rw [split, BitVec.add_sub_cancel]
  exact BitVec.toInt_ofInt_eq_self positive near.1 near.2

/-! ### Deadlines -/

structure Agenda (ι τ : Type*) where
  entries : Finset (ι × τ)
  wake : τ

inductive AgendaOp (ι τ : Type*) where
  | arm (item : ι) (due : τ)
  | cancel (item : ι)
  | poll (now : τ)

namespace Agenda

variable {ι τ : Type*} [DecidableEq ι] [LinearOrder τ] [Add τ]

/-- Without items the next wake-up is `horizon` after a poll. -/
def step (horizon : τ) (g : Agenda ι τ) : AgendaOp ι τ → Agenda ι τ
  | .arm item due =>
      { entries := insert (item, due) (g.entries.filter fun entry => entry.1 ≠ item)
        wake := min g.wake due }
  | .cancel item => { g with entries := g.entries.filter fun entry => entry.1 ≠ item }
  | .poll now =>
      let rest := g.entries.filter fun entry => now < entry.2
      { entries := rest, wake := rest.fold min (now + horizon) Prod.snd }

def run (horizon : τ) (g : Agenda ι τ) (ops : List (AgendaOp ι τ)) : Agenda ι τ :=
  ops.foldl (step horizon) g

/-- The deadline `due` of the item still stands after the operation. -/
def Leaves (item : ι) (due : τ) : AgendaOp ι τ → Prop
  | .arm other _ => other ≠ item
  | .cancel other => other ≠ item
  | .poll now => now < due

def Stands (ops : List (AgendaOp ι τ)) (item : ι) (due : τ) : Prop :=
  ∃ before after, ops = before ++ .arm item due :: after ∧ ∀ op ∈ after, Leaves item due op

structure Wf (g : Agenda ι τ) : Prop where
  single : ∀ item first second,
    (item, first) ∈ g.entries → (item, second) ∈ g.entries → first = second
  early : ∀ entry ∈ g.entries, g.wake ≤ entry.2

section Steps

variable {horizon : τ} {g : Agenda ι τ} {ops : List (AgendaOp ι τ)} {op : AgendaOp ι τ}
  {item : ι} {due : τ}

omit [DecidableEq ι] [Add τ] in
theorem wf_empty (wake : τ) : Wf { entries := (∅ : Finset (ι × τ)), wake := wake } :=
  ⟨by simp, by simp⟩

theorem mem_step : (item, due) ∈ (g.step horizon op).entries ↔
    op = .arm item due ∨ Leaves item due op ∧ (item, due) ∈ g.entries := by
  cases op with
  | arm other time =>
      simp only [step, Leaves, Finset.mem_insert, Finset.mem_filter, Prod.mk.injEq,
        AgendaOp.arm.injEq]
      constructor
      · rintro (⟨rfl, rfl⟩ | ⟨kept, distinct⟩)
        · exact Or.inl ⟨rfl, rfl⟩
        · exact Or.inr ⟨fun same => distinct same.symm, kept⟩
      · rintro (⟨rfl, rfl⟩ | ⟨distinct, kept⟩)
        · exact Or.inl ⟨rfl, rfl⟩
        · exact Or.inr ⟨kept, fun same => distinct same.symm⟩
  | cancel other =>
      simp only [step, Leaves, Finset.mem_filter, reduceCtorEq, false_or]
      rw [and_comm, ne_comm]
  | poll now =>
      simp only [step, Leaves, Finset.mem_filter, reduceCtorEq, false_or]
      exact and_comm

theorem Wf.step (wf : g.Wf) (op : AgendaOp ι τ) : (g.step horizon op).Wf := by
  constructor
  · intro item first second firstIn secondIn
    rcases mem_step.mp firstIn with rfl | ⟨leaves, firstIn⟩
    · rcases mem_step.mp secondIn with same | ⟨leaves, -⟩
      · cases same
        rfl
      · exact absurd rfl leaves
    · rcases mem_step.mp secondIn with rfl | ⟨-, secondIn⟩
      · exact absurd rfl leaves
      · exact wf.single item first second firstIn secondIn
  · rintro ⟨item, due⟩ member
    rcases mem_step.mp member with rfl | ⟨leaves, kept⟩
    · exact min_le_right _ _
    · have bound := wf.early _ kept
      cases op with
      | arm other time => exact (min_le_left _ _).trans bound
      | cancel other => exact bound
      | poll now => exact (Finset.le_fold_min _).mp (le_refl _) |>.2 _ member

theorem run_concat : g.run horizon (ops ++ [op]) = (g.run horizon ops).step horizon op := by
  unfold run
  rw [List.foldl_append]
  rfl

omit [DecidableEq ι] [Add τ] in
theorem stands_concat : Stands (ops ++ [op]) item due ↔
    op = .arm item due ∨ Leaves item due op ∧ Stands ops item due := by
  constructor
  · rintro ⟨before, after, split, leaves⟩
    rcases List.eq_nil_or_concat after with rfl | ⟨front, last, rfl⟩
    · exact Or.inl (List.singleton_injective (List.append_inj' split rfl).2)
    · have parts : ops ++ [op] = (before ++ .arm item due :: front) ++ [last] := by
        simpa using split
      obtain ⟨same, final⟩ := List.append_inj' parts rfl
      have lastIs : op = last := List.singleton_injective final
      subst lastIs
      refine Or.inr ⟨leaves op (by simp), before, front, same, ?_⟩
      intro other member
      exact leaves other (by simp [member])
  · rintro (rfl | ⟨leaves, before, after, rfl, later⟩)
    · exact ⟨ops, [], rfl, by simp⟩
    · refine ⟨before, after ++ [op], by simp, ?_⟩
      intro other member
      rcases List.mem_append.mp member with early | last
      · exact later other early
      · rw [List.mem_singleton.mp last]
        exact leaves

theorem mem_run {wake : τ} :
    (item, due) ∈ (run horizon { entries := ∅, wake := wake } ops).entries ↔
      Stands ops item due := by
  induction ops using List.reverseRec with
  | nil =>
      constructor
      · intro member
        exact absurd member (Finset.notMem_empty _)
      · rintro ⟨before, after, split, -⟩
        exact absurd split (by simp)
  | append_singleton ops op ih => rw [run_concat, mem_step, stands_concat, ih]

end Steps

end Agenda

end DModem.Lib
