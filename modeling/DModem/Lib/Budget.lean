/-
Runs that spend a budget.

An event either ends the run for good, or takes at least its cost from what is left.  A run
whose costs add up to more than there was has ended.
-/

import Mathlib.Algebra.Order.Group.Int
import Mathlib.Tactic.Ring

namespace DModem.Lib

/-- `left` is what a live state can still spend. -/
structure Budget {σ ε : Type*} (step : σ → ε → σ) (cost : ε → Nat) (allowed : ε → Prop) where
  live : σ → Prop
  ended : σ → Prop
  left : σ → Int
  left_nonneg : ∀ {s}, live s → 0 ≤ left s
  ended_step : ∀ {s e}, ended s → allowed e → ended (step s e)
  spend : ∀ {s e}, live s → allowed e →
    ended (step s e) ∨ (live (step s e) ∧ left (step s e) + cost e ≤ left s)

namespace Budget

variable {σ ε : Type*} {step : σ → ε → σ} {cost : ε → Nat} {allowed : ε → Prop}

def total (cost : ε → Nat) (events : List ε) : Nat := (events.map cost).sum

variable (budget : Budget step cost allowed) {s : σ} {events : List ε}

theorem ended_run (ended : budget.ended s) (within : ∀ e ∈ events, allowed e) :
    budget.ended (events.foldl step s) := by
  induction events generalizing s with
  | nil => exact ended
  | cons e rest ih =>
      rcases List.forall_mem_cons.mp within with ⟨now, later⟩
      exact ih (budget.ended_step ended now) later

theorem spend_run (live : budget.live s) (within : ∀ e ∈ events, allowed e) :
    budget.ended (events.foldl step s) ∨
      (budget.live (events.foldl step s) ∧
        budget.left (events.foldl step s) + total cost events ≤ budget.left s) := by
  induction events generalizing s with
  | nil =>
      right
      constructor
      · exact live
      · simp [total]
  | cons e rest ih =>
      rcases List.forall_mem_cons.mp within with ⟨now, later⟩
      rcases budget.spend live now with ended | ⟨live', spent⟩
      · left
        rw [List.foldl_cons]
        exact budget.ended_run ended later
      · rcases ih live' later with ended | ⟨liveRun, spentRun⟩
        · left
          exact ended
        · right
          constructor
          · exact liveRun
          · have sum : total cost (e :: rest) = cost e + total cost rest := by
              simp [total]
            rw [List.foldl_cons, sum]
            push_cast
            omega

theorem ended_of_total (live : budget.live s) (within : ∀ e ∈ events, allowed e)
    (long : budget.left s < total cost events) : budget.ended (events.foldl step s) := by
  rcases budget.spend_run live within with ended | ⟨liveRun, spentRun⟩
  · exact ended
  · have some := budget.left_nonneg liveRun
    omega

end Budget

end DModem.Lib
