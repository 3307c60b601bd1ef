/-
Programs that read a text in memory.

A program asks questions about what stands at a place of the text, and goes on with the
answers.  Memory is a list that begins at a pointer; a question that cannot be answered
without reading behind the end of the list has no answer, and the program does not finish.
What a program does depends on the answers alone, so that two texts that give the same
answers to what is asked give the same result.
-/

import Mathlib.Data.List.Basic

namespace DModem.Lib

/-- A program that asks questions `Op` with answers in `Ans`. -/
inductive Scan {Op : Type} (Ans : Op → Type) (α : Type) where
  | done (result : α)
  | ask (place : Nat) (op : Op) (next : Ans op → Scan Ans α)

namespace Scan

variable {Op σ : Type} {Ans : Op → Type} {α β : Type}

def bind : Scan Ans α → (α → Scan Ans β) → Scan Ans β
  | done result, rest => rest result
  | ask place op next, rest => ask place op fun reply => (next reply).bind rest

instance : Monad (Scan Ans) where
  pure := done
  bind := bind

section

variable (answer : (op : Op) → List σ → Option (Ans op)) (text : List σ)

/-- The result on a text, if every question is answered. -/
def exec : Scan Ans α → Option α
  | done result => some result
  | ask place op next =>
      match answer op (text.drop place) with
      | none => none
      | some reply => (next reply).exec

def asked : Scan Ans α → List (Nat × Op)
  | done _ => []
  | ask place op next =>
      (place, op) ::
        match answer op (text.drop place) with
        | none => []
        | some reply => (next reply).asked

/-- The program finishes, with a result and questions as `post` says. -/
def Meets (program : Scan Ans α) (post : α → List (Nat × Op) → Prop) : Prop :=
  ∃ result, program.exec answer text = some result ∧ post result (program.asked answer text)

end

variable {answer : (op : Op) → List σ → Option (Ans op)} {text : List σ}

theorem exec_ask {place : Nat} {op : Op} {next : Ans op → Scan Ans α} {reply : Ans op}
    (given : answer op (text.drop place) = some reply) :
    (ask place op next).exec answer text = (next reply).exec answer text := by
  rw [exec, given]

theorem asked_ask {place : Nat} {op : Op} {next : Ans op → Scan Ans α} {reply : Ans op}
    (given : answer op (text.drop place) = some reply) :
    (ask place op next).asked answer text = (place, op) :: (next reply).asked answer text := by
  rw [asked, given]

theorem exec_agree {other : List σ} {program : Scan Ans α}
    (agree : ∀ query ∈ program.asked answer text,
      answer query.2 (other.drop query.1) = answer query.2 (text.drop query.1)) :
    program.exec answer other = program.exec answer text ∧
      program.asked answer other = program.asked answer text := by
  induction program with
  | done result => exact ⟨rfl, rfl⟩
  | ask place op next ih =>
      have first : answer op (other.drop place) = answer op (text.drop place) := by
        apply agree (place, op)
        rw [asked]
        exact List.mem_cons_self
      cases given : answer op (text.drop place) with
      | none =>
          have same : answer op (other.drop place) = none := first.trans given
          simp [exec, asked, given, same]
      | some reply =>
          have same : answer op (other.drop place) = some reply := first.trans given
          rw [asked_ask given] at agree
          obtain ⟨results, questions⟩ :=
            ih reply fun query member => agree query (List.mem_cons_of_mem _ member)
          rw [exec_ask same, exec_ask given, asked_ask same, asked_ask given, results, questions]
          exact ⟨rfl, rfl⟩

theorem answered_of_exec {program : Scan Ans α} {result : α}
    (ran : program.exec answer text = some result) :
    ∀ query ∈ program.asked answer text, (answer query.2 (text.drop query.1)).isSome := by
  induction program with
  | done first =>
      intro query absent
      cases absent
  | ask place op next ih =>
      cases given : answer op (text.drop place) with
      | none =>
          rw [exec, given] at ran
          cases ran
      | some reply =>
          rw [exec_ask given] at ran
          rw [asked_ask given]
          intro query member
          rcases List.mem_cons.mp member with first | later
          · rw [first, given]
            rfl
          · exact ih reply ran query later

theorem bind_ask (place : Nat) (op : Op) (next : Ans op → Scan Ans α) (rest : α → Scan Ans β) :
    (ask place op next >>= rest) = ask place op fun reply => next reply >>= rest := rfl

theorem exec_bind {program : Scan Ans α} {result : α}
    (ran : program.exec answer text = some result) (rest : α → Scan Ans β) :
    (program >>= rest).exec answer text = (rest result).exec answer text ∧
      (program >>= rest).asked answer text =
        program.asked answer text ++ (rest result).asked answer text := by
  induction program with
  | done first =>
      obtain rfl : first = result := Option.some.inj ran
      exact ⟨rfl, rfl⟩
  | ask place op next ih =>
      cases given : answer op (text.drop place) with
      | none =>
          rw [exec, given] at ran
          cases ran
      | some reply =>
          rw [exec_ask given] at ran
          obtain ⟨results, questions⟩ := ih reply ran
          rw [bind_ask, exec_ask given, asked_ask given, asked_ask given, results, questions]
          exact ⟨rfl, rfl⟩

/-- Whatever the answers are, the result is as `post` says. -/
def Yields (post : α → Prop) : Scan Ans α → Prop
  | done result => post result
  | ask _ _ next => ∀ reply, (next reply).Yields post

theorem Yields.bind {post : α → Prop} {post' : β → Prop} {program : Scan Ans α}
    {rest : α → Scan Ans β} (yields : program.Yields post)
    (later : ∀ result, post result → (rest result).Yields post') :
    (program >>= rest).Yields post' := by
  induction program with
  | done result => exact later result yields
  | ask place op next ih => exact fun reply => ih reply (yields reply)

theorem yields_bind {post : β → Prop} (program : Scan Ans α) {rest : α → Scan Ans β}
    (each : ∀ result, (rest result).Yields post) : (program >>= rest).Yields post := by
  induction program with
  | done result => exact each result
  | ask place op next ih => exact ih

theorem Yields.exec {post : α → Prop} {program : Scan Ans α} {result : α}
    (yields : program.Yields post) (ran : program.exec answer text = some result) :
    post result := by
  induction program with
  | done first =>
      obtain rfl : first = result := Option.some.inj ran
      exact yields
  | ask place op next ih =>
      cases given : answer op (text.drop place) with
      | none =>
          rw [Scan.exec, given] at ran
          cases ran
      | some reply =>
          rw [exec_ask given] at ran
          exact ih reply (yields reply) ran

/-! ### Rules -/

theorem Meets.pure {result : α} {post : α → List (Nat × Op) → Prop} (holds : post result []) :
    (Pure.pure result : Scan Ans α).Meets answer text post := ⟨result, rfl, holds⟩

theorem Meets.imp {program : Scan Ans α} {post post' : α → List (Nat × Op) → Prop}
    (meets : program.Meets answer text post)
    (weaker : ∀ result queries, post result queries → post' result queries) :
    program.Meets answer text post' := by
  obtain ⟨result, ran, holds⟩ := meets
  exact ⟨result, ran, weaker _ _ holds⟩

theorem Meets.bind {program : Scan Ans α} {rest : α → Scan Ans β}
    {post : α → List (Nat × Op) → Prop} {post' : β → List (Nat × Op) → Prop}
    (meets : program.Meets answer text post)
    (later : ∀ result queries, post result queries →
      (rest result).Meets answer text fun last more => post' last (queries ++ more)) :
    (program >>= rest).Meets answer text post' := by
  obtain ⟨result, ran, holds⟩ := meets
  obtain ⟨last, finished, held⟩ := later result _ holds
  obtain ⟨results, questions⟩ := exec_bind ran rest
  refine ⟨last, results.trans finished, ?_⟩
  rw [questions]
  exact held

theorem Meets.ask {place : Nat} {op : Op} {next : Ans op → Scan Ans α} {reply : Ans op}
    {post : α → List (Nat × Op) → Prop} (given : answer op (text.drop place) = some reply)
    (later : (next reply).Meets answer text fun last more => post last ((place, op) :: more)) :
    (Scan.ask place op next).Meets answer text post := by
  obtain ⟨last, finished, held⟩ := later
  refine ⟨last, (exec_ask given).trans finished, ?_⟩
  rw [asked_ask given]
  exact held

end Scan

end DModem.Lib
