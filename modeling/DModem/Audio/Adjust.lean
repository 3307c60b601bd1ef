/-
The delay adjustment of the audio loops.

A negative `update_delay` asks for samples to be left out.  Both loops skip whole reads while
that many are still to go; in the read where the rest ends, `modem_test_run` goes on behind
the rest, and `modem_run` passes the buffer from its beginning.
-/

import Mathlib.Data.List.Basic
import Mathlib.Algebra.Ring.Int.Defs

namespace DModem.Audio

/-- `update_delay`, the `delay` of the device, and the samples that `modem_process` has been
given. -/
structure Loop (α : Type) where
  updateDelay : Int
  delay : Int
  passed : List α
  deriving DecidableEq, Repr

/-- What one round reads, and the `update_delay` that `modem_process` sets, if any. -/
structure Round (α : Type) where
  inbuf : List α
  request : Option Int
  deriving DecidableEq, Repr

namespace Loop

variable {α : Type}

/-- `modem_process`, and the silence that a positive `update_delay` asks for; `unit` is what a
sample counts in `delay`. -/
def process (unit : Int) (s : Loop α) (block : List α) (request : Option Int) : Loop α :=
  let updateDelay := request.getD s.updateDelay
  let s := { s with passed := s.passed ++ block, updateDelay := updateDelay }
  if s.updateDelay > 0 then { s with delay := s.delay + unit * s.updateDelay, updateDelay := 0 }
  else s

/-- The branch of `modem_run` for the device.  The pointer `in` is moved, by as many bytes, and
not used. -/
def modemRun (s : Loop α) (round : Round α) : Loop α :=
  let count : Int := round.inbuf.length
  if s.updateDelay < 0 then
    if -s.updateDelay ≥ count then
      { s with delay := s.delay - count, updateDelay := s.updateDelay + count }
    else
      let count := count + s.updateDelay
      let s := { s with delay := s.delay + s.updateDelay, updateDelay := 0 }
      s.process 1 (round.inbuf.take count.toNat) round.request
  else s.process 1 round.inbuf round.request

/-- The branch of `modem_test_run` for a modem that is started; `count` and `delay` are in
bytes. -/
def modemTestRun (s : Loop α) (round : Round α) : Loop α :=
  let count : Int := round.inbuf.length * 2
  if s.updateDelay < 0 then
    if -s.updateDelay ≥ count / 2 then
      { s with delay := s.delay - count, updateDelay := s.updateDelay + count / 2 }
    else
      let moved := (-s.updateDelay * 2).toNat
      let count := count + s.updateDelay * 2
      let s := { s with delay := s.delay + s.updateDelay * 2, updateDelay := 0 }
      s.process 2 ((round.inbuf.drop (moved / 2)).take (count / 2).toNat) round.request
  else s.process 2 round.inbuf round.request

/-- Rounds in which nothing is asked for. -/
def quiet (reads : List (List α)) : List (Round α) :=
  reads.map fun inbuf => { inbuf := inbuf, request := none }

end Loop

/-- The rest ends with a read, or it makes no difference which of the samples of that read are
left out. -/
def CutsEvenly {α : Type} : Nat → List (List α) → Prop
  | _, [] => True
  | rest, inbuf :: reads =>
      if inbuf.length ≤ rest then CutsEvenly (rest - inbuf.length) reads
      else inbuf.take (inbuf.length - rest) = inbuf.drop rest

namespace Loop

section Rounds

variable {α : Type} {s : Loop α} {rest : Nat} {inbuf : List α} {reads : List (List α)}

/-! ### One round -/

theorem modemRun_whole (pending : s.updateDelay = -rest) (positive : 0 < rest)
    (whole : inbuf.length ≤ rest) :
    s.modemRun ⟨inbuf, none⟩ =
      { s with
        delay := s.delay - inbuf.length
        updateDelay := -(rest - inbuf.length : Nat) } := by
  unfold modemRun
  dsimp only
  rw [if_pos (by omega), if_pos (by omega)]
  congr 1
  omega

theorem modemRun_cut (pending : s.updateDelay = -rest) (positive : 0 < rest)
    (cut : rest < inbuf.length) :
    s.modemRun ⟨inbuf, none⟩ =
      { updateDelay := 0
        delay := s.delay - rest
        passed := s.passed ++ inbuf.take (inbuf.length - rest) } := by
  have count : ((inbuf.length : Int) + s.updateDelay).toNat = inbuf.length - rest := by omega
  unfold modemRun process
  dsimp only
  rw [if_pos (by omega), if_neg (by omega), if_neg (by simp), count, pending]
  rfl

theorem modemRun_steady (steady : s.updateDelay = 0) :
    s.modemRun ⟨inbuf, none⟩ = { s with passed := s.passed ++ inbuf } := by
  unfold modemRun process
  dsimp only
  rw [if_neg (by omega), if_neg (by simp [steady])]
  rfl

theorem modemTestRun_whole (pending : s.updateDelay = -rest) (positive : 0 < rest)
    (whole : inbuf.length ≤ rest) :
    s.modemTestRun ⟨inbuf, none⟩ =
      { s with
        delay := s.delay - inbuf.length * 2
        updateDelay := -(rest - inbuf.length : Nat) } := by
  unfold modemTestRun
  dsimp only
  rw [if_pos (by omega), if_pos (by omega)]
  congr 1
  omega

theorem modemTestRun_cut (pending : s.updateDelay = -rest) (positive : 0 < rest)
    (cut : rest < inbuf.length) :
    s.modemTestRun ⟨inbuf, none⟩ =
      { updateDelay := 0
        delay := s.delay - rest * 2
        passed := s.passed ++ inbuf.drop rest } := by
  have moved : (-s.updateDelay * 2).toNat / 2 = rest := by omega
  have count : (((inbuf.length : Int) * 2 + s.updateDelay * 2) / 2).toNat =
      inbuf.length - rest := by omega
  have all : (inbuf.drop rest).take (inbuf.length - rest) = inbuf.drop rest := by
    apply List.take_of_length_le
    rw [List.length_drop]
  unfold modemTestRun process
  dsimp only
  rw [if_pos (by omega), if_neg (by omega), if_neg (by simp), moved, count, all, pending,
    Int.neg_mul]
  rfl

theorem modemTestRun_steady (steady : s.updateDelay = 0) :
    s.modemTestRun ⟨inbuf, none⟩ = { s with passed := s.passed ++ inbuf } := by
  unfold modemTestRun process
  dsimp only
  rw [if_neg (by omega), if_neg (by simp [steady])]
  rfl

/-! ### All rounds -/

theorem drop_whole {later : List α} (whole : inbuf.length ≤ rest) :
    (inbuf ++ later).drop rest = later.drop (rest - inbuf.length) := by
  rw [List.drop_append, List.drop_eq_nil_of_le whole, List.nil_append]

theorem cutsEvenly_zero (reads : List (List α)) : CutsEvenly 0 reads := by
  induction reads with
  | nil => exact trivial
  | cons inbuf reads ih =>
      rw [CutsEvenly]
      split
      · rw [Nat.zero_sub]
        exact ih
      · rw [Nat.sub_zero, List.take_length, List.drop_zero]

theorem steady_run {step : Loop α → Round α → Loop α}
    (each : ∀ (s : Loop α) (inbuf : List α), s.updateDelay = 0 →
      step s ⟨inbuf, none⟩ = { s with passed := s.passed ++ inbuf })
    (steady : s.updateDelay = 0) :
    (quiet reads).foldl step s = { s with passed := s.passed ++ reads.flatten } := by
  induction reads generalizing s with
  | nil => simp [quiet]
  | cons inbuf reads ih =>
      have first := each s inbuf steady
      have later := ih (s := { s with passed := s.passed ++ inbuf }) steady
      calc (quiet (inbuf :: reads)).foldl step s
          = (quiet reads).foldl step (step s ⟨inbuf, none⟩) := rfl
        _ = (quiet reads).foldl step { s with passed := s.passed ++ inbuf } := by rw [first]
        _ = { s with passed := s.passed ++ (inbuf :: reads).flatten } := by
            rw [later, List.flatten_cons, List.append_assoc]

/-- `modem_test_run` leaves out exactly the samples that are asked for. -/
theorem modemTestRun_run (reads : List (List α)) (pending : s.updateDelay = -rest) :
    ((quiet reads).foldl modemTestRun s).passed = s.passed ++ reads.flatten.drop rest := by
  induction reads generalizing s rest with
  | nil => simp [quiet]
  | cons inbuf reads ih =>
      have split : (quiet (inbuf :: reads)).foldl modemTestRun s =
          (quiet reads).foldl modemTestRun (s.modemTestRun ⟨inbuf, none⟩) := rfl
      by_cases positive : 0 < rest
      · by_cases whole : inbuf.length ≤ rest
        · rw [split, modemTestRun_whole pending positive whole, ih rfl, List.flatten_cons,
            drop_whole whole]
        · rw [split, modemTestRun_cut pending positive (by omega),
            steady_run (fun _ _ => modemTestRun_steady) rfl, List.flatten_cons,
            List.drop_append_of_le_length (by omega), List.append_assoc]
      · obtain rfl : rest = 0 := by omega
        rw [steady_run (fun _ _ => modemTestRun_steady) (by simpa using pending)]
        rfl

/-- `modem_run` ends the adjustment, with the device lower by it. -/
theorem modemRun_accounts (reads : List (List α)) (pending : s.updateDelay = -rest) :
    ((quiet reads).foldl modemRun s).updateDelay = -(rest - reads.flatten.length : Nat) ∧
      ((quiet reads).foldl modemRun s).delay = s.delay - (min rest reads.flatten.length : Nat) := by
  induction reads generalizing s rest with
  | nil => simp [quiet, pending]
  | cons inbuf reads ih =>
      have split : (quiet (inbuf :: reads)).foldl modemRun s =
          (quiet reads).foldl modemRun (s.modemRun ⟨inbuf, none⟩) := rfl
      have total : (inbuf :: reads).flatten.length = inbuf.length + reads.flatten.length := by
        rw [List.flatten_cons, List.length_append]
      by_cases positive : 0 < rest
      · by_cases whole : inbuf.length ≤ rest
        · rw [split, modemRun_whole pending positive whole]
          obtain ⟨done, lower⟩ := ih (s := { s with
            delay := s.delay - inbuf.length
            updateDelay := -(rest - inbuf.length : Nat) }) rfl
          rw [done, lower, total]
          dsimp only
          constructor
          · omega
          · omega
        · rw [split, modemRun_cut pending positive (by omega),
            steady_run (fun _ _ => modemRun_steady) rfl, total]
          constructor
          · dsimp only
            omega
          · dsimp only
            omega
      · obtain rfl : rest = 0 := by omega
        rw [steady_run (fun _ _ => modemRun_steady) (by simpa using pending)]
        constructor
        · simp [pending]
        · simp

/-- `modem_run` leaves out the samples that are asked for, or others in their place. -/
theorem modemRun_run_iff (pending : s.updateDelay = -rest) :
    ((quiet reads).foldl modemRun s).passed = s.passed ++ reads.flatten.drop rest ↔
      CutsEvenly rest reads := by
  induction reads generalizing s rest with
  | nil => simp [quiet, CutsEvenly]
  | cons inbuf reads ih =>
      have split : (quiet (inbuf :: reads)).foldl modemRun s =
          (quiet reads).foldl modemRun (s.modemRun ⟨inbuf, none⟩) := rfl
      by_cases positive : 0 < rest
      · by_cases whole : inbuf.length ≤ rest
        · rw [split, modemRun_whole pending positive whole, CutsEvenly, if_pos whole,
            List.flatten_cons, drop_whole whole]
          exact ih rfl
        · rw [split, modemRun_cut pending positive (by omega),
            steady_run (fun _ _ => modemRun_steady) rfl, CutsEvenly, if_neg whole,
            List.flatten_cons, List.drop_append_of_le_length (by omega), List.append_assoc,
            List.append_cancel_left_eq, List.append_cancel_right_eq]
      · obtain rfl : rest = 0 := by omega
        rw [steady_run (fun _ _ => modemRun_steady) (by simpa using pending)]
        exact iff_of_true rfl (cutsEvenly_zero (inbuf :: reads))

end Rounds

end Loop

/-- **Delay adjustment.** While an adjustment by `rest` samples is pending, the samples that
`modem_run` goes on to process are what it reads without the next `rest` samples, as those of
`modem_test_run` are, and the adjustment is settled with them, if and only if it ends with a
read or the read in which it ends does not show the difference. -/
theorem adjustment_removes_next_iff {α : Type} (s : Loop α) (rest : Nat) (reads : List (List α))
    (pending : s.updateDelay = -rest) :
    (((Loop.quiet reads).foldl Loop.modemRun s).passed = s.passed ++ reads.flatten.drop rest ∧
        ((Loop.quiet reads).foldl Loop.modemRun s).passed =
          ((Loop.quiet reads).foldl Loop.modemTestRun s).passed ∧
        (rest ≤ reads.flatten.length →
          ((Loop.quiet reads).foldl Loop.modemRun s).updateDelay = 0 ∧
          ((Loop.quiet reads).foldl Loop.modemRun s).delay = s.delay - rest)) ↔
      CutsEvenly rest reads := by
  have tested := Loop.modemTestRun_run reads pending
  obtain ⟨settled, lower⟩ := Loop.modemRun_accounts reads pending
  constructor
  · rintro ⟨removed, -, -⟩
    exact (Loop.modemRun_run_iff pending).mp removed
  · intro even
    have removed := (Loop.modemRun_run_iff pending).mpr even
    refine ⟨removed, removed.trans tested.symm, ?_⟩
    intro enough
    rw [settled, lower, Nat.min_eq_left enough]
    constructor
    · omega
    · rfl

/-- Three samples asked for by `modem_process`, and reads of two samples and of one. -/
theorem adjustment_removes_even :
    let s := Loop.modemRun { updateDelay := 0, delay := 192, passed := [] } ⟨[7, 8], some (-3)⟩
    s.updateDelay = -(3 : Nat) ∧
      ((Loop.quiet [[1, 2], [3], [4, 5]]).foldl Loop.modemRun s).passed =
        s.passed ++ [1, 2, 3, 4, 5].drop 3 := by
  have pending : (Loop.modemRun { updateDelay := 0, delay := 192, passed := [] }
      ⟨[7, 8], some (-3)⟩).updateDelay = -(3 : Nat) := by decide
  have even : CutsEvenly 3 [[1, 2], [3], [4, 5]] := by
    simp [CutsEvenly]
  exact ⟨pending, ((adjustment_removes_next_iff _ 3 [[1, 2], [3], [4, 5]] pending).mpr even).1⟩

/-- Of a read of three samples the last one is left out instead of the first. -/
theorem adjustment_removes_last :
    let s := Loop.modemRun { updateDelay := 0, delay := 192, passed := [] } ⟨[7, 8], some (-1)⟩
    s.updateDelay = -(1 : Nat) ∧
      ((Loop.quiet [[1, 2, 3]]).foldl Loop.modemRun s).passed = [7, 8, 1, 2] ∧
      ((Loop.quiet [[1, 2, 3]]).foldl Loop.modemTestRun s).passed = [7, 8, 2, 3] ∧
      ((Loop.quiet [[1, 2, 3]]).foldl Loop.modemRun s).passed ≠
        s.passed ++ [1, 2, 3].drop 1 := by
  decide

end DModem.Audio
