/-
An invariant rule for `modem_write`.

The command line editor works beside the desk; what a write does to the control state it
does by a hang-up or by the calls of the commands that it completes.
-/

import DModem.Modem.LapmRule

namespace DModem.Modem

structure Beside (m m' : Modem) : Prop where
  desk : m'.desk = m.desk
  xmit : m'.xmit = m.xmit
  commandText : m'.commandText = m.commandText

section Beside

variable {m m' m'' : Modem}

theorem Beside.refl (m : Modem) : Beside m m := ⟨rfl, rfl, rfl⟩

theorem Beside.trans (first : Beside m m') (second : Beside m' m'') : Beside m m'' :=
  ⟨second.desk.trans first.desk, second.xmit.trans first.xmit,
    second.commandText.trans first.commandText⟩

theorem Beside.line (first : Beside m m') (atCount : Nat) (atLine : Nat → UInt8) :
    Beside m { m' with atCount := atCount, atLine := atLine } :=
  first.trans ⟨rfl, rfl, rfl⟩

theorem Beside.echoIf (first : Beside m m') (bytes : List UInt8) :
    Beside m (m'.echoIf bytes) := by
  apply first.trans
  unfold Modem.echoIf putEcho
  split
  · exact ⟨by simp [Modem.desk], rfl, rfl⟩
  · exact Beside.refl m'

theorem Beside.report (first : Beside m m') {code : ModemResult} (other : code ≠ .connect) :
    Beside m (m'.modemReportResult code) := by
  apply first.trans
  have same := desk_report m' code
  rw [Desk.report, if_neg other] at same
  have kept : (m'.modemReportResult code).xmit = m'.xmit ∧
      (m'.modemReportResult code).commandText = m'.commandText := by
    rw [report_eq]
    exact ⟨rfl, rfl⟩
  exact ⟨same, kept.1, kept.2⟩

end Beside

/-- The first command line of those to come. -/
def nextLine (lines : List AtLine) : AtLine := lines.headD { calls := [], ret := 0 }

theorem Beside.closeLine {m m' : Modem} (first : Beside m m') : Beside m m'.closeLine :=
  first.line _ _

theorem Beside.eraseLine {m m' : Modem} (first : Beside m m') : Beside m m'.eraseLine :=
  ((((first.line _ _).echoIf _).echoIf _).echoIf _).line _ _

theorem Beside.finishLine {m m' : Modem} (first : Beside m m') (ret : Int) :
    Beside m (m'.finishLine ret) := by
  have reported : Beside m (if ret < 0 then m'.modemReportResult .error
      else if ret = 0 then m'.modemReportResult .ok else m') := by
    split
    · exact first.report (by decide)
    · split
      · exact first.report (by decide)
      · exact first
  exact reported.closeLine.line _ _

theorem Beside.repeatLine {m m' : Modem} (first : Beside m m') : Beside m m'.repeatLine :=
  (first.line _ _).echoIf _

theorem Beside.eraseChar {m m' : Modem} (first : Beside m m') : Beside m m'.eraseChar :=
  ((first.line _ _).echoIf _).echoIf _

theorem Beside.overflowLine {m m' : Modem} (first : Beside m m') : Beside m m'.overflowLine :=
  ((first.echoIf _).line _ _).report (by decide)

theorem atEndLine_cases (m : Modem) (lines : List AtLine) :
    (m.atLineRuns = none ∧ Beside m (m.atEndLine lines).1) ∨
    ∃ ready, m.atLineRuns = some ready ∧ Beside m ready ∧
      Beside (ready.processAtCommand (nextLine lines)) (m.atEndLine lines).1 := by
  have closed := (Beside.refl m).closeLine
  unfold atLineRuns atEndLine
  generalize m.closeLine = ended at closed
  simp only
  split
  · exact Or.inl ⟨rfl, closed.eraseLine⟩
  · exact Or.inr ⟨_, rfl, closed.echoIf _, (Beside.refl _).finishLine _⟩

theorem atChar_cases (m : Modem) (ch : UInt8) (lines : List AtLine) :
    (m.atRuns ch = none ∧ Beside m (m.atChar ch lines).1) ∨
    ∃ ready, m.atRuns ch = some ready ∧ Beside m ready ∧
      Beside (ready.processAtCommand (nextLine lines)) (m.atChar ch lines).1 := by
  have repeated : Beside m (if m.isRepeat ch then m.repeatLine else m) := by
    split
    · exact (Beside.refl m).repeatLine
    · exact Beside.refl m
  unfold atRuns atChar
  simp only
  generalize (if m.isRepeat ch then m.repeatLine else m) = again at repeated
  generalize (if m.isRepeat ch then again.sregs sregCrChar else ch) = key
  have echoed := repeated.echoIf [key]
  generalize again.echoIf [key] = shown at echoed
  split
  · rcases atEndLine_cases shown lines with ⟨none, edited⟩ | ⟨ready, runs, before, after⟩
    · exact Or.inl ⟨none, echoed.trans edited⟩
    · exact Or.inr ⟨ready, runs, echoed.trans before, after⟩
  · apply Or.inl
    refine ⟨rfl, ?_⟩
    split
    · exact echoed.eraseChar
    · split
      · exact echoed.overflowLine
      · exact echoed.line _ _

/-! ### The rule -/

/-- What a write may rely on; `Fine` is what is asked of its calls. -/
structure WriteSafe (P : Modem → Prop) (Fine : Modem → Call → Device → Prop) : Prop where
  quiet : ∀ {m m' : Modem}, P m → m'.desk = m.desk → P m'
  hup : ∀ m : Modem, P m → P (m.modemHup true)
  call : ∀ (m : Modem) (c : Call) (device : Device), P m → Fine m c device → P (m.call device c)

section Rule

variable {P : Modem → Prop} {Fine : Modem → Call → Device → Prop} (safe : WriteSafe P Fine)
include safe

theorem WriteSafe.beside {m m' : Modem} (kept : P m) (same : Beside m m') : P m' :=
  safe.quiet kept same.desk

theorem WriteSafe.calls {m : Modem} (kept : P m) (calls : List (Call × Device))
    (fine : ∀ made ∈ m.callTrace calls, Fine made.1 made.2.1 made.2.2) :
    P (calls.foldl (fun m step => m.call step.2 step.1) m) := by
  induction calls generalizing m with
  | nil => exact kept
  | cons step rest ih =>
      have first := safe.call m step.1 step.2 kept (fine (m, step) (List.mem_cons_self ..))
      exact ih first fun made member => fine made (List.mem_cons_of_mem _ member)

theorem WriteSafe.loop (rounds : Nat) {m : Modem} (kept : P m) (lines : List AtLine)
    (fine : ∀ made ∈ atTrace rounds m lines, Fine made.1 made.2.1 made.2.2) :
    P (atLoop rounds m lines) := by
  induction rounds generalizing m lines with
  | zero => exact kept
  | succ rounds ih =>
      rw [atLoop]
      rw [atTrace] at fine
      cases queue : m.xmit with
      | nil => exact kept
      | cons queued rest =>
          rw [queue] at fine
          simp only at fine ⊢
          have taken : P { m with xmit := rest, commandText := m.commandText ++ [queued] } :=
            safe.quiet kept rfl
          generalize { m with xmit := rest, commandText := m.commandText ++ [queued] } = taker
            at taken fine
          have made := fun call member => fine call (List.mem_append_left _ member)
          have later := fun call member => fine call (List.mem_append_right _ member)
          apply ih _ _ later
          rcases atChar_cases taker queued.byte lines with
            ⟨none, edited⟩ | ⟨ready, runs, before, after⟩
          · exact safe.beside taken edited
          · rw [runs] at made
            exact safe.beside (safe.calls (safe.beside taken before) _ made) after

theorem WriteSafe.write {m : Modem} (kept : P m) (bytes : List UInt8) (now : BitVec 32)
    (lines : List AtLine)
    (fine : ∀ made ∈ m.writeTrace bytes now lines, Fine made.1 made.2.1 made.2.2) :
    P (m.modemWrite bytes now lines) := by
  unfold modemWrite
  unfold writeTrace at fine
  split
  · exact safe.hup m kept
  · rename_i open_
    rw [if_neg open_] at fine
    have checked : P (if m.state = .modemOnline then m.modemCheckEscape bytes now else m) := by
      split
      · unfold modemCheckEscape
        simp only
        split_ifs <;> exact safe.quiet kept rfl
      · exact kept
    simp only at fine ⊢
    generalize (if m.state = .modemOnline then m.modemCheckEscape bytes now else m) = before
      at checked fine
    have queued : P (before.queueBytes bytes) := safe.quiet checked rfl
    change P (if (before.queueBytes bytes).command then
      (before.queueBytes bytes).modemAtProcess lines else before.queueBytes bytes)
    generalize before.queueBytes bytes = ready at queued fine
    split
    · rename_i command
      rw [if_pos command] at fine
      exact safe.loop _ queued lines fine
    · exact queued

end Rule

end DModem.Modem
