/-
The loop of `modem_at_process` over the queue.

The loop runs until the queue is empty and does not look at `m->command`.  After a line
that switches to data mode it goes on with whatever is queued behind the terminator,
unless the line was taken with `A` or `D`, which clear the queue.
-/

import DModem.Modem.Tty
import DModem.Modem.WriteRule

namespace DModem.Modem

/-! ### Data mode -/

/-- The modem when a character has been taken out of the queue as command text. -/
def takeKey (m : Modem) (queued : Queued) (rest : List Queued) : Modem :=
  { m with xmit := rest, commandText := m.commandText ++ [queued] }

def keyClears (m : Modem) (ch : UInt8) (lines : List AtLine) : Bool :=
  (m.atRuns ch).elim false fun ready => ready.lineClears (nextLine lines).calls

theorem keyClears_runs {m ready : Modem} {ch : UInt8} (runs : m.atRuns ch = some ready)
    (lines : List AtLine) : m.keyClears ch lines = ready.lineClears (nextLine lines).calls := by
  rw [keyClears, runs]
  rfl

section DataMode

variable {m ready : Modem} {queued : Queued} {rest : List Queued} {lines : List AtLine}

theorem atLoop_empty (rounds : Nat) (empty : m.xmit = []) : atLoop rounds m lines = m := by
  cases rounds with
  | zero => rfl
  | succ rounds => rw [atLoop, empty]

theorem atLoop_key (rounds : Nat) (front : m.xmit = queued :: rest) :
    atLoop (rounds + 1) m lines =
      atLoop rounds ((m.takeKey queued rest).atChar queued.byte lines).1
        ((m.takeKey queued rest).atChar queued.byte lines).2 := by
  rw [atLoop, front]
  rfl

theorem atChar_queue (m : Modem) (ch : UInt8) (lines : List AtLine) :
    (m.atChar ch lines).1.commandText = m.commandText ∧
      (m.atChar ch lines).1.xmit =
        if m.keyClears ch lines then [] else m.xmit := by
  rcases atChar_cases m ch lines with ⟨none, same⟩ | ⟨ready, runs, before, after⟩
  · have quiet : m.keyClears ch lines = false := by
      rw [keyClears, none]
      rfl
    rw [quiet]
    exact ⟨same.commandText, same.xmit⟩
  · have ran := tty_processAtCommand ready (nextLine lines)
    have text := congrArg Tty.commandText ran
    have queue := congrArg Tty.xmit ran
    rw [keyClears_runs runs, after.commandText, after.xmit, ← before.commandText, ← before.xmit]
    change (ready.processAtCommand (nextLine lines)).commandText = _ at text
    change (ready.processAtCommand (nextLine lines)).xmit = _ at queue
    rw [text, queue]
    by_cases clears : ready.lineClears (nextLine lines).calls = true
    · simp only [if_pos clears]
      exact ⟨rfl, rfl⟩
    · simp only [if_neg clears]
      exact ⟨rfl, rfl⟩

theorem atLoop_text (rounds : Nat) (m : Modem) (lines : List AtLine) :
    m.commandText <+: (atLoop rounds m lines).commandText := by
  induction rounds generalizing m lines with
  | zero => exact List.prefix_refl _
  | succ rounds ih =>
      cases waiting : m.xmit with
      | nil => rw [atLoop_empty _ waiting]
      | cons queued rest =>
          rw [atLoop_key rounds waiting]
          apply List.IsPrefix.trans _ (ih _ _)
          rw [(atChar_queue (m.takeKey queued rest) queued.byte lines).1]
          exact List.prefix_append _ _

theorem atLoop_consumes {rounds : Nat} (some : m.xmit ≠ []) (enough : m.xmit.length ≤ rounds) :
    atLoop rounds m lines ≠ m := by
  cases waiting : m.xmit with
  | nil => exact absurd waiting some
  | cons queued rest =>
      obtain ⟨left, leftEq⟩ : ∃ left, rounds = left + 1 :=
        ⟨rounds - 1, by rw [waiting, List.length_cons] at enough; omega⟩
      intro same
      have grown := atLoop_text left ((m.takeKey queued rest).atChar queued.byte lines).1
        ((m.takeKey queued rest).atChar queued.byte lines).2
      rw [← atLoop_key left waiting, ← leftEq, same,
        (atChar_queue (m.takeKey queued rest) queued.byte lines).1] at grown
      have lengths := grown.length_le
      simp only [takeKey, List.length_append, List.length_singleton] at lengths
      omega

end DataMode

/-- A line leaves what is queued behind it alone exactly if nothing is, or if the line clears
the queue itself; whether it ends in data mode does not matter. -/
theorem data_mode_leaves_queue_iff (m ready : Modem) (queued : Queued) (rest : List Queued)
    (lines : List AtLine) (rounds : Nat) (enough : rest.length ≤ rounds)
    (runs : (m.takeKey queued rest).atRuns queued.byte = some ready) :
    (atLoop rounds ((m.takeKey queued rest).atChar queued.byte lines).1
          ((m.takeKey queued rest).atChar queued.byte lines).2 =
        ((m.takeKey queued rest).atChar queued.byte lines).1 ∧
      ((m.takeKey queued rest).atChar queued.byte lines).1.xmit =
        if ready.lineClears (nextLine lines).calls then [] else rest) ↔
      rest = [] ∨ ready.lineClears (nextLine lines).calls = true := by
  have left := (atChar_queue (m.takeKey queued rest) queued.byte lines).2
  rw [keyClears_runs runs] at left
  change _ = if ready.lineClears (nextLine lines).calls then [] else rest at left
  generalize ((m.takeKey queued rest).atChar queued.byte lines).1 = after at left
  generalize ((m.takeKey queued rest).atChar queued.byte lines).2 = others
  constructor
  · rintro ⟨untouched, _⟩
    by_contra neither
    rw [not_or] at neither
    rw [if_neg neither.2] at left
    apply atLoop_consumes _ _ untouched
    · rw [left]
      exact neither.1
    · rw [left]
      exact enough
  · intro fine
    have empty : after.xmit = [] := by
      rcases fine with none | clears
      · rw [left, none]
        split <;> rfl
      · rw [left, if_pos clears]
    exact ⟨atLoop_empty rounds empty, left⟩

def escapedCall : List Event := answeredCall ++ [.write [43, 43, 43] 100 [], .escape]

def onlineLine : AtLine := { calls := [(.online, obedient)], ret := 1 }

def answerLine : AtLine := { calls := [(.answer, obedient)], ret := 1 }

/-- `ATA` is typed, and its end is to come. -/
def typedAnswer : Modem := modemCreate.modemWrite [65, 84, 65] 0 []

def answersNext : Modem :=
  typedAnswer.takeKey { byte := 13, data := false }
    [{ byte := 72, data := false }, { byte := 105, data := false }]

/-- ATA clears the queue: the two characters behind it are gone and none is command text. -/
theorem data_mode_leaves_queue_alone :
    (answersNext.atChar 13 [answerLine]).1.command = false ∧
      answersNext.xmit.length = 2 ∧
      (answersNext.atChar 13 [answerLine]).1.xmit = [] ∧
      atLoop 2 (answersNext.atChar 13 [answerLine]).1 (answersNext.atChar 13 [answerLine]).2 =
        (answersNext.atChar 13 [answerLine]).1 := by
  have ends : (answersNext.atRuns 13).map
      (fun ready => ready.lineClears (nextLine [answerLine]).calls) = some true := by
    decide +kernel
  obtain ⟨ready, runs, clears⟩ := Option.map_eq_some_iff.mp ends
  have holds := (data_mode_leaves_queue_iff typedAnswer ready
    { byte := 13, data := false } [{ byte := 72, data := false }, { byte := 105, data := false }]
    [answerLine] 2 (Nat.le_refl 2) runs).mpr (Or.inr clears)
  have queue := holds.2
  rw [if_pos clears] at queue
  exact ⟨by decide +kernel, rfl, queue, holds.1⟩

/-- ATO and the data behind it in one write: the modem is back in data mode, and the two
characters have gone to the command line. -/
theorem data_after_online_parsed :
    let m := modemCreate.run escapedCall
    let m' := m.step (.write [65, 84, 79, 13, 72, 105] 300 [onlineLine])
    m.state = .commandOnline ∧ m'.state = .modemOnline ∧ m'.command = false ∧ m'.xmit = [] ∧
      m'.commandText.map Queued.byte =
        m.commandText.map Queued.byte ++ [65, 84, 79, 13, 72, 105] := by
  decide +kernel

end DModem.Modem
