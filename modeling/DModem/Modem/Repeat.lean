/-
`A/` and the buffer of the command line.

The last command is kept nowhere but in `at_line`, where the next line is typed over it.
`Editing` runs the editor with the command that was run last beside it, and with a mark
that tells whether the buffer behind its first character is still that of this command.
-/

import DModem.Modem.CommandLine

namespace DModem.Modem

/-! ### The text in the buffer -/

def nonblank (ch : UInt8) : Bool := decide (ch ≠ 32 ∧ ch ≠ 9)

/-- The characters of `at_line` before its terminator, without blanks. -/
def lineText (line : Nat → UInt8) : List UInt8 :=
  (((List.range atLineSize).map line).takeWhile (· ≠ 0)).filter nonblank

def tailText (line : Nat → UInt8) : List UInt8 :=
  (((List.range (atLineSize - 1)).map fun i => line (i + 1)).takeWhile (· ≠ 0)).filter nonblank

/-- A command as `modem_at_process` passes it on. -/
def StartsAt (text : List UInt8) : Prop :=
  ∃ first second rest, text = first :: second :: rest ∧ toUpper first = 65 ∧ toUpper second = 84

section Text

variable {line line' : Nat → UInt8}

theorem takeWhile_filter_nonblank (text : List UInt8) :
    (text.filter nonblank).takeWhile (· ≠ 0) = (text.takeWhile (· ≠ 0)).filter nonblank := by
  induction text with
  | nil => rfl
  | cons ch rest ih =>
      by_cases ends : ch = 0
      · subst ends
        simp [nonblank]
      · by_cases blank : nonblank ch
        · simpa [blank, ends] using ih
        · simpa [blank, ends] using ih

theorem takeWhile_closed {count size : Nat} (within : count < size) (closed : line count = 0) :
    ((List.range size).map line).takeWhile (· ≠ 0) =
      ((List.range count).map line).takeWhile (· ≠ 0) := by
  obtain ⟨more, moreEq⟩ : ∃ more, size = count + (more + 1) := ⟨size - count - 1, by omega⟩
  rw [moreEq, List.range_add, List.map_append, List.range_succ_eq_map]
  simp only [List.map_cons, Nat.add_zero, closed]
  generalize (List.range count).map line = front
  induction front with
  | nil => simp
  | cons ch rest ih =>
      by_cases ends : ch = 0
      · simp [ends]
      · simp only [List.cons_append, List.takeWhile_cons, ne_eq, ends, not_false_eq_true,
          decide_true, if_true, ih]

theorem atCmd_closed {m : Modem} (within : m.atCount < atLineSize)
    (closed : m.atLine m.atCount = 0) : m.atCmd = lineText m.atLine := by
  rw [lineText, takeWhile_closed within closed, ← takeWhile_filter_nonblank]
  rfl

theorem lineText_cons (first : line 0 ≠ 0) (shown : nonblank (line 0) = true) :
    lineText line = line 0 :: tailText line := by
  have sizes : List.range atLineSize = 0 :: (List.range (atLineSize - 1)).map Nat.succ :=
    List.range_succ_eq_map
  rw [lineText, tailText, sizes, List.map_cons, List.map_map,
    List.takeWhile_cons_of_pos (by simpa using first), List.filter_cons_of_pos shown]
  rfl

theorem tailText_congr (same : ∀ i, 1 ≤ i → line' i = line i) : tailText line' = tailText line := by
  unfold tailText
  congr 2
  apply List.map_congr_left
  intro i _
  exact same (i + 1) (by omega)

theorem tailText_blank {count : Nat} (low : 1 ≤ count) (high : count < atLineSize)
    (blanks : ∀ i, i < count → line i = 32) (closed : line count = 0) : tailText line = [] := by
  obtain ⟨more, moreEq⟩ : ∃ more, count = more + 1 := ⟨count - 1, by omega⟩
  have shifted : (fun i => line (i + 1)) more = 0 := by
    change line (more + 1) = 0
    rw [← moreEq]
    exact closed
  rw [tailText, takeWhile_closed (show more < atLineSize - 1 by omega) shifted]
  have all : (List.range more).map (fun i => line (i + 1)) = List.replicate more 32 := by
    rw [List.eq_replicate_iff]
    constructor
    · simp
    · intro ch member
      obtain ⟨i, inside, same⟩ := List.mem_map.mp member
      have below := List.mem_range.mp inside
      rw [← same]
      exact blanks (i + 1) (by omega)
  rw [all, List.filter_eq_nil_iff]
  intro ch member
  have blank := List.eq_of_mem_replicate (List.takeWhile_subset _ member)
  rw [blank]
  decide

theorem tailText_empty (closed : line 1 = 0) : tailText line = [] := by
  have shifted : (fun i => line (i + 1)) 0 = 0 := closed
  rw [tailText, takeWhile_closed (show 0 < atLineSize - 1 by decide) shifted]
  rfl

end Text

/-! ### One character -/

/-- The bounds of the buffer. -/
structure Bounded (m : Modem) : Prop where
  count : m.atCount ≤ atLineSize - 1
  last : m.atLine (atLineSize - 1) = 0

def repeated (m : Modem) (ch : UInt8) : Modem := if m.isRepeat ch then m.repeatLine else m

def endsLine (m : Modem) (ch : UInt8) : Bool :=
  m.isRepeat ch || decide (ch = m.sregs sregCrChar ∨ ch = m.sregs sregLfChar)

section Key

variable {m : Modem}

theorem repeatLine_tty (m : Modem) :
    m.repeatLine.tty = { m.tty with atCount := m.atStrlen } := by
  unfold repeatLine
  rw [tty_echoIf]
  rfl

theorem echoIf_sregs (m : Modem) (bytes : List UInt8) : (m.echoIf bytes).sregs = m.sregs := by
  unfold echoIf
  split <;> rfl

theorem repeated_sregs (m : Modem) (ch : UInt8) : (m.repeated ch).sregs = m.sregs := by
  unfold repeated
  split
  · exact echoIf_sregs { m with atCount := m.atStrlen } _
  · rfl

theorem atStrlen_spec (bounded : m.Bounded) :
    m.atStrlen < atLineSize ∧ m.atLine m.atStrlen = 0 := by
  unfold atStrlen
  cases found : (List.range atLineSize).find? fun i => m.atLine i = 0 with
  | none =>
      have absent := List.find?_eq_none.mp found (atLineSize - 1) (by decide)
      exact absurd bounded.last (by simpa using absent)
  | some i =>
      have member := List.mem_of_find?_eq_some found
      have zero := List.find?_some found
      exact ⟨List.mem_range.mp member, by simpa using zero⟩

theorem repeated_spec (bounded : m.Bounded) (ch : UInt8) :
    (m.repeated ch).Bounded ∧ (m.repeated ch).atLine = m.atLine ∧
      (m.isRepeat ch = true → m.atLine (m.repeated ch).atCount = 0) ∧
      (m.isRepeat ch = false → (m.repeated ch).atCount = m.atCount) := by
  unfold repeated
  cases again : m.isRepeat ch with
  | false =>
      simp only [Bool.false_eq_true, if_false]
      refine ⟨bounded, trivial, ?_, ?_⟩
      · intro absurdly
        exact absurdly.elim
      · intro _
        trivial
  | true =>
      have lengths := atStrlen_spec bounded
      have line : m.repeatLine.atLine = m.atLine := congrArg Tty.atLine (repeatLine_tty m)
      have count : m.repeatLine.atCount = m.atStrlen := congrArg Tty.atCount (repeatLine_tty m)
      simp only [if_true]
      refine ⟨⟨?_, ?_⟩, line, ?_, ?_⟩
      · rw [count]
        omega
      · rw [line]
        exact bounded.last
      · intro _
        rw [count]
        exact lengths.2
      · intro absurdly
        exact absurd absurdly (by decide)

def closedLine (m : Modem) (ch : UInt8) : Nat → UInt8 :=
  Function.update m.atLine (m.repeated ch).atCount 0

inductive KeyEffect (m : Modem) (ch : UInt8) (after : Modem) : Prop where
  | runs (ready : Modem) (ran : m.atRuns ch = some ready)
      (command : ready.atCmd = lineText (m.closedLine ch)) (starts : StartsAt ready.atCmd)
      (ends : m.endsLine ch = true)
      (line : after.atLine = m.closedLine ch) (count : after.atCount = 0)
  | refused (ran : m.atRuns ch = none) (ends : m.endsLine ch = true)
      (plain : ¬ StartsAt (lineText (m.closedLine ch)))
      (line : after.atLine = fun i =>
        if i < (m.repeated ch).atCount then 32 else m.closedLine ch i)
      (count : after.atCount = 0)
  | erased (ran : m.atRuns ch = none) (goes : m.endsLine ch = false)
      (back : ch = m.sregs sregBsChar ∧ m.atCount ≠ 0)
      (line : after.atLine = m.atLine) (count : after.atCount = m.atCount - 1)
  | overflowed (ran : m.atRuns ch = none) (goes : m.endsLine ch = false)
      (new : ¬(ch = m.sregs sregBsChar ∧ m.atCount ≠ 0)) (full : m.atCount = atLineSize - 1)
      (line : after.atLine = Function.update m.atLine 1 0) (count : after.atCount = 0)
  | typed (ran : m.atRuns ch = none) (goes : m.endsLine ch = false)
      (new : ¬(ch = m.sregs sregBsChar ∧ m.atCount ≠ 0)) (room : m.atCount ≠ atLineSize - 1)
      (line : after.atLine = Function.update m.atLine m.atCount ch)
      (count : after.atCount = m.atCount + 1)

theorem notCommand_iff (m : Modem) : m.notCommand = false ↔ StartsAt m.atCmd := by
  unfold notCommand StartsAt
  rw [decide_eq_false_iff_not]
  cases m.atCmd with
  | nil => simp
  | cons first rest =>
      cases rest with
      | nil => simp
      | cons second rest => simp

theorem finishLine_tty (m : Modem) (ret : Int) :
    (m.finishLine ret).atLine = Function.update m.atLine m.atCount 0 ∧
      (m.finishLine ret).atCount = 0 := by
  unfold finishLine
  refine ⟨?_, rfl⟩
  simp only [report_eq]
  split_ifs <;> rfl

theorem eraseLine_tty (m : Modem) :
    (m.eraseLine).atLine = (fun i => if i < m.atCount then 32 else m.atLine i) ∧
      (m.eraseLine).atCount = 0 := by
  unfold eraseLine
  refine ⟨?_, rfl⟩
  exact congrArg Tty.atLine ((tty_echoIf _ _).trans ((tty_echoIf _ _).trans (tty_echoIf _ _)))

theorem processAtCommand_line (m : Modem) (line : AtLine) :
    (m.processAtCommand line).atLine = m.atLine ∧
      (m.processAtCommand line).atCount = m.atCount := by
  have ran := tty_processAtCommand m line
  have lineEq := congrArg Tty.atLine ran
  have countEq := congrArg Tty.atCount ran
  constructor
  · refine Eq.trans lineEq ?_
    split <;> rfl
  · refine Eq.trans countEq ?_
    split <;> rfl

theorem atEndLine_effect (m : Modem) (lines : List AtLine) (within : m.atCount < atLineSize) :
    (∃ ready, m.atLineRuns = some ready ∧
      ready.atCmd = lineText (Function.update m.atLine m.atCount 0) ∧ StartsAt ready.atCmd ∧
      (m.atEndLine lines).1.atLine = Function.update m.atLine m.atCount 0 ∧
      (m.atEndLine lines).1.atCount = 0) ∨
    (m.atLineRuns = none ∧ ¬ StartsAt (lineText (Function.update m.atLine m.atCount 0)) ∧
      (m.atEndLine lines).1.atLine = (fun i =>
        if i < m.atCount then 32 else Function.update m.atLine m.atCount 0 i) ∧
      (m.atEndLine lines).1.atCount = 0) := by
  have text : m.closeLine.atCmd = lineText (Function.update m.atLine m.atCount 0) :=
    atCmd_closed within (Function.update_self ..)
  unfold atLineRuns atEndLine
  cases plain : m.closeLine.notCommand with
  | true =>
      right
      have refuses : ¬ StartsAt m.closeLine.atCmd := by
        intro starts
        rw [(notCommand_iff m.closeLine).mpr starts] at plain
        cases plain
      rw [text] at refuses
      simp only [plain, if_true]
      exact ⟨trivial, refuses, eraseLine_tty m.closeLine⟩
  | false =>
      left
      have starts := (notCommand_iff m.closeLine).mp plain
      have shown := tty_echoIf m.closeLine m.closeLine.crlf
      generalize hasEcho : m.closeLine.echoIf m.closeLine.crlf = ready at shown
      have lineEq : ready.atLine = Function.update m.atLine m.atCount 0 :=
        congrArg Tty.atLine shown
      have countEq : ready.atCount = m.atCount := congrArg Tty.atCount shown
      have cmdEq : ready.atCmd = m.closeLine.atCmd := by
        unfold atCmd
        rw [lineEq, countEq]
        rfl
      simp only [plain, Bool.false_eq_true, if_false, hasEcho]
      refine ⟨ready, rfl, cmdEq.trans text, by rw [cmdEq]; exact starts, ?_, ?_⟩
      · rw [(finishLine_tty _ _).1, (processAtCommand_line _ _).1, (processAtCommand_line _ _).2,
          lineEq, countEq, Function.update_idem]
      · exact (finishLine_tty _ _).2

theorem atChar_effect (bounded : m.Bounded) (ch : UInt8) (lines : List AtLine) :
    KeyEffect m ch (m.atChar ch lines).1 := by
  obtain ⟨bounded', line, _, same⟩ := repeated_spec bounded ch
  have sregs := repeated_sregs m ch
  have runsEq : m.atRuns ch =
      (let key := if m.isRepeat ch then (m.repeated ch).sregs sregCrChar else ch
        let shown := (m.repeated ch).echoIf [key]
        if key = shown.sregs sregCrChar ∨ key = shown.sregs sregLfChar then shown.atLineRuns
        else none) := rfl
  have charEq : m.atChar ch lines =
      (let key := if m.isRepeat ch then (m.repeated ch).sregs sregCrChar else ch
        let shown := (m.repeated ch).echoIf [key]
        if key = shown.sregs sregCrChar ∨ key = shown.sregs sregLfChar then shown.atEndLine lines
        else if key = shown.sregs sregBsChar ∧ shown.atCount ≠ 0 then (shown.eraseChar, lines)
        else if shown.atCount = atLineSize - 1 then (shown.overflowLine, lines)
        else
          ({ shown with
              atLine := Function.update shown.atLine shown.atCount key
              atCount := shown.atCount + 1 }, lines)) := rfl
  simp only [echoIf_sregs, sregs] at runsEq charEq
  have endsEq : m.endsLine ch =
      decide ((if m.isRepeat ch then m.sregs sregCrChar else ch) = m.sregs sregCrChar ∨
        (if m.isRepeat ch then m.sregs sregCrChar else ch) = m.sregs sregLfChar) := by
    unfold endsLine
    cases m.isRepeat ch with
    | false => simp
    | true => simp
  have keyEq : m.endsLine ch = false → (if m.isRepeat ch then m.sregs sregCrChar else ch) = ch := by
    intro goes
    unfold endsLine at goes
    rw [Bool.or_eq_false_iff] at goes
    simp [goes.1]
  have notAgain : m.endsLine ch = false → m.isRepeat ch = false := by
    intro goes
    unfold endsLine at goes
    exact (Bool.or_eq_false_iff.mp goes).1
  generalize (if m.isRepeat ch then m.sregs sregCrChar else ch) = key at runsEq charEq endsEq keyEq
  have shownTty := tty_echoIf (m.repeated ch) [key]
  generalize (m.repeated ch).echoIf [key] = shown at runsEq charEq shownTty
  have shownLine : shown.atLine = m.atLine := (congrArg Tty.atLine shownTty).trans line
  have shownCount : shown.atCount = (m.repeated ch).atCount := congrArg Tty.atCount shownTty
  have within := bounded'.count
  cases ended : m.endsLine ch with
  | true =>
      rw [ended] at endsEq
      have atEnd := of_decide_eq_true endsEq.symm
      rw [if_pos atEnd] at runsEq charEq
      rw [charEq]
      have effect := atEndLine_effect shown lines (by
        rw [shownCount]
        simp only [atLineSize] at within ⊢
        omega)
      rw [shownLine, shownCount] at effect
      rcases effect with ⟨ready, ran, command, starts, lineEq, countEq⟩ |
        ⟨ran, plain, lineEq, countEq⟩
      · exact .runs ready (runsEq.trans ran) command starts ended lineEq countEq
      · exact .refused (runsEq.trans ran) ended plain lineEq countEq
  | false =>
      rw [ended] at endsEq
      have onward := of_decide_eq_false endsEq.symm
      rw [if_neg onward] at runsEq charEq
      rw [same (notAgain ended)] at shownCount
      have keySame := keyEq ended
      subst keySame
      rw [charEq, shownCount]
      by_cases back : key = m.sregs sregBsChar ∧ m.atCount ≠ 0
      · rw [if_pos back]
        have erasedTty : shown.eraseChar.tty = { shown.tty with atCount := shown.atCount - 1 } := by
          unfold eraseChar
          rw [tty_echoIf, tty_echoIf]
          rfl
        refine .erased runsEq ended back ?_ ?_
        · exact (congrArg Tty.atLine erasedTty).trans shownLine
        · exact (congrArg Tty.atCount erasedTty).trans (by rw [shownCount])
      · rw [if_neg back]
        by_cases full : m.atCount = atLineSize - 1
        · rw [if_pos full]
          have clearedTty : shown.overflowLine.tty =
              { shown.tty with atCount := 0, atLine := Function.update shown.atLine 1 0 } := by
            unfold overflowLine
            rw [tty_report]
            have echoed := tty_echoIf shown shown.crlf
            generalize shown.echoIf shown.crlf = next at echoed
            have sameLine : next.atLine = shown.atLine := congrArg Tty.atLine echoed
            rw [← echoed, ← sameLine]
            rfl
          refine .overflowed runsEq ended back full ?_ ?_
          · exact (congrArg Tty.atLine clearedTty).trans (by rw [shownLine])
          · exact congrArg Tty.atCount clearedTty
        · rw [if_neg full]
          refine .typed runsEq ended back full ?_ rfl
          simp only [shownLine]

end Key

/-! ### Whole runs -/

/-- The command that a character makes `modem_at_process` run. -/
def commandOf (m : Modem) (ch : UInt8) : Option (List UInt8) := (m.atRuns ch).map atCmd

/-- The editor, the command lines to come, the command run last, and the mark. -/
structure Editing where
  modem : Modem
  lines : List AtLine
  last : Option (List UInt8)
  fresh : Bool

namespace Editing

/-- Whether a character that runs no command leaves what `A/` repeats.  A line that is no
command is blanked and one that is too long is cut; other characters are typed over the
last command. -/
def staysFresh (e : Editing) (ch : UInt8) : Bool :=
  let m := e.modem
  if m.endsLine ch then
    if (m.repeated ch).atCount = 0 then e.fresh else e.last.isNone
  else if ch = m.sregs sregBsChar ∧ m.atCount ≠ 0 then e.fresh
  else if m.atCount = atLineSize - 1 then e.last.isNone
  else e.fresh && decide (m.atCount = 0 ∨ ch = m.atLine m.atCount)

/-- A character is typed.  A command that is run is what `A/` repeats, unless blanks stand
before it. -/
def key (e : Editing) (ch : UInt8) : Editing :=
  let next := e.modem.atChar ch e.lines
  { modem := next.1
    lines := next.2
    last := (e.modem.commandOf ch).or e.last
    fresh := if (e.modem.commandOf ch).isSome then decide (toUpper (next.1.atLine 0) = 65)
      else e.staysFresh ch }

def start (m : Modem) (lines : List AtLine) : Editing :=
  { modem := m
    lines := lines
    last := none
    fresh := true }

structure Inv (e : Editing) : Prop where
  bounded : e.modem.Bounded
  shaped : ∀ text, e.last = some text → StartsAt text
  recalls : e.fresh = true → tailText e.modem.atLine = (e.last.getD []).drop 1

end Editing

/-- A command with its first letter in upper case. -/
def foldFirst : List UInt8 → List UInt8
  | [] => []
  | ch :: rest => toUpper ch :: rest

section Editing

variable {e : Editing}

theorem letter_shown {ch : UInt8} (letter : toUpper ch = 65) : ch ≠ 0 ∧ nonblank ch = true := by
  constructor
  · rintro rfl
    exact absurd letter (by decide)
  · unfold nonblank
    rw [decide_eq_true_eq]
    constructor
    · rintro rfl
      exact absurd letter (by decide)
    · rintro rfl
      exact absurd letter (by decide)

theorem closedLine_last {m : Modem} (bounded : m.Bounded) (ch : UInt8) :
    m.closedLine ch (atLineSize - 1) = 0 := by
  unfold closedLine
  by_cases atLast : atLineSize - 1 = (m.repeated ch).atCount
  · rw [atLast, Function.update_self]
  · rw [Function.update_of_ne atLast]
    exact bounded.last

theorem Editing.Inv.key (inv : e.Inv) (ch : UInt8) : (e.key ch).Inv := by
  have effect := atChar_effect inv.bounded ch e.lines
  have within := (repeated_spec inv.bounded ch).1.count
  unfold Editing.key
  simp only
  generalize (e.modem.atChar ch e.lines).1 = after at effect
  generalize (e.modem.atChar ch e.lines).2 = others
  cases effect with
  | runs ready ran command starts ends line count =>
      have made : e.modem.commandOf ch = some ready.atCmd := by rw [commandOf, ran]; rfl
      rw [made]
      constructor
      · constructor
        · rw [count]
          exact Nat.zero_le _
        · rw [line]
          exact closedLine_last inv.bounded ch
      · intro text same
        rw [Option.some_or] at same
        rw [← Option.some.inj same]
        exact starts
      · intro letter
        simp only [Option.isSome_some, if_true, decide_eq_true_eq] at letter
        obtain ⟨nonzero, shown⟩ := letter_shown letter
        rw [line] at nonzero shown ⊢
        rw [Option.some_or, Option.getD_some, command, lineText_cons nonzero shown]
        rfl
  | refused ran ends plain line count =>
      have made : e.modem.commandOf ch = none := by rw [commandOf, ran]; rfl
      rw [made]
      simp only [Option.none_or, Option.isSome_none, Bool.false_eq_true, if_false]
      constructor
      · constructor
        · rw [count]
          exact Nat.zero_le _
        · simp only [line]
          rw [if_neg (Nat.not_lt.mpr within)]
          exact closedLine_last inv.bounded ch
      · exact inv.shaped
      · intro stays
        simp only [Editing.staysFresh, ends, if_true] at stays
        by_cases empty : (e.modem.repeated ch).atCount = 0
        · rw [if_pos empty] at stays
          rw [← inv.recalls stays]
          apply tailText_congr
          intro i low
          simp only [line, empty, Nat.not_lt_zero, if_false, closedLine]
          exact Function.update_of_ne (by omega) _ _
        · rw [if_neg empty, Option.isNone_iff_eq_none] at stays
          rw [stays]
          apply tailText_blank (show 1 ≤ (e.modem.repeated ch).atCount by omega)
          · simp only [atLineSize] at within ⊢
            omega
          · intro i below
            simp only [line]
            rw [if_pos below]
          · simp only [line, Nat.lt_irrefl, if_false, closedLine, Function.update_self]
  | erased ran goes back line count =>
      have made : e.modem.commandOf ch = none := by rw [commandOf, ran]; rfl
      rw [made]
      simp only [Option.none_or, Option.isSome_none, Bool.false_eq_true, if_false]
      constructor
      · constructor
        · rw [count]
          have := inv.bounded.count
          omega
        · rw [line]
          exact inv.bounded.last
      · exact inv.shaped
      · intro stays
        simp only [Editing.staysFresh, goes, Bool.false_eq_true, if_false, if_pos back] at stays
        rw [line]
        exact inv.recalls stays
  | overflowed ran goes new full line count =>
      have made : e.modem.commandOf ch = none := by rw [commandOf, ran]; rfl
      rw [made]
      simp only [Option.none_or, Option.isSome_none, Bool.false_eq_true, if_false]
      constructor
      · constructor
        · rw [count]
          exact Nat.zero_le _
        · rw [line, Function.update_of_ne (by decide)]
          exact inv.bounded.last
      · exact inv.shaped
      · intro stays
        simp only [Editing.staysFresh, goes, Bool.false_eq_true, if_false, if_neg new, if_pos full,
          Option.isNone_iff_eq_none] at stays
        rw [stays, line]
        exact tailText_empty (Function.update_self ..)
  | typed ran goes new room line count =>
      have made : e.modem.commandOf ch = none := by rw [commandOf, ran]; rfl
      rw [made]
      simp only [Option.none_or, Option.isSome_none, Bool.false_eq_true, if_false]
      constructor
      · constructor
        · rw [count]
          have := inv.bounded.count
          omega
        · rw [line, Function.update_of_ne (Ne.symm room)]
          exact inv.bounded.last
      · exact inv.shaped
      · intro stays
        simp only [Editing.staysFresh, goes, Bool.false_eq_true, if_false, if_neg new, if_neg room,
          Bool.and_eq_true, decide_eq_true_eq] at stays
        rw [← inv.recalls stays.1, line]
        rcases stays.2 with first | same
        · apply tailText_congr
          intro i low
          exact Function.update_of_ne (by omega) _ _
        · rw [same, Function.update_eq_self]

theorem Editing.Inv.run (chars : List UInt8) (inv : e.Inv) : (chars.foldl Editing.key e).Inv := by
  induction chars generalizing e with
  | nil => exact inv
  | cons ch rest ih => exact ih (inv.key ch)

/-- With the buffer intact, `A/` runs the last command, or nothing if there is none. -/
theorem Editing.Inv.repeats (inv : e.Inv) {ch : UInt8} (again : e.modem.isRepeat ch = true)
    (fresh : e.fresh = true) :
    (e.modem.commandOf ch).map foldFirst = e.last.map foldFirst := by
  have effect := atChar_effect inv.bounded ch e.lines
  have closed := (repeated_spec inv.bounded ch).2.2.1 again
  have ends : e.modem.endsLine ch = true := by rw [endsLine, again]; rfl
  have letter : toUpper (e.modem.atLine 0) = 65 := (of_decide_eq_true again).2.2
  obtain ⟨nonzero, shown⟩ := letter_shown letter
  have lineEq : e.modem.closedLine ch = e.modem.atLine := by
    unfold closedLine
    rw [← closed, Function.update_eq_self]
  have textEq := lineText_cons nonzero shown
  rw [inv.recalls fresh] at textEq
  cases effect with
  | runs ready ran command starts ends line count =>
      rw [commandOf, ran]
      rw [lineEq, textEq] at command
      cases last : e.last with
      | none =>
          rw [command, last] at starts
          obtain ⟨first, second, rest, impossible, _⟩ := starts
          simp at impossible
      | some text =>
          obtain ⟨first, second, rest, shape, upper, _⟩ := inv.shaped text last
          rw [last, shape] at command
          simp only [Option.map_some, command, shape, foldFirst, Option.getD_some,
            List.drop_succ_cons, List.drop_zero, letter, upper]
  | refused ran ends plain line count =>
      rw [commandOf, ran]
      rw [lineEq, textEq] at plain
      cases last : e.last with
      | none => rfl
      | some text =>
          obtain ⟨first, second, rest, shape, _, upper⟩ := inv.shaped text last
          exfalso
          apply plain
          rw [last, shape]
          exact ⟨e.modem.atLine 0, second, rest, rfl, letter, upper⟩
  | erased ran goes => exact absurd ends (by rw [goes]; decide)
  | overflowed ran goes => exact absurd ends (by rw [goes]; decide)
  | typed ran goes => exact absurd ends (by rw [goes]; decide)

end Editing

/-- Whatever is typed, the buffer keeps its bounds, and `A/` runs the last command if nothing
but its first character was typed over, blanked or cut off since. -/
theorem repeat_runs_last_command (m : Modem) (count : m.atCount = 0)
    (line : m.atLine = fun _ => 0) (lines : List AtLine) (chars : List UInt8) :
    let e := chars.foldl Editing.key (Editing.start m lines)
    e.modem.atCount ≤ 63 ∧ e.modem.atLine 63 = 0 ∧
      ∀ ch, e.modem.isRepeat ch = true → e.fresh = true →
        (e.modem.commandOf ch).map foldFirst = e.last.map foldFirst := by
  have started : (Editing.start m lines).Inv := by
    constructor
    · constructor
      · change m.atCount ≤ atLineSize - 1
        rw [count]
        exact Nat.zero_le _
      · change m.atLine (atLineSize - 1) = 0
        rw [line]
    · intro text absurdly
      cases absurdly
    · intro _
      change tailText m.atLine = []
      rw [line]
      exact tailText_empty rfl
  intro e
  have inv : e.Inv := started.run chars
  exact ⟨inv.bounded.count, inv.bounded.last, fun ch again fresh => inv.repeats again fresh⟩

def plainLine : AtLine := { calls := [], ret := 0 }

/-- ATE1, then the repetition with a small letter. -/
theorem repeat_runs_last_command_small :
    let e := [65, 84, 69, 49, 13, 97].foldl Editing.key (Editing.start modemCreate [plainLine])
    e.fresh = true ∧ e.last = some [65, 84, 69, 49] ∧
      e.modem.commandOf 47 = some [97, 84, 69, 49] ∧
      (e.modem.commandOf 47).map foldFirst = e.last.map foldFirst := by
  intro e
  have again : e.modem.isRepeat 47 = true := by decide +kernel
  have fresh : e.fresh = true := by decide +kernel
  refine ⟨fresh, by decide +kernel, by decide +kernel, ?_⟩
  exact (repeat_runs_last_command modemCreate rfl rfl [plainLine] [65, 84, 69, 49, 13, 97]).2.2 47
    again fresh

/-- ATE1Q0, then ATH taken back with three backspaces: `A/` runs ATH1Q0, which was never
typed. -/
theorem repeat_runs_untyped_command :
    let e := [65, 84, 69, 49, 81, 48, 13, 65, 84, 72, 8, 8, 8, 65].foldl Editing.key
      (Editing.start modemCreate [plainLine])
    e.modem.isRepeat 47 = true ∧ e.last = some [65, 84, 69, 49, 81, 48] ∧
      e.modem.commandOf 47 = some [65, 84, 72, 49, 81, 48] ∧
      (e.modem.commandOf 47).map foldFirst ≠ e.last.map foldFirst := by
  decide +kernel

end DModem.Modem
