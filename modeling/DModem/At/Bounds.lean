/-
The main loop stays inside the command.

With the command at the end of the memory, a read behind its zero byte has no result.  The
loop gets to one in a single way: a sub-command before has been accepted, so that `ret` is 0,
and `+M` is all that is left.
-/

import DModem.At.Inside
import DModem.Modem.Run

namespace DModem.At

open DModem.Lib DModem.Lib.Reading DModem.Modem

/-! ### Passes -/

/-- A case of the switch has read as far as `place`. -/
def Advances (place : Nat) (passed : Passed) : Prop :=
  ∀ sub, passed = .breaks sub → place ≤ sub.len

def Handler.Forward (handler : Handler) : Prop :=
  ∀ board c ret place bound, bound ≤ place →
    (handler board c ret place).Yields (Advances bound)

section Forward

variable {c : Console} {ret : Int} {place bound : Nat}

theorem advances_returns : Advances bound (.returns c ret) := by
  intro sub same
  cases same

theorem advances_breakAt {sub : Sub} (enough : bound ≤ place) :
    Advances bound (breakAt place sub) := by
  intro other same
  cases same
  exact Nat.le_add_right_of_le enough

theorem parsed_forward (parser : Board → Console → Nat → Reading Sub) :
    Handler.Forward (parsed parser) :=
  fun _ _ _ _ _ enough => Scan.yields_bind _ fun _ => advances_breakAt enough

theorem switch_forward {cases : List (UInt8 × Handler)}
    (each : ∀ entry ∈ cases, Handler.Forward entry.2) : Handler.Forward (switch cases) := by
  intro board c ret place bound enough
  apply Scan.yields_bind
  intro key
  cases key with
  | none => exact advances_returns
  | some key =>
      dsimp only
      cases chosen : cases.lookup key with
      | none => exact advances_returns
      | some handler =>
          obtain ⟨before, after, rfl, -⟩ := List.lookup_eq_some_iff.mp chosen
          exact each (key, handler) (List.mem_append_right before List.mem_cons_self) board c ret
            (place + 1) bound (by omega)

theorem starB_forward : Handler.Forward starB := fun _ _ _ _ _ enough => advances_breakAt enough

theorem backslashA_forward : Handler.Forward backslashA :=
  fun _ _ _ _ _ enough => Scan.yields_bind _ fun _ => advances_breakAt enough

theorem plusM_forward : Handler.Forward plusM := by
  intro board c ret place bound enough
  apply Scan.yields_bind
  intro reply
  cases reply with
  | none => exact advances_breakAt (Nat.le_add_right_of_le enough)
  | some s => exact parsed_forward _ board c ret (place + 1) bound (by omega)

theorem hashCommand_forward : Handler.Forward hashCommand := by
  intro board c ret place bound enough
  apply Scan.yields_bind
  intro found
  cases found with
  | false => exact advances_breakAt enough
  | true => exact parsed_forward _ board c ret (place + 3) bound (by omega)

theorem plusF_forward : Handler.Forward plusF := by
  intro board c ret place bound enough
  apply Scan.yields_bind
  intro found
  cases found with
  | false => exact parsed_forward _ board c ret place bound enough
  | true => exact parsed_forward _ board c ret (place + 5) bound (by omega)

theorem plusI_forward : Handler.Forward plusI := by
  intro board c ret place bound enough
  apply Scan.yields_bind
  intro found
  cases found with
  | false => exact advances_breakAt enough
  | true => exact advances_breakAt (Nat.le_add_right_of_le enough)

theorem plusV_forward : Handler.Forward plusV := by
  intro board c ret place bound enough
  unfold plusV
  split
  · exact advances_returns
  · apply Scan.yields_bind
    intro found
    cases found with
    | false => exact parsed_forward _ board c ret place bound enough
    | true => exact parsed_forward _ board c ret (place + 3) bound (by omega)

theorem plusG_forward : Handler.Forward (switch plusGCases) := by
  apply switch_forward
  simp only [plusGCases, List.forall_mem_cons]
  refine ⟨switch_forward ?_, switch_forward ?_, by simp⟩
  · simp only [List.forall_mem_cons]
    exact ⟨parsed_forward _, by simp⟩
  · simp only [List.forall_mem_cons]
    exact ⟨parsed_forward _, parsed_forward _, parsed_forward _, by simp⟩

theorem plus_forward : Handler.Forward (switch plusCases) := by
  apply switch_forward
  simp only [plusCases, List.forall_mem_cons]
  exact ⟨plusG_forward, plusF_forward, plusI_forward, plusM_forward, plusV_forward, by simp⟩

theorem command_forward : ∀ entry ∈ commandCases, Handler.Forward entry.2 := by
  simp only [commandCases, List.forall_mem_cons]
  refine ⟨?_, parsed_forward _, ?_, parsed_forward _, parsed_forward _, parsed_forward _,
    parsed_forward _, parsed_forward _, parsed_forward _, parsed_forward _, parsed_forward _,
    parsed_forward _, parsed_forward _, parsed_forward _, parsed_forward _, parsed_forward _,
    parsed_forward _, ?_, hashCommand_forward, switch_forward ?_, switch_forward ?_,
    switch_forward ?_, plus_forward, switch_forward ?_, by simp⟩
  · exact fun _ _ _ _ _ _ => advances_returns
  · exact fun _ _ _ _ _ _ => Scan.yields_bind _ fun _ => advances_returns
  · exact fun _ _ _ _ _ _ => Scan.yields_bind _ fun _ => advances_returns
  · simp only [percentCases, List.forall_mem_cons]
    exact ⟨parsed_forward _, parsed_forward _, by simp⟩
  · simp only [ampersandCases, List.forall_mem_cons]
    exact ⟨parsed_forward _, parsed_forward _, parsed_forward _, parsed_forward _,
      parsed_forward _, parsed_forward _, parsed_forward _, parsed_forward _, parsed_forward _,
      parsed_forward _, parsed_forward _, parsed_forward _, by simp⟩
  · simp only [List.forall_mem_cons]
    exact ⟨starB_forward, by simp⟩
  · simp only [backslashCases, List.forall_mem_cons]
    exact ⟨backslashA_forward, parsed_forward _, by simp⟩

theorem pass_consumes {board : Board} {text : List UInt8} {sub : Sub}
    (ran : (pass board c ret).exec Query.answer text = some (.breaks sub)) : 1 ≤ sub.len := by
  have forward : (pass board c ret).Yields (Advances 1) := by
    apply Scan.yields_bind
    intro key
    cases key with
    | none => exact advances_returns
    | some key =>
        dsimp only
        cases chosen : commandCases.lookup key with
        | none => exact advances_returns
        | some handler =>
            obtain ⟨before, after, all, -⟩ := List.lookup_eq_some_iff.mp chosen
            apply command_forward (key, handler) ?_ board c ret 1 1 (Nat.le_refl 1)
            rw [all]
            exact List.mem_append_right before List.mem_cons_self
  exact forward.exec ran sub rfl

end Forward

/-! ### Runs of the main loop -/

inductive Passes (board : Board) : Console → List UInt8 → Int → Console → List UInt8 → Int → Prop
  | here {c : Console} {text : List UInt8} {ret : Int} : Passes board c text ret c text ret
  | step {c c' : Console} {text text' : List UInt8} {ret ret' : Int} {first : UInt8} {sub : Sub}
      (more : text.head? = some first) (nonzero : first ≠ 0)
      (ran : (pass board c ret).exec Query.answer text = some (.breaks sub))
      (accepted : sub.ret = 0)
      (later : Passes board sub.console (text.drop sub.len) 0 c' text' ret') :
      Passes board c text ret c' text' ret'

/-- No pass begins with `+M` as all that is left and with `ret` at 0. -/
def NeverPast (board : Board) (c : Console) (body : List UInt8) (ret : Int) : Prop :=
  ∀ c' rest, Passes board c (body ++ [0]) ret c' (rest ++ [0]) 0 → ¬ EndsWithM rest

section Loop

variable {board : Board} {c c' : Console} {text body rest : List UInt8} {ret ret' : Int}
  {fuel : Nat} {first : UInt8} {sub : Sub}

theorem atLoop_end (tail : List UInt8) : atLoop board (fuel + 1) c (0 :: tail) ret =
    some { console := c, ret := 0, ended := true, subs := [] } := rfl

theorem atLoop_returns (more : text.head? = some first) (nonzero : first ≠ 0)
    (ran : (pass board c ret).exec Query.answer text = some (.returns c' ret')) :
    atLoop board (fuel + 1) c text ret =
      some { console := c', ret := ret', ended := false, subs := [] } := by
  rw [atLoop, more]
  simp only [if_neg nonzero, ran]

theorem atLoop_refuses (more : text.head? = some first) (nonzero : first ≠ 0)
    (ran : (pass board c ret).exec Query.answer text = some (.breaks sub))
    (refused : sub.ret ≠ 0) :
    atLoop board (fuel + 1) c text ret =
      some { console := sub.console, ret := sub.ret, ended := false, subs := [] } := by
  rw [atLoop, more]
  simp only [if_neg nonzero, ran, if_pos refused]

theorem atLoop_accepts (more : text.head? = some first) (nonzero : first ≠ 0)
    (ran : (pass board c ret).exec Query.answer text = some (.breaks sub))
    (accepted : sub.ret = 0) :
    atLoop board (fuel + 1) c text ret =
      (atLoop board fuel sub.console (text.drop sub.len) 0).map (Run.prepend sub.len) := by
  rw [atLoop, more]
  simp only [if_neg nonzero, ran, accepted, ne_eq, not_true_eq_false, if_false]

theorem atLoop_inside (noZero : 0 ∉ body) (never : NeverPast board c body ret) :
    ∃ run, ∀ tail fuel, body.length < fuel →
      atLoop board fuel c (body ++ 0 :: tail) ret = some run := by
  induction size : body.length using Nat.strong_induction_on generalizing body c ret with
  | _ size ih =>
      subst size
      cases body with
      | nil =>
          refine ⟨{ console := c, ret := 0, ended := true, subs := [] }, fun tail fuel enough => ?_⟩
          obtain ⟨fuel, rfl⟩ : ∃ less, fuel = less + 1 := ⟨fuel - 1, by omega⟩
          exact atLoop_end tail
      | cons first body =>
          have nonzero : first ≠ 0 := fun zero => noZero (zero ▸ List.mem_cons_self)
          have keeps : (pass board c ret).Meets (first :: body) (Keeps (first :: body)) := by
            apply pass_keeps
            rintro rfl
            exact never c (first :: body) Passes.here
          obtain ⟨passed, ran, kept⟩ := keeps
          have same := exec_zero ran
          cases passed with
          | returns c' ret' =>
              refine ⟨{ console := c', ret := ret', ended := false, subs := [] },
                fun tail fuel enough => ?_⟩
              obtain ⟨fuel, rfl⟩ : ∃ less, fuel = less + 1 := ⟨fuel - 1, by omega⟩
              exact atLoop_returns rfl nonzero (same tail)
          | breaks sub =>
              by_cases accepted : sub.ret = 0
              · obtain ⟨fits, -⟩ := kept sub rfl accepted
                rw [Nat.zero_add] at fits
                have used := pass_consumes ran
                have rest : NeverPast board sub.console ((first :: body).drop sub.len) 0 := by
                  intro c' text later
                  apply never c' text
                  refine Passes.step rfl nonzero ran accepted ?_
                  rw [List.drop_append_of_le_length fits]
                  exact later
                have clean : 0 ∉ (first :: body).drop sub.len :=
                  fun zero => noZero (List.mem_of_mem_drop zero)
                obtain ⟨run, runs⟩ := ih _ (by rw [List.length_drop]; omega) clean rest rfl
                refine ⟨run.prepend sub.len, fun tail fuel enough => ?_⟩
                obtain ⟨fuel, rfl⟩ : ∃ less, fuel = less + 1 := ⟨fuel - 1, by omega⟩
                rw [atLoop_accepts rfl nonzero (same tail) accepted,
                  List.drop_append_of_le_length fits,
                  runs tail fuel (by rw [List.length_drop]; omega)]
                rfl
              · refine ⟨{ console := sub.console, ret := sub.ret, ended := false, subs := [] },
                  fun tail fuel enough => ?_⟩
                obtain ⟨fuel, rfl⟩ : ∃ less, fuel = less + 1 := ⟨fuel - 1, by omega⟩
                exact atLoop_refuses rfl nonzero (same tail) accepted

theorem endsWithM_iff : EndsWithM rest ↔ rest = [43, 77] ∨ rest = [43, 109] := by
  constructor
  · intro ends
    have parts : ∃ plus m, rest = [plus, m] ∧ upper plus = 43 ∧ upper m = 77 := by
      have two : rest.length = 2 := by simpa [word] using congrArg List.length ends
      obtain ⟨plus, m, rfl⟩ := List.length_eq_two.mp two
      exact ⟨plus, m, rfl, (List.cons.inj ends).1, (List.cons.inj (List.cons.inj ends).2).1⟩
    obtain ⟨plus, m, rfl, plusUpper, mUpper⟩ := parts
    have plusEq : plus = 43 := by
      unfold upper at plusUpper
      grind
    have mEq : m = 77 ∨ m = 109 := by
      unfold upper at mUpper
      grind
    rw [plusEq]
    rcases mEq with rfl | rfl
    · exact Or.inl rfl
    · exact Or.inr rfl
  · rintro (rfl | rfl)
    · decide
    · decide

/-- `+M` at the end, with `ret` at 0: the next pass begins behind the zero byte. -/
theorem atLoop_past (ends : EndsWithM rest) : atLoop board fuel c (rest ++ [0]) 0 = none := by
  cases fuel with
  | zero => rfl
  | succ fuel =>
      have ran : (pass board c 0).exec Query.answer (rest ++ [0]) =
          some (.breaks { console := c, ret := 0, len := 3 }) := by
        rcases endsWithM_iff.mp ends with rfl | rfl
        · rfl
        · rfl
      have plus : (rest ++ [0]).head? = some 43 ∧ (rest ++ [0]).drop 3 = [] := by
        rcases endsWithM_iff.mp ends with rfl | rfl
        · exact ⟨rfl, rfl⟩
        · exact ⟨rfl, rfl⟩
      rw [atLoop_accepts plus.1 (by decide) ran rfl, plus.2]
      cases fuel with
      | zero => rfl
      | succ fuel => rfl

theorem atLoop_never (ends : EndsWithM rest)
    (passes : Passes board c text ret c' (rest ++ [0]) 0) :
    atLoop board fuel c text ret = none := by
  generalize stop : rest ++ [0] = last at passes
  generalize zero : (0 : Int) = final at passes
  induction passes generalizing fuel with
  | here =>
      subst stop zero
      exact atLoop_past ends
  | step more nonzero ran accepted later ih =>
      cases fuel with
      | zero => rfl
      | succ fuel =>
          rw [atLoop_accepts more nonzero ran accepted, ih stop zero]
          rfl

end Loop

/-! ### The whole command -/

/-- A command of memory that begins with AT, and what is behind that. -/
def IsBody (text body : List UInt8) : Prop :=
  ∃ a t, text = a :: t :: body ∧ upper a = ch 'A' ∧ upper t = ch 'T'

/-- `process_at_command` reads nothing behind the zero byte: it has a result when the memory
ends there, and the same one whatever is behind it. -/
def StaysInside (board : Board) (c : Console) (text : List UInt8) : Prop :=
  ∃ run, ∀ tail, processAtCommand board c (text ++ 0 :: tail) = some run

/-- Each pass that goes on has used a character. -/
def EachConsumes (board : Board) (c : Console) (text : List UInt8) : Prop :=
  ∀ c' rest ret sub, Passes board c ((text ++ [0]).drop 2) (-1) c' rest ret →
    (pass board c' ret).exec Query.answer rest = some (.breaks sub) → 1 ≤ sub.len

section Command

variable {board : Board} {c : Console} {text body : List UInt8}

theorem processAtCommand_body (isBody : IsBody text body) (tail : List UInt8) :
    processAtCommand board c (text ++ 0 :: tail) =
      atLoop board (text ++ 0 :: tail).length c (body ++ 0 :: tail) (-1) := by
  obtain ⟨a, t, rfl, isA, isT⟩ := isBody
  simp [processAtCommand, isA, isT]

theorem processAtCommand_other (other : ∀ body, ¬ IsBody text body) :
    StaysInside board c text := by
  refine ⟨{ console := c, ret := -1, ended := false, subs := [] }, fun tail => ?_⟩
  unfold processAtCommand
  rcases text with _ | ⟨a, _ | ⟨t, body⟩⟩
  · rfl
  · simp only [List.cons_append, List.nil_append, List.head?_cons, List.drop_succ_cons,
      List.drop_zero]
    by_cases isA : upper a = ch 'A'
    · rw [if_neg (not_not.mpr isA), if_pos (by decide)]
    · rw [if_pos isA]
  · simp only [List.cons_append, List.head?_cons, List.drop_succ_cons, List.drop_zero]
    by_cases isA : upper a = ch 'A'
    · rw [if_neg (not_not.mpr isA)]
      by_cases isT : upper t = ch 'T'
      · exact absurd ⟨a, t, rfl, isA, isT⟩ (other body)
      · rw [if_pos isT]
    · rw [if_pos isA]

/-- The parser stays inside the command exactly if no pass comes to a final `+M` after a
sub-command that was accepted. -/
theorem at_command_inside_iff (noZero : 0 ∉ text) :
    StaysInside board c text ∧ EachConsumes board c text ↔
      ∀ body, IsBody text body → NeverPast board c body (-1) := by
  have consumes : EachConsumes board c text := fun _ _ _ _ _ ran => pass_consumes ran
  rw [and_iff_left consumes]
  constructor
  · rintro ⟨run, runs⟩ body isBody c' rest passes ends
    have ran := runs []
    rw [processAtCommand_body isBody, atLoop_never ends passes] at ran
    cases ran
  · intro never
    by_cases isCommand : ∃ body, IsBody text body
    · obtain ⟨body, isBody⟩ := isCommand
      have clean : 0 ∉ body := by
        obtain ⟨a, t, rfl, -, -⟩ := isBody
        exact fun zero => noZero (List.mem_cons_of_mem a (List.mem_cons_of_mem t zero))
      obtain ⟨run, runs⟩ := atLoop_inside clean (never body isBody)
      refine ⟨run, fun tail => ?_⟩
      rw [processAtCommand_body isBody]
      apply runs
      obtain ⟨a, t, rfl, -, -⟩ := isBody
      simp only [List.length_append, List.length_cons]
      omega
    · exact processAtCommand_other fun body isBody => isCommand ⟨body, isBody⟩

theorem passes_suffix {c' : Console} {rest : List UInt8} {ret ret' : Int}
    (passes : Passes board c text ret c' rest ret') : rest <:+ text := by
  induction passes with
  | here => exact List.suffix_refl _
  | step more nonzero ran accepted later ih => exact ih.trans (List.drop_suffix _ _)

/-- A command that does not end with `+M` is safe. -/
theorem neverPast_of_suffix {ret : Int} (other : ∀ rest, rest <:+ body → ¬ EndsWithM rest) :
    NeverPast board c body ret := by
  intro c' rest passes
  apply other rest
  exact List.suffix_append_self_iff.mp (passes_suffix passes)

end Command

def plainBoard : Board :=
  { device := fun _ => obedient
    faxClass1Command := fun _ _ _ => 0
    modemName := []
    modemVersion := []
    modemAuthor := []
    devName := none
    driverName := none
    homologSet := []
    modemDpDrivers := [] }

def freshConsole : Console :=
  { modem := modemCreate
    minRate := modemMinRate
    maxRate := modemMaxRate
    cidRequested := 0
    voiceInfo :=
      { compMethod := 1
        sampleRate := 8000
        rxGain := 128
        txGain := 128
        dtmfSymbol := 0
        tone1Freq := 933
        tone2Freq := 0
        toneDuration := 150
        inactivityTimer := 0
        silenceDetectSensitivity := 128
        silenceDetectPeriod := 50 }
    homolog := { id := 181, name := [], dialPauseTime := 2, hookFlashTime := 20 }
    dialString := []
    calls := 0 }

/-- `ATE1`. -/
theorem at_command_inside_echo :
    0 ∉ word ['A', 'T', 'E', '1'] ∧
      StaysInside plainBoard freshConsole (word ['A', 'T', 'E', '1']) ∧
      EachConsumes plainBoard freshConsole (word ['A', 'T', 'E', '1']) := by
  have noZero : 0 ∉ word ['A', 'T', 'E', '1'] := by decide
  refine ⟨noZero, (at_command_inside_iff noZero).mpr ?_⟩
  rintro body ⟨a, t, same, -, -⟩
  obtain rfl : word ['E', '1'] = body := (List.cons.inj (List.cons.inj same).2).2
  apply neverPast_of_suffix
  intro rest suffix ends
  rcases endsWithM_iff.mp ends with rfl | rfl
  · exact absurd suffix (by decide)
  · exact absurd suffix (by decide)

/-- `ATE1+M`: the loop goes on behind the zero byte, and what it finds there decides whether
echo is on or off. -/
theorem at_command_past_end :
    ¬ StaysInside plainBoard freshConsole (word ['A', 'T', 'E', '1', '+', 'M']) ∧
      processAtCommand plainBoard freshConsole
        (word ['A', 'T', 'E', '1', '+', 'M'] ++ [0]) = none ∧
      (processAtCommand plainBoard freshConsole
        (word ['A', 'T', 'E', '1', '+', 'M'] ++ 0 :: (word ['E', '0'] ++ [0]))).map
          (fun run => run.console.modem.sregs sregEcho) = some 0 ∧
      (processAtCommand plainBoard freshConsole
        (word ['A', 'T', 'E', '1', '+', 'M'] ++ 0 :: [0])).map
          (fun run => run.console.modem.sregs sregEcho) = some 1 := by
  have stuck : (processAtCommand plainBoard freshConsole
      (word ['A', 'T', 'E', '1', '+', 'M'] ++ [0])).isNone = true := by decide +kernel
  refine ⟨?_, Option.isNone_iff_eq_none.mp stuck, by decide +kernel, by decide +kernel⟩
  rintro ⟨run, runs⟩
  rw [runs []] at stuck
  cases stuck

end DModem.At
