/-
The number that is dialled.

What is behind `D` is copied into `dial_string` as it stands, and `socket_start` passes it to
the program that makes the call.  `T` and `P` set their register and stay in front of the
number.
-/

import DModem.At.Settings
import DModem.Modem.Repeat

namespace DModem.At

open DModem.Lib DModem.Lib.Reading DModem.Modem

/-! ### The string that is passed on -/

/-- `dial_string` as `modem_dial_start` leaves it: its first character is taken away while the
object for the call is created, and put back. -/
def startedWith (dialString : List UInt8) : Nat → UInt8 :=
  let buffer : Nat → UInt8 := fun i => dialString.getD i 0
  let save := buffer 0
  let hidden := Function.update buffer 0 0
  Function.update hidden 0 save

/-- The arguments that `socket_start` passes to `execl`. -/
def execArgs (modemExec : List UInt8) (dialString : Nat → UInt8) (socket : Nat) :
    List (List UInt8) :=
  [modemExec, ((List.range 128).map dialString).takeWhile (· ≠ 0), decimalText socket]

/-- The address that `d-modem` calls. -/
def sipUri (domain : List UInt8) (argv : List (List UInt8)) : List UInt8 :=
  (text "sip:" ++ argv.getD 1 [] ++ text "@" ++ domain).take 383

def passedArgs (modemExec : List UInt8) (socket : Nat) (before after : Console) :
    Option (List (List UInt8)) :=
  if after.modem.opens = before.modem.opens then none
  else some (execArgs modemExec (startedWith after.dialString) socket)

theorem startedWith_eq (dialString : List UInt8) (i : Nat) :
    startedWith dialString i = dialString.getD i 0 := by
  unfold startedWith
  dsimp only
  rw [Function.update_idem, Function.update_eq_self]

theorem takeWhile_nonzero {bytes : List UInt8} (noZero : 0 ∉ bytes) :
    bytes.takeWhile (· ≠ 0) = bytes := by
  apply List.takeWhile_eq_self_iff.mpr
  intro c member
  simp only [ne_eq, decide_not, Bool.not_eq_eq_eq_not, Bool.not_true, decide_eq_false_iff_not]
  rintro rfl
  exact noZero member

theorem execArgs_string {dialString : List UInt8} (noZero : 0 ∉ dialString)
    (fits : dialString.length < 128) (modemExec : List UInt8) (socket : Nat) :
    execArgs modemExec (startedWith dialString) socket =
      [modemExec, dialString, decimalText socket] := by
  have ends : startedWith dialString dialString.length = 0 := by
    rw [startedWith_eq]
    simp
  have shown : (List.range dialString.length).map (startedWith dialString) = dialString := by
    apply List.ext_getElem
    · simp
    · intro i _ inside
      simp [startedWith_eq, inside]
  rw [execArgs, takeWhile_closed fits ends, shown, takeWhile_nonzero noZero]

theorem pass_number {board : Board} {c : Console} {ret : Int} {text : List UInt8}
    {first : UInt8} {passed : Passed} (stands : text.head? = some first)
    (other : upper first ≠ ch 'D')
    (ran : (pass board c ret).exec Query.answer text = some passed) :
    passed.console.dialString = c.dialString := by
  rcases pass_cases stands ran with settles | ⟨-, letter | number⟩
  · exact settles.number
  · exact absurd letter other
  · exact number

/-! ### Typing the line -/

def typeKeys (m : Modem) (keys : List UInt8) : Modem :=
  keys.foldl (fun m key => (m.atChar key []).1) m

/-- A line is typed with no key that ends it or takes one back, and then ended. -/
structure Entered (m : Modem) (keys : List UInt8) (ready : Modem) : Prop where
  bounded : m.Bounded
  empty : m.atCount = 0
  fits : keys.length ≤ atLineSize - 1
  noZero : 0 ∉ keys
  goes : ∀ before key after, keys = before ++ key :: after →
    (typeKeys m before).endsLine key = false ∧ key ≠ (typeKeys m before).sregs sregBsChar
  ends : ∃ key, (typeKeys m keys).isRepeat key = false ∧ (typeKeys m keys).atRuns key = some ready

section Typing

variable {m ready : Modem} {keys : List UInt8}

structure Holds (m : Modem) (keys : List UInt8) : Prop where
  bounded : m.Bounded
  count : m.atCount = keys.length
  line : ∀ i (inside : i < keys.length), m.atLine i = keys[i]

theorem Holds.key {key : UInt8} (holds : Holds m keys) (room : keys.length < atLineSize - 1)
    (goes : m.endsLine key = false) (new : key ≠ m.sregs sregBsChar) :
    Holds (m.atChar key []).1 (keys ++ [key]) := by
  cases atChar_effect holds.bounded key [] with
  | runs _ _ _ _ ends => rw [goes] at ends; cases ends
  | refused _ ends => rw [goes] at ends; cases ends
  | erased _ _ back => exact absurd back.1 new
  | overflowed _ _ _ full =>
      rw [holds.count] at full
      omega
  | typed _ _ _ open_ line count =>
      have counted := holds.count
      have bound : atLineSize = 64 := rfl
      constructor
      · constructor
        · rw [count]
          omega
        · rw [line, Function.update_of_ne (by omega)]
          exact holds.bounded.last
      · rw [count, counted, List.length_append, List.length_singleton]
      · intro i inside
        rw [line]
        by_cases last : i = keys.length
        · subst last
          have here : Function.update m.atLine m.atCount key keys.length = key := by
            rw [← counted, Function.update_self]
          rw [here]
          simp
        · have before : i < keys.length := by
            rw [List.length_append, List.length_singleton] at inside
            omega
          rw [Function.update_of_ne (by omega), holds.line i before,
            List.getElem_append_left before]

theorem typeKeys_holds (bounded : m.Bounded) (empty : m.atCount = 0)
    (fits : keys.length ≤ atLineSize - 1)
    (goes : ∀ before key after, keys = before ++ key :: after →
      (typeKeys m before).endsLine key = false ∧
        key ≠ (typeKeys m before).sregs sregBsChar) :
    Holds (typeKeys m keys) keys := by
  induction keys using List.reverseRecOn with
  | nil => exact ⟨bounded, empty, fun i inside => absurd inside (Nat.not_lt_zero i)⟩
  | append_singleton keys key ih =>
      rw [List.length_append, List.length_singleton] at fits
      have shorter := ih (by omega) fun before later after split =>
        goes before later (after ++ [key]) (by rw [split, List.append_assoc, List.cons_append])
      obtain ⟨stays, new⟩ := goes keys key [] rfl
      have typed : typeKeys m (keys ++ [key]) = ((typeKeys m keys).atChar key []).1 := by
        unfold typeKeys
        rw [List.foldl_append]
        rfl
      rw [typed]
      exact shorter.key (by omega) stays new

theorem Entered.command (entered : Entered m keys ready) :
    ready.atCmd = keys.filter nonblank := by
  have holds := typeKeys_holds entered.bounded entered.empty entered.fits entered.goes
  obtain ⟨key, fresh, ran⟩ := entered.ends
  have same : (typeKeys m keys).repeated key = typeKeys m keys := by
    rw [repeated, fresh]
    rfl
  cases atChar_effect holds.bounded key [] with
  | runs ready' ran' command =>
      rw [ran] at ran'
      cases ran'
      have closed : (typeKeys m keys).closedLine key keys.length = 0 := by
        rw [closedLine, same, holds.count, Function.update_self]
      have within : keys.length < atLineSize := by
        have fits := entered.fits
        have bound : atLineSize = 64 := rfl
        omega
      have shown : (List.range keys.length).map ((typeKeys m keys).closedLine key) = keys := by
        apply List.ext_getElem
        · simp
        · intro i _ inside
          rw [List.getElem_map, List.getElem_range, closedLine, same, holds.count,
            Function.update_of_ne (by omega)]
          exact holds.line i inside
      rw [command, lineText, takeWhile_closed within closed, shown,
        takeWhile_nonzero entered.noZero]
  | refused ran' => rw [ran] at ran'; cases ran'
  | erased ran' => rw [ran] at ran'; cases ran'
  | overflowed ran' => rw [ran] at ran'; cases ran'
  | typed ran' => rw [ran] at ran'; cases ran'

end Typing

/-! ### The pass over `D` -/

/-- What is behind `D`: perhaps T or P, in either case, and the number. -/
structure Typed where
  modifier : Option UInt8
  number : List UInt8
  deriving DecidableEq, Repr

def Typed.text (t : Typed) : List UInt8 := t.modifier.toList ++ t.number

structure Typed.Wf (t : Typed) : Prop where
  noZero : 0 ∉ t.text
  modifier : ∀ letter ∈ t.modifier, upper letter = ch 'T' ∨ upper letter = ch 'P'
  plain : t.modifier = none → ∀ first ∈ t.number.head?, upper first ∉ word ['T', 'P', 'L']

section Dialling

variable {board : Board} {c c' : Console} {ret ret' : Int} {text text' body stale : List UInt8}
  {first letter : UInt8} {typed : Typed}

theorem strncpy_text {limit : Nat} (noZero : 0 ∉ body) (fits : body.length < limit) :
    strncpy limit (body ++ 0 :: stale) = some body := by
  induction body generalizing limit with
  | nil =>
      obtain ⟨less, rfl⟩ : ∃ less, limit = less + 1 := ⟨limit - 1, by omega⟩
      rfl
  | cons c body ih =>
      rw [List.length_cons] at fits
      obtain ⟨less, rfl⟩ : ∃ less, limit = less + 1 := ⟨limit - 1, by omega⟩
      rw [List.mem_cons, not_or] at noZero
      rw [List.cons_append, strncpy, if_neg (Ne.symm noZero.1), ih noZero.2 (by omega)]
      rfl

theorem pass_dial {memory : List UInt8} (stands : memory.head? = some first)
    (isDial : upper first = ch 'D') :
    (pass board c ret).exec Query.answer memory =
      (dialHandler board c ret 1).exec Query.answer memory := by
  have here : (memory.drop 0).head? = some first := stands
  rw [pass]
  exact exec_letter here isDial rfl

/-- `D` is the last sub-command. -/
theorem dial_returns {memory : List UInt8} {passed : Passed}
    (stands : memory.head? = some first) (isDial : upper first = ch 'D')
    (ran : (pass board c ret).exec Query.answer memory = some passed) :
    ∃ after result, passed = .returns after result := by
  rw [pass_dial stands isDial] at ran
  have yields : (dialHandler board c ret 1).Yields
      fun passed => ∃ after result, passed = .returns after result :=
    Scan.yields_bind _ fun result => ⟨result.1, result.2, rfl⟩
  exact yields.exec ran

theorem copied_dial {memory : List UInt8} (shown : memory.drop 1 = body ++ 0 :: stale)
    (noZero : 0 ∉ body) (fits : body.length < 128) :
    (copy 128 1 >>= fun number => pure (dial board { c with dialString := number }) :
        Reading (Console × Int)).exec Query.answer memory =
      some (dial board { c with dialString := body }) := by
  have given : (Query.copy 128).answer (memory.drop 1) = some body := by
    rw [shown]
    exact strncpy_text noZero fits
  exact (Scan.exec_bind (Scan.exec_ask given) _).1

theorem told_first {among : List UInt8} {tail : List UInt8} (zero : (0 : UInt8) ∉ among)
    (plain : ∀ first ∈ body.head?, upper first ∉ among) :
    ∃ first, (body ++ 0 :: tail).head? = some first ∧ Query.told true among first = none := by
  cases body with
  | nil => exact ⟨0, rfl, if_neg zero⟩
  | cons first rest => exact ⟨first, rfl, if_neg (plain first rfl)⟩

theorem processD_typed {memory : List UInt8} (shown : memory.drop 1 = typed.text ++ 0 :: stale)
    (wf : typed.Wf) (fits : typed.text.length < 128) :
    ∃ before : Console, before.modem.opens = c.modem.opens ∧ before.dialString = typed.text ∧
      (processD board c 1).exec Query.answer memory = some (dial board before) := by
  cases given : typed.modifier with
  | none =>
      have body : typed.text = typed.number := by
        rw [Typed.text, given]
        rfl
      have plain : ∀ first ∈ typed.text.head?, upper first ∉ word ['T', 'P', 'L'] := by
        rw [body]
        exact wf.plain given
      obtain ⟨next, stands, told⟩ := told_first (by decide) plain
      rw [← shown] at stands
      refine ⟨{ c with dialString := typed.text }, rfl, rfl, ?_⟩
      unfold processD
      apply (exec_told stands).trans
      rw [told]
      exact copied_dial shown wf.noZero fits
  | some modifier =>
      have stands : (memory.drop 1).head? = some modifier := by
        rw [shown, Typed.text, given]
        rfl
      have kind := wf.modifier modifier given
      have member : upper modifier ∈ word ['T', 'P', 'L'] := by
        cases kind with
        | inl tone => rw [tone]; decide
        | inr pulse => rw [pulse]; decide
      have told : Query.told true (word ['T', 'P', 'L']) modifier = some (upper modifier) :=
        if_pos member
      have notLast : upper modifier ≠ ch 'L' := by
        cases kind with
        | inl tone => rw [tone]; decide
        | inr pulse => rw [pulse]; decide
      let register :=
        c.modemSetSreg board sregToneOrPulse (if upper modifier = ch 'T' then 1 else 0)
      refine ⟨{ register with dialString := typed.text }, rfl, rfl, ?_⟩
      unfold processD
      apply (exec_told stands).trans
      rw [told]
      dsimp only
      rw [if_neg notLast]
      exact copied_dial shown wf.noZero fits

theorem send_opens (c : Console) (bytes : List UInt8) :
    (c.sendToTty board bytes).modem.opens = c.modem.opens := rfl

/-- `L` dials what has been dialled before. -/
theorem processD_last {memory : List UInt8} (next : (memory.drop 1).head? = some letter)
    (isLast : upper letter = ch 'L') :
    ∃ before : Console, before.modem.opens = c.modem.opens ∧ before.dialString = c.dialString ∧
      (processD board c 1).exec Query.answer memory = some (dial board before) := by
  have told : Query.told true (word ['T', 'P', 'L']) letter = some (ch 'L') := by
    unfold Query.told
    simp only [if_true, isLast]
    decide
  let shown := (c.sendToTty board (text "Dialing ")).sendToTty board c.dialString
  refine ⟨shown.sendLine board (text "..."), ?_, ?_, ?_⟩
  · rw [Console.sendLine, Console.sendCrlf, send_opens, send_opens, send_opens, send_opens]
  · exact ((settles_send _).trans ((settles_send _).trans (settles_line _))).number
  · unfold processD
    apply (exec_told next).trans
    rw [told]
    rfl

/-- The pass over `D` ends with the dialling. -/
theorem pass_dialled {memory : List UInt8} {result : Console × Int}
    (stands : memory.head? = some first) (isDial : upper first = ch 'D')
    (ran : (processD board c 1).exec Query.answer memory = some result) :
    (pass board c ret).exec Query.answer memory = some (returnWith result) := by
  rw [pass_dial stands isDial]
  exact (Scan.exec_bind ran _).1

/-! ### Whole lines -/

theorem Passes.number (passes : Passes board c text ret c' text' ret') :
    c'.dialString = c.dialString := by
  induction passes with
  | here => rfl
  | @step c c' text text' ret ret' first sub more nonzero ran accepted later ih =>
      rw [ih]
      by_cases isDial : upper first = ch 'D'
      · obtain ⟨after, result, returns⟩ := dial_returns more isDial ran
        cases returns
      · exact pass_number more isDial ran

theorem Passes.dialled {fuel : Nat} {run : Run} {result : Console × Int}
    (passes : Passes board c text ret c' text' ret')
    (stands : text'.head? = some first) (isDial : upper first = ch 'D')
    (dials : (processD board c' 1).exec Query.answer text' = some result)
    (ran : atLoop board fuel c text ret = some run) : run.console = result.1 := by
  induction passes generalizing fuel run with
  | here =>
      have nonzero : first ≠ 0 := by
        rintro rfl
        revert isDial
        decide
      cases fuel with
      | zero => cases ran
      | succ fuel =>
          rw [atLoop_returns stands nonzero (pass_dialled stands isDial dials)] at ran
          cases ran
          rfl
  | step more nonzero passed accepted later ih =>
      cases fuel with
      | zero => cases ran
      | succ fuel =>
          rw [atLoop_accepts more nonzero passed accepted] at ran
          obtain ⟨rest, found, rfl⟩ := Option.map_eq_some_iff.mp ran
          have dialled : rest.console = result.1 := ih stands dials found
          exact dialled

/-- A line without `D` leaves the number. -/
theorem atLoop_number {fuel : Nat} {run : Run} (ran : atLoop board fuel c text ret = some run)
    (other : ∀ c' text' ret' first, Passes board c text ret c' text' ret' →
      text'.head? = some first → upper first ≠ ch 'D') :
    run.console.dialString = c.dialString := by
  induction fuel generalizing c text ret run with
  | zero => cases ran
  | succ fuel ih =>
      cases stands : text.head? with
      | none => simp [atLoop, stands] at ran
      | some first =>
          by_cases nonzero : first = 0
          · simp only [atLoop, stands, if_pos nonzero, Option.some.injEq] at ran
            rw [← ran]
          · have notDial := other c text ret first .here stands
            cases passed : (pass board c ret).exec Query.answer text with
            | none => simp [atLoop, stands, nonzero, passed] at ran
            | some result =>
                have kept := pass_number stands notDial passed
                cases result with
                | returns after value =>
                    rw [atLoop_returns stands nonzero passed] at ran
                    cases ran
                    exact kept
                | breaks sub =>
                    by_cases accepted : sub.ret = 0
                    · rw [atLoop_accepts stands nonzero passed accepted] at ran
                      obtain ⟨rest, found, rfl⟩ := Option.map_eq_some_iff.mp ran
                      have later := ih found fun c' text' ret' first passes =>
                        other c' text' ret' first
                          (.step stands nonzero passed accepted passes)
                      exact later.trans kept
                    · rw [atLoop_refuses stands nonzero passed accepted] at ran
                      cases ran
                      exact kept

end Dialling

/-! ### Sessions -/

structure Arrives (board : Board) (c : Console) (ready : Modem) (c' : Console)
    (place stale : List UInt8) : Prop where
  line : ∃ a t line ret, ready.atCmd = a :: t :: line ∧ upper a = ch 'A' ∧ upper t = ch 'T' ∧
    Passes board { c with modem := ready } (line ++ 0 :: stale) (-1) c' place ret

/-- Command lines one after the other, with the number that was typed last and the arguments
that the line before has passed on.  In between the modem does what it likes. -/
inductive Session (board : Board) (modemExec : List UInt8) (socket : Nat) :
    Console → Option Typed → Option (List (List UInt8)) → Prop
  | start (c : Console) : Session board modemExec socket c none none
  | number {c c' : Console} {last : Option Typed} {passed : Option (List (List UInt8))}
      {typed : Typed} {ready : Modem} {stale : List UInt8} {first : UInt8} {run : Run}
      (before : Session board modemExec socket c last passed)
      (ran : processAtCommand board { c with modem := ready } (ready.atCmd ++ 0 :: stale) =
        some run)
      (arrives : Arrives board c ready c' (first :: (typed.text ++ 0 :: stale)) stale)
      (isDial : upper first = ch 'D') (wf : typed.Wf) (fits : typed.text.length < 128) :
      Session board modemExec socket run.console (some typed)
        (passedArgs modemExec socket c' run.console)
  | redial {c c' : Console} {last : Option Typed} {passed : Option (List (List UInt8))}
      {ready : Modem} {stale rest : List UInt8} {first letter : UInt8} {run : Run}
      (before : Session board modemExec socket c last passed)
      (ran : processAtCommand board { c with modem := ready } (ready.atCmd ++ 0 :: stale) =
        some run)
      (arrives : Arrives board c ready c' (first :: letter :: rest) stale)
      (isDial : upper first = ch 'D') (isLast : upper letter = ch 'L') :
      Session board modemExec socket run.console last
        (passedArgs modemExec socket c' run.console)
  | other {c : Console} {last : Option Typed} {passed : Option (List (List UInt8))}
      {ready : Modem} {stale : List UInt8} {run : Run}
      (before : Session board modemExec socket c last passed)
      (ran : processAtCommand board { c with modem := ready } (ready.atCmd ++ 0 :: stale) =
        some run)
      (noDial : ∀ c' first rest, Arrives board c ready c' (first :: rest) stale →
        upper first ≠ ch 'D') :
      Session board modemExec socket run.console last none

section Sessions

variable {board : Board} {modemExec : List UInt8} {socket : Nat} {c : Console} {typed : Typed}
  {last : Option Typed} {passed : Option (List (List UInt8))}

def Remembers (c : Console) (last : Option Typed) : Prop :=
  ∀ typed ∈ last, c.dialString = typed.text ∧ 0 ∉ typed.text ∧ typed.text.length < 128

variable {c' : Console} {ready : Modem} {place stale : List UInt8} {run : Run}

theorem processAtCommand_line {a t : UInt8} {line : List UInt8}
    (command : ready.atCmd = a :: t :: line) (isA : upper a = ch 'A') (isT : upper t = ch 'T')
    (ran : processAtCommand board c (ready.atCmd ++ 0 :: stale) = some run) :
    ∃ fuel, atLoop board fuel c (line ++ 0 :: stale) (-1) = some run := by
  rw [command] at ran
  simp only [processAtCommand, List.cons_append, List.head?_cons, List.drop_succ_cons,
    List.drop_zero, isA, isT, ne_eq, not_true_eq_false, if_false] at ran
  exact ⟨_, ran⟩

theorem processAtCommand_cases {memory : List UInt8}
    (ran : processAtCommand board c memory = some run) :
    run.console = c ∨
      ∃ a t rest, memory = a :: t :: rest ∧ upper a = ch 'A' ∧ upper t = ch 'T' := by
  unfold processAtCommand at ran
  cases memory with
  | nil => cases ran
  | cons a memory =>
      simp only [List.head?_cons, List.drop_succ_cons, List.drop_zero] at ran
      by_cases isA : upper a = ch 'A'
      · cases memory with
        | nil => simp [isA] at ran
        | cons t rest =>
            by_cases isT : upper t = ch 'T'
            · exact Or.inr ⟨a, t, rest, rfl, isA, isT⟩
            · simp only [isA, isT, List.head?_cons, ne_eq, not_true_eq_false, if_false,
                not_false_eq_true, if_true, Option.some.injEq] at ran
              exact Or.inl (ran ▸ rfl)
      · simp only [isA, ne_eq, not_false_eq_true, if_true, Option.some.injEq] at ran
        exact Or.inl (ran ▸ rfl)

theorem command_of_memory {command stale rest : List UInt8} {a t : UInt8}
    (memory : command ++ 0 :: stale = a :: t :: rest) (isA : upper a = ch 'A')
    (isT : upper t = ch 'T') :
    ∃ a t line, command = a :: t :: line ∧ upper a = ch 'A' ∧ upper t = ch 'T' := by
  have zeroA : upper 0 ≠ ch 'A' := by decide
  have zeroT : upper 0 ≠ ch 'T' := by decide
  cases command with
  | nil =>
      cases memory
      exact absurd isA zeroA
  | cons first command =>
      cases command with
      | nil =>
          cases memory
          exact absurd isT zeroT
      | cons second line =>
          cases memory
          exact ⟨a, t, line, rfl, isA, isT⟩

theorem Arrives.number (arrives : Arrives board c ready c' place stale) :
    c'.dialString = c.dialString := by
  obtain ⟨a, t, line, ret, -, -, -, passes⟩ := arrives.line
  exact passes.number

theorem Arrives.dialled {first : UInt8} {result : Console × Int}
    (arrives : Arrives board c ready c' place stale) (stands : place.head? = some first)
    (isDial : upper first = ch 'D')
    (dials : (processD board c' 1).exec Query.answer place = some result)
    (ran : processAtCommand board { c with modem := ready } (ready.atCmd ++ 0 :: stale) =
      some run) : run.console = result.1 := by
  obtain ⟨a, t, line, ret, command, isA, isT, passes⟩ := arrives.line
  obtain ⟨fuel, looped⟩ := processAtCommand_line command isA isT ran
  exact passes.dialled stands isDial dials looped

theorem processAtCommand_number
    (ran : processAtCommand board { c with modem := ready } (ready.atCmd ++ 0 :: stale) =
      some run)
    (noDial : ∀ c' first rest, Arrives board c ready c' (first :: rest) stale →
      upper first ≠ ch 'D') :
    run.console.dialString = c.dialString := by
  by_cases starts : ∃ a t line, ready.atCmd = a :: t :: line ∧ upper a = ch 'A' ∧ upper t = ch 'T'
  · obtain ⟨a, t, line, command, isA, isT⟩ := starts
    obtain ⟨fuel, looped⟩ := processAtCommand_line command isA isT ran
    apply atLoop_number looped
    intro c' text ret first passes stands
    cases text with
    | nil => cases stands
    | cons head rest =>
        cases stands
        exact noDial c' first rest ⟨a, t, line, ret, command, isA, isT, passes⟩
  · have same : run.console = { c with modem := ready } := by
      cases processAtCommand_cases ran with
      | inl unchanged => exact unchanged
      | inr begins =>
          obtain ⟨a, t, rest, memory, isA, isT⟩ := begins
          exact absurd (command_of_memory memory isA isT) starts
    rw [same]

theorem passedArgs_string {before after : Console} {args : List (List UInt8)}
    (remembers : Remembers after last) (typedLast : last = some typed)
    (starts : passedArgs modemExec socket before after = some args) :
    args = [modemExec, typed.text, decimalText socket] := by
  obtain ⟨string, noZero, fits⟩ := remembers typed typedLast
  unfold passedArgs at starts
  split_ifs at starts
  rw [string, execArgs_string noZero fits, Option.some.injEq] at starts
  exact starts.symm

theorem Session.remembers (session : Session board modemExec socket c last passed) :
    Remembers c last := by
  induction session with
  | start c =>
      intro typed absent
      cases absent
  | @number c c' last passed typed ready stale first run before ran arrives isDial wf fits ih =>
      have shown : (first :: (typed.text ++ 0 :: stale)).drop 1 = typed.text ++ 0 :: stale := rfl
      obtain ⟨dialling, -, string, dials⟩ := processD_typed shown wf fits
      have final := arrives.dialled rfl isDial dials ran
      intro typed' same
      cases same
      rw [final]
      exact ⟨string, wf.noZero, fits⟩
  | @redial c c' last passed ready stale rest first letter run before ran arrives isDial isLast
      ih =>
      have next : ((first :: letter :: rest).drop 1).head? = some letter := rfl
      obtain ⟨dialling, -, string, dials⟩ := processD_last next isLast
      have final := arrives.dialled rfl isDial dials ran
      have kept := arrives.number
      intro typed' same
      have known := ih typed' same
      rw [final]
      exact ⟨string.trans (kept.trans known.1), known.2⟩
  | other before ran noDial ih =>
      intro typed same
      have known := ih typed same
      rw [processAtCommand_number ran noDial]
      exact known

theorem Session.passes (session : Session board modemExec socket c (some typed) passed) :
    ∀ args ∈ passed, args = [modemExec, typed.text, decimalText socket] := by
  have remembers := session.remembers
  intro args member
  cases session with
  | number before ran arrives isDial wf fits => exact passedArgs_string remembers rfl member
  | redial before ran arrives isDial isLast => exact passedArgs_string remembers rfl member
  | other before ran noDial => cases member

/-- **The number dialled.** A line is a command without its blanks, and what the program is given
for a number that has been typed or is dialled again is that number if and only if it has been
typed without T and P. -/
theorem number_dialled_iff {args : List (List UInt8)} (domain : List UInt8)
    (session : Session board modemExec socket c (some typed) (some args))
    (fits : (text "sip:" ++ typed.text ++ text "@" ++ domain).length < 384) :
    (∀ (m ready : Modem) (keys : List UInt8), Entered m keys ready →
        ready.atCmd = keys.filter nonblank) ∧
      (args = [modemExec, typed.number, decimalText socket] ∧
          sipUri domain args = text "sip:" ++ typed.number ++ text "@" ++ domain ↔
        typed.modifier = none) := by
  have given := session.passes args rfl
  constructor
  · exact fun m ready keys entered => entered.command
  · constructor
    · rintro ⟨same, -⟩
      rw [given] at same
      have strings : typed.text = typed.number := by
        injection same with _ rest
        injection rest
      cases modifier : typed.modifier with
      | none => rfl
      | some letter =>
          have longer := congrArg List.length strings
          rw [Typed.text, modifier] at longer
          simp at longer
    · intro plain
      have strings : typed.text = typed.number := by
        rw [Typed.text, plain]
        rfl
      rw [strings] at given fits
      constructor
      · exact given
      · rw [given, sipUri]
        exact List.take_of_length_le (by simpa using Nat.le_of_lt_succ fits)

end Sessions

/-- The first line of a modem, with `D` behind AT. -/
def typedModem (keys : List UInt8) : Modem := (typeKeys modemCreate keys).closeLine

def dialProgram : List UInt8 := text "./d-modem"

theorem first_line_dials (keys : List UInt8) (typed : Typed) (args : List (List UInt8))
    (command : (typedModem keys).atCmd = ch 'A' :: ch 'T' :: ch 'D' :: typed.text)
    (wf : typed.Wf) (fits : typed.text.length < 128)
    (passes : ((processAtCommand plainBoard { freshConsole with modem := typedModem keys }
        ((typedModem keys).atCmd ++ [0])).bind fun run =>
          passedArgs dialProgram 5 { freshConsole with modem := typedModem keys } run.console) =
      some args) :
    ∃ c, Session plainBoard dialProgram 5 c (some typed) (some args) := by
  obtain ⟨run, ran, starts⟩ := Option.bind_eq_some_iff.mp passes
  have arrives : Arrives plainBoard freshConsole (typedModem keys)
      { freshConsole with modem := typedModem keys } (ch 'D' :: (typed.text ++ 0 :: [])) [] :=
    ⟨ch 'A', ch 'T', ch 'D' :: typed.text, -1, command, by decide, by decide, Passes.here⟩
  have begun : Session plainBoard dialProgram 5 freshConsole none none := .start freshConsole
  have session := Session.number begun ran arrives (by decide) wf fits
  rw [starts] at session
  exact ⟨run.console, session⟩

/-- `AT D5-5` calls 5-5. -/
theorem number_dialled_plain :
    ∃ c args, Session plainBoard dialProgram 5 c (some ⟨none, text "5-5"⟩) (some args) ∧
      args = [dialProgram, text "5-5", text "5"] ∧
      sipUri (text "pbx") args = text "sip:5-5@pbx" := by
  obtain ⟨c, session⟩ := first_line_dials (text "AT D5-5") ⟨none, text "5-5"⟩
    [dialProgram, text "5-5", text "5"] (by decide +kernel)
    ⟨by decide +kernel, by decide +kernel, by decide +kernel⟩ (by decide +kernel)
    (by decide +kernel)
  have dialled := number_dialled_iff (text "pbx") session (by decide +kernel)
  exact ⟨c, _, session, dialled.2.mpr rfl⟩

/-- `ATDT5` calls T5. -/
theorem number_dialled_modified :
    ∃ c args, Session plainBoard dialProgram 5 c (some ⟨some (ch 'T'), text "5"⟩) (some args) ∧
      sipUri (text "pbx") args = text "sip:T5@pbx" ∧
      args ≠ [dialProgram, text "5", text "5"] := by
  obtain ⟨c, session⟩ := first_line_dials (text "ATDT5") ⟨some (ch 'T'), text "5"⟩
    [dialProgram, text "T5", text "5"] (by decide +kernel)
    ⟨by decide +kernel, by decide +kernel, by decide +kernel⟩ (by decide +kernel)
    (by decide +kernel)
  exact ⟨c, _, session, by decide +kernel, by decide +kernel⟩

end DModem.At
