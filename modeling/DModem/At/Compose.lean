/-
Sub-commands compose.

A command line is worked through from the left, and what is behind a sub-command is not looked
at, unless it goes on with its number.  The variable `ret` is carried over, and three cases of
the switch leave it as it is: they are refused at the beginning of a line and accepted behind
any other sub-command.
-/

import DModem.At.Sregs

namespace DModem.At

open DModem.Lib DModem.Lib.Reading DModem.Modem

/-! ### The variable `ret` -/

/-- A case of the switch that sets `ret`. -/
def Handler.Sets (handler : Handler) : Prop :=
  ∀ board c ret ret' place, handler board c ret place = handler board c ret' place

/-- A sub-command that leaves `ret` as it is: `*B`, `\A`, or `+M` without an S. -/
def LeavesRet (b : List UInt8) : Prop :=
  (∃ x rest, b = ch '*' :: x :: rest ∧ upper x = ch 'B') ∨
  (∃ x rest, b = ch '\\' :: x :: rest ∧ upper x = ch 'A') ∨
  ∃ x rest, b = ch '+' :: x :: rest ∧ upper x = ch 'M' ∧ rest.head?.map upper ≠ some (ch 'S')

section Sets

variable {board : Board} {c : Console} {ret ret' : Int} {place : Nat} {memory : List UInt8}
  {first : UInt8} {cases : List (UInt8 × Handler)}

theorem parsed_sets (parser : Board → Console → Nat → Reading Sub) :
    Handler.Sets (parsed parser) := fun _ _ _ _ _ => rfl

theorem switch_sets (each : ∀ entry ∈ cases, Handler.Sets entry.2) :
    Handler.Sets (switch cases) := by
  intro board c ret ret' place
  unfold switch
  congr 1
  funext key
  cases key with
  | none => rfl
  | some key =>
      cases chosen : cases.lookup key with
      | none => simp only [chosen]
      | some handler =>
          obtain ⟨before, after, rfl, -⟩ := List.lookup_eq_some_iff.mp chosen
          simp only [chosen]
          exact each (key, handler) (List.mem_append_right before List.mem_cons_self) board c ret
            ret' (place + 1)

theorem hashCommand_sets : Handler.Sets hashCommand := fun _ _ _ _ _ => rfl

theorem exec_told {α : Type} {raise : Bool} {among : List UInt8}
    {next : Option UInt8 → Reading α} (stands : (memory.drop place).head? = some first) :
    ((Scan.ask place (.peek raise among) Scan.done : Reading (Option UInt8)) >>= next).exec
        Query.answer memory =
      (next (Query.told raise among first)).exec Query.answer memory := by
  have given : (Query.peek raise among).answer (memory.drop place) =
      some (Query.told raise among first) :=
    congrArg (Option.map (Query.told raise among)) stands
  exact (Scan.exec_bind (Scan.exec_ask given) next).1

theorem exec_refused (stands : (memory.drop place).head? = some first)
    (missing : cases.lookup (upper first) = none) :
    (switch cases board c ret place).exec Query.answer memory = some (.returns c (-1)) := by
  have absent : upper first ∉ cases.map Prod.fst := by
    intro present
    obtain ⟨entry, member, same⟩ := List.mem_map.mp present
    have found := List.lookup_eq_none_iff.mp missing entry member
    rw [same] at found
    simp at found
  have told : Query.told true (cases.map Prod.fst) first = none := by
    unfold Query.told
    simp only [if_true, if_neg absent]
  refine (exec_told stands).trans ?_
  rw [told]
  rfl

/-- A switch does the same for every `ret` if the case for its letter does. -/
theorem exec_switch_same (stands : (memory.drop place).head? = some first)
    (same : ∀ handler, (upper first, handler) ∈ cases →
      (handler board c ret (place + 1)).exec Query.answer memory =
        (handler board c ret' (place + 1)).exec Query.answer memory) :
    (switch cases board c ret place).exec Query.answer memory =
      (switch cases board c ret' place).exec Query.answer memory := by
  cases chosen : cases.lookup (upper first) with
  | none => rw [exec_refused stands chosen, exec_refused stands chosen]
  | some handler =>
      rw [exec_letter stands rfl chosen, exec_letter stands rfl chosen]
      obtain ⟨before, after, rfl, -⟩ := List.lookup_eq_some_iff.mp chosen
      exact same handler (List.mem_append_right before List.mem_cons_self)

theorem upper_symbol {symbol : UInt8} (isSymbol : symbol ∈ word ['*', '+', '\\'])
    (raised : upper first = symbol) : first = symbol := by
  have every : ∀ n < 256, upper (UInt8.ofNat n) ∈ word ['*', '+', '\\'] →
      UInt8.ofNat n = upper (UInt8.ofNat n) := by
    decide +kernel
  have known := every first.toNat first.toNat_lt
  rw [UInt8.ofNat_toNat, raised] at known
  exact known isSymbol

theorem upper_letter_ne_zero {letter : UInt8} (isLetter : letter ∈ word ['A', 'B', 'M'])
    (raised : upper first = letter) : first ≠ 0 := by
  rintro rfl
  rw [← raised] at isLetter
  revert isLetter
  decide

theorem head_closed (b : List UInt8) : ∃ first, (b ++ [0]).head? = some first ∧
    (first ≠ 0 → ∃ rest, b = first :: rest) := by
  cases b with
  | nil => exact ⟨0, rfl, fun nonzero => absurd rfl nonzero⟩
  | cons first rest => exact ⟨first, rfl, fun _ => ⟨rest, rfl⟩⟩

/-- The cases of the main switch behind which `ret` may be left. -/
def SetsUnlessNested (entry : UInt8 × Handler) : Prop :=
  Handler.Sets entry.2 ∨ entry = (ch '*', switch [(ch 'B', starB)]) ∨
    entry = (ch '+', switch plusCases) ∨ entry = (ch '\\', switch backslashCases)

theorem command_sets : ∀ entry ∈ commandCases, SetsUnlessNested entry := by
  simp only [commandCases, List.forall_mem_cons]
  have sets : ∀ (key : UInt8) (parser : Board → Console → Nat → Reading Sub),
      SetsUnlessNested (key, parsed parser) := fun _ parser => Or.inl (parsed_sets parser)
  refine ⟨Or.inl ?_, sets _ _, Or.inl ?_, sets _ _, sets _ _, sets _ _, sets _ _, sets _ _,
    sets _ _, sets _ _, sets _ _, sets _ _, sets _ _, sets _ _, sets _ _, sets _ _, sets _ _,
    Or.inl ?_, Or.inl hashCommand_sets, Or.inl (switch_sets ?_), Or.inl (switch_sets ?_),
    Or.inr (Or.inl rfl), Or.inr (Or.inr (Or.inl rfl)), Or.inr (Or.inr (Or.inr rfl)), by simp⟩
  · exact fun _ _ _ _ _ => rfl
  · exact fun _ _ _ _ _ => rfl
  · exact fun _ _ _ _ _ => rfl
  · simp only [percentCases, List.forall_mem_cons]
    exact ⟨parsed_sets _, parsed_sets _, by simp⟩
  · simp only [ampersandCases, List.forall_mem_cons]
    exact ⟨parsed_sets _, parsed_sets _, parsed_sets _, parsed_sets _, parsed_sets _,
      parsed_sets _, parsed_sets _, parsed_sets _, parsed_sets _, parsed_sets _, parsed_sets _,
      parsed_sets _, by simp⟩

theorem plusG_sets : Handler.Sets (switch plusGCases) := by
  apply switch_sets
  simp only [plusGCases, List.forall_mem_cons]
  refine ⟨switch_sets ?_, switch_sets ?_, by simp⟩
  · simp only [List.forall_mem_cons]
    exact ⟨parsed_sets _, by simp⟩
  · simp only [List.forall_mem_cons]
    exact ⟨parsed_sets _, parsed_sets _, parsed_sets _, by simp⟩

variable {b : List UInt8}

theorem star_same (begins : b.head? = some (ch '*')) (stays : ¬ LeavesRet b) :
    (switch [(ch 'B', starB)] board c ret 1).exec Query.answer (b ++ [0]) =
      (switch [(ch 'B', starB)] board c ret' 1).exec Query.answer (b ++ [0]) := by
  obtain ⟨b, rfl⟩ := List.head?_eq_some_iff.mp begins
  obtain ⟨second, found, inside⟩ := head_closed b
  have stands : ((ch '*' :: b ++ [0]).drop 1).head? = some second := found
  apply exec_switch_same stands
  intro handler member
  obtain ⟨raised, rfl⟩ := Prod.mk.inj (List.mem_singleton.mp member)
  obtain ⟨rest, rfl⟩ := inside (upper_letter_ne_zero (by decide) raised)
  exact absurd (Or.inl ⟨second, rest, rfl, raised⟩) stays

theorem backslash_same (begins : b.head? = some (ch '\\')) (stays : ¬ LeavesRet b) :
    (switch backslashCases board c ret 1).exec Query.answer (b ++ [0]) =
      (switch backslashCases board c ret' 1).exec Query.answer (b ++ [0]) := by
  obtain ⟨b, rfl⟩ := List.head?_eq_some_iff.mp begins
  obtain ⟨second, found, inside⟩ := head_closed b
  have stands : ((ch '\\' :: b ++ [0]).drop 1).head? = some second := found
  apply exec_switch_same stands
  intro handler member
  simp only [backslashCases, List.mem_cons, List.not_mem_nil, or_false] at member
  rcases member with isA | isN
  · obtain ⟨raised, rfl⟩ := Prod.mk.inj isA
    obtain ⟨rest, rfl⟩ := inside (upper_letter_ne_zero (by decide) raised)
    exact absurd (Or.inr (Or.inl ⟨second, rest, rfl, raised⟩)) stays
  · obtain ⟨-, rfl⟩ := Prod.mk.inj isN
    rfl

theorem plusM_same (stands : (memory.drop place).head? = some first)
    (isS : upper first = ch 'S') :
    (plusM board c ret place).exec Query.answer memory =
      (plusM board c ret' place).exec Query.answer memory := by
  have told : Query.told true [ch 'S'] first = some (ch 'S') := by
    unfold Query.told
    simp only [if_true, isS, List.mem_singleton]
  unfold plusM letter
  rw [exec_told stands, exec_told stands, told]
  rfl

theorem plus_same (begins : b.head? = some (ch '+')) (stays : ¬ LeavesRet b) :
    (switch plusCases board c ret 1).exec Query.answer (b ++ [0]) =
      (switch plusCases board c ret' 1).exec Query.answer (b ++ [0]) := by
  obtain ⟨b, rfl⟩ := List.head?_eq_some_iff.mp begins
  obtain ⟨second, found, inside⟩ := head_closed b
  have stands : ((ch '+' :: b ++ [0]).drop 1).head? = some second := found
  apply exec_switch_same stands
  intro handler member
  simp only [plusCases, List.mem_cons, List.not_mem_nil, or_false] at member
  rcases member with isG | isF | isI | isM | isV
  · obtain ⟨-, rfl⟩ := Prod.mk.inj isG
    rw [plusG_sets board c ret ret' 2]
  · obtain ⟨-, rfl⟩ := Prod.mk.inj isF
    rfl
  · obtain ⟨-, rfl⟩ := Prod.mk.inj isI
    rfl
  · obtain ⟨raised, rfl⟩ := Prod.mk.inj isM
    obtain ⟨rest, rfl⟩ := inside (upper_letter_ne_zero (by decide) raised)
    obtain ⟨third, follows, more⟩ := head_closed rest
    by_cases isS : upper third = ch 'S'
    · exact plusM_same follows isS
    · refine absurd (Or.inr (Or.inr ⟨second, rest, rfl, raised, ?_⟩)) stays
      intro isOne
      cases rest with
      | nil => cases isOne
      | cons third' rest =>
          cases follows
          exact isS (Option.some.inj isOne)
  · obtain ⟨-, rfl⟩ := Prod.mk.inj isV
    rfl

/-- A pass does the same for every `ret` over a sub-command that does not leave it. -/
theorem pass_same (stays : ¬ LeavesRet b) :
    (pass board c ret).exec Query.answer (b ++ [0]) =
      (pass board c ret').exec Query.answer (b ++ [0]) := by
  obtain ⟨first, found, inside⟩ := head_closed b
  have stands : ((b ++ [0]).drop 0).head? = some first := found
  apply exec_switch_same stands
  intro handler member
  have begins : ∀ symbol ∈ word ['*', '+', '\\'], upper first = symbol →
      b.head? = some symbol := by
    intro symbol isSymbol raised
    have same := upper_symbol isSymbol raised
    have nonzero : first ≠ 0 := by
      rintro rfl
      rw [← same] at isSymbol
      revert isSymbol
      decide
    obtain ⟨rest, rfl⟩ := inside nonzero
    exact congrArg some same
  rcases command_sets _ member with sets | isStar | isPlus | isBackslash
  · exact congrArg (Scan.exec Query.answer (b ++ [0])) (sets board c ret ret' 1)
  · obtain ⟨raised, rfl⟩ := Prod.mk.inj isStar
    exact star_same (begins _ (by decide) raised) stays
  · obtain ⟨raised, rfl⟩ := Prod.mk.inj isPlus
    exact plus_same (begins _ (by decide) raised) stays
  · obtain ⟨raised, rfl⟩ := Prod.mk.inj isBackslash
    exact backslash_same (begins _ (by decide) raised) stays

/-- The others end with `ret` as it was. -/
theorem pass_leaves (leaves : LeavesRet b) :
    ∃ len, ∀ ret, (pass board c ret).exec Query.answer (b ++ [0]) =
      some (.breaks { console := c, ret := ret, len := len }) := by
  rcases leaves with ⟨x, rest, rfl, raised⟩ | ⟨x, rest, rfl, raised⟩ |
    ⟨x, rest, rfl, raised, noS⟩
  · have raises : upper (ch '*') = ch '*' := by decide
    refine ⟨2, fun ret => ?_⟩
    refine (exec_letter rfl raises rfl).trans ?_
    exact (exec_letter rfl raised rfl).trans rfl
  · obtain ⟨third, follows, -⟩ := head_closed rest
    have stands : ((ch '\\' :: x :: rest ++ [0]).drop 2).head? = some third := follows
    have raises : upper (ch '\\') = ch '\\' := by decide
    refine ⟨2 + (if (Query.told false digits third).isSome then 1 else 0), fun ret => ?_⟩
    refine (exec_letter rfl raises rfl).trans ?_
    refine (exec_letter rfl raised rfl).trans ?_
    exact (exec_told stands).trans rfl
  · obtain ⟨third, follows, -⟩ := head_closed rest
    have stands : ((ch '+' :: x :: rest ++ [0]).drop 2).head? = some third := follows
    have raises : upper (ch '+') = ch '+' := by decide
    refine ⟨3, fun ret => ?_⟩
    refine (exec_letter rfl raises rfl).trans ?_
    refine (exec_letter rfl raised rfl).trans ?_
    have told : Query.told true [ch 'S'] third = none := by
      unfold Query.told
      rw [if_neg]
      simp only [if_true, List.mem_singleton]
      intro isS
      cases rest with
      | nil =>
          cases follows
          exact absurd isS (by decide)
      | cons third' rest =>
          cases follows
          exact noS (congrArg some isS)
    refine (exec_told stands).trans ?_
    rw [told]
    rfl

end Sets

/-! ### What follows a sub-command -/

def SameNumbers (text follow : List UInt8) (queries : List (Nat × Query)) : Prop :=
  ∀ place base, (place, Query.number base) ∈ queries →
    strtoul base ((text ++ follow).drop place) = strtoul base ((text ++ [0]).drop place)

/-- What follows does not extend a number of the command. -/
def KeepsNumbers (board : Board) (c : Console) (a : List UInt8) (ret : Int)
    (follow : List UInt8) : Prop :=
  ∀ c' rest ret', Passes board c (a ++ [0]) ret c' (rest ++ [0]) ret' →
    SameNumbers rest follow ((pass board c' ret').asked Query.answer (rest ++ [0]))

def Run.andThen (before after : Run) : Run := { after with subs := before.subs ++ after.subs }

section Follow

variable {board : Board} {c : Console} {a b text rest : List UInt8} {ret : Int} {fuel : Nat}
  {first : UInt8} {run : Run}

theorem atLoop_fuel {fuel' : Nat} (enough : text.length < fuel) (enough' : text.length < fuel') :
    atLoop board fuel c text ret = atLoop board fuel' c text ret := by
  induction fuel generalizing fuel' c text ret with
  | zero => omega
  | succ fuel ih =>
      obtain ⟨fuel', rfl⟩ : ∃ less, fuel' = less + 1 := ⟨fuel' - 1, by omega⟩
      cases text with
      | nil => rfl
      | cons first text =>
          by_cases zero : first = 0
          · subst zero
            rw [atLoop_end, atLoop_end]
          · cases ran : (pass board c ret).exec Query.answer (first :: text) with
            | none => simp only [atLoop, List.head?_cons, if_neg zero, ran]
            | some passed =>
                cases passed with
                | returns c' ret' => rw [atLoop_returns rfl zero ran, atLoop_returns rfl zero ran]
                | breaks sub =>
                    by_cases accepted : sub.ret = 0
                    · rw [atLoop_accepts rfl zero ran accepted,
                        atLoop_accepts rfl zero ran accepted]
                      have used := pass_consumes ran
                      have less : ((first :: text).drop sub.len).length < (first :: text).length := by
                        rw [List.length_drop, List.length_cons]
                        omega
                      rw [ih (by omega) (show _ < fuel' by omega)]
                    · rw [atLoop_refuses rfl zero ran accepted,
                        atLoop_refuses rfl zero ran accepted]

theorem atLoop_first (more : text.head? = some first) (nonzero : first ≠ 0)
    (ended : run.ended = true) (ran : atLoop board (fuel + 1) c text ret = some run) :
    ∃ sub later, (pass board c ret).exec Query.answer text = some (.breaks sub) ∧
      sub.ret = 0 ∧ atLoop board fuel sub.console (text.drop sub.len) 0 = some later ∧
      later.ended = true ∧ run = later.prepend sub.len := by
  cases passed : (pass board c ret).exec Query.answer text with
  | none => simp [atLoop, more, nonzero, passed] at ran
  | some result =>
      cases result with
      | returns c' ret' =>
          rw [atLoop_returns more nonzero passed] at ran
          cases ran
          cases ended
      | breaks sub =>
          by_cases accepted : sub.ret = 0
          · rw [atLoop_accepts more nonzero passed accepted] at ran
            obtain ⟨later, found, rfl⟩ := Option.map_eq_some_iff.mp ran
            exact ⟨sub, later, rfl, accepted, found, ended, rfl⟩
          · rw [atLoop_refuses more nonzero passed accepted] at ran
            cases ran
            cases ended

theorem atLoop_follow (noZero : 0 ∉ a) (begins : opensCommand first = true)
    (ran : atLoop board fuel c (a ++ [0]) ret = some run) (ended : run.ended = true)
    (numbers : KeepsNumbers board c a ret (first :: rest)) :
    atLoop board ((a ++ first :: rest).length + 1) c (a ++ first :: rest) ret =
      (atLoop board ((first :: rest).length + 1) run.console (first :: rest)
        (if a = [] then ret else 0)).map run.andThen := by
  induction fuel generalizing c a ret run with
  | zero => cases ran
  | succ fuel ih =>
      cases a with
      | nil =>
          cases ran
          simp only [List.nil_append, if_true]
          exact (Option.map_id').symm
      | cons letter a =>
          have nonzero : letter ≠ 0 := fun zero => noZero (zero ▸ List.mem_cons_self)
          have head : ∀ tail, (letter :: a ++ tail).head? = some letter := fun _ => rfl
          have some_ : letter :: a ≠ [] := List.cons_ne_nil letter a
          generalize letter :: a = text at noZero ran numbers head some_ ⊢
          obtain ⟨sub, later, passed, accepted, goesOn, laterEnded, rfl⟩ :=
            atLoop_first (head [0]) nonzero ended ran
          have notPast : ret = 0 → ¬ EndsWithM text := by
            rintro rfl past
            rw [atLoop_past past] at ran
            cases ran
          obtain ⟨result, found, keeps⟩ := pass_keeps notPast
          cases passed.symm.trans found
          obtain ⟨inside, sure⟩ := keeps sub rfl accepted
          have same : (pass board c ret).exec Query.answer (text ++ first :: rest) =
              some (.breaks sub) :=
            exec_follow passed begins sure (numbers c text ret .here)
          have used := pass_consumes passed
          have cut : ∀ tail, (text ++ tail).drop sub.len = text.drop sub.len ++ tail :=
            fun tail => List.drop_append_of_le_length (by omega)
          have laterZero : 0 ∉ text.drop sub.len := fun zero =>
            noZero (List.mem_of_mem_drop zero)
          have laterNumbers : KeepsNumbers board sub.console (text.drop sub.len) 0
              (first :: rest) := by
            intro c' rest ret' passes
            apply numbers c' rest ret'
            rw [← cut] at passes
            exact .step (head [0]) nonzero passed accepted passes
          rw [cut] at goesOn
          have further := ih laterZero goesOn laterEnded laterNumbers
          rw [ite_self] at further
          have shorter : (text.drop sub.len ++ first :: rest).length + 1 ≤
              (text ++ first :: rest).length := by
            rw [← cut, List.length_drop, List.length_append]
            omega
          rw [if_neg some_, atLoop_accepts (head _) nonzero same accepted, cut,
            atLoop_fuel (by omega) (Nat.lt_succ_self _), further, Option.map_map]
          rfl

/-- `ret` matters to the first pass only. -/
theorem atLoop_same {ret' : Int} (same : (pass board c ret).exec Query.answer text =
      (pass board c ret').exec Query.answer text) :
    atLoop board fuel c text ret = atLoop board fuel c text ret' := by
  cases fuel with
  | zero => rfl
  | succ fuel => simp only [atLoop, same]

/-! ### Composition -/

/-- `AT` with a body. -/
def atText (body : List UInt8) : List UInt8 := ch 'A' :: ch 'T' :: (body ++ [0])

/-- The two bodies in one command give what two commands give, whatever is left in memory
behind each of them. -/
def Composes (board : Board) (c : Console) (a b : List UInt8) (run : Run) : Prop :=
  ∃ later, ∀ stale,
    processAtCommand board run.console (atText b ++ stale) = some later ∧
      processAtCommand board c (atText (a ++ b) ++ stale) = some (run.andThen later)

theorem processAtCommand_atText {fuel : Nat} (enough : (a ++ [0]).length < fuel) :
    processAtCommand board c (atText a) = atLoop board fuel c (a ++ [0]) (-1) := by
  have body : processAtCommand board c (atText a) =
      atLoop board ((a ++ [0]).length + 2) c (a ++ [0]) (-1) := rfl
  rw [body]
  exact atLoop_fuel (by omega) enough

/-- Behind an accepted body the second one goes on with `ret` at 0. -/
theorem processAtCommand_append (noZero : 0 ∉ a)
    (accepted : processAtCommand board c (atText a) = some run) (ended : run.ended = true)
    (begins : opensCommand first = true)
    (numbers : KeepsNumbers board c a (-1) (first :: b ++ [0])) :
    processAtCommand board c (atText (a ++ first :: b)) =
      (atLoop board ((first :: b ++ [0]).length + 1) run.console (first :: b ++ [0])
        (if a = [] then -1 else 0)).map run.andThen := by
  have split : a ++ first :: b ++ [0] = a ++ first :: (b ++ [0]) := List.append_assoc a _ _
  rw [processAtCommand_atText (Nat.lt_succ_self _)] at accepted ⊢
  rw [split]
  exact atLoop_follow noZero begins accepted ended numbers

theorem result_iff (noZero : 0 ∉ a) :
    (∃ run, processAtCommand board c (atText a) = some run) ↔ NeverPast board c a (-1) := by
  constructor
  · rintro ⟨run, ran⟩ c' rest passes ends
    rw [processAtCommand_atText (Nat.lt_succ_self _), atLoop_never ends passes] at ran
    cases ran
  · intro never
    obtain ⟨run, runs⟩ := atLoop_inside noZero never
    refine ⟨run, ?_⟩
    rw [processAtCommand_atText (Nat.lt_succ_self _)]
    exact runs [] _ (by simp)

theorem result_inside (noZero : 0 ∉ a) (ran : processAtCommand board c (atText a) = some run)
    (stale : List UInt8) : processAtCommand board c (atText a ++ stale) = some run := by
  have isBody : IsBody (ch 'A' :: ch 'T' :: a) a := ⟨ch 'A', ch 'T', rfl, by decide, by decide⟩
  obtain ⟨run', runs⟩ := atLoop_inside noZero ((result_iff noZero).mp ⟨run, ran⟩)
  have every : ∀ tail, processAtCommand board c (ch 'A' :: ch 'T' :: a ++ 0 :: tail) =
      some run' := by
    intro tail
    rw [processAtCommand_body isBody]
    apply runs
    simp only [List.length_append, List.length_cons]
    omega
  have first := every []
  have memory : atText a ++ stale = ch 'A' :: ch 'T' :: a ++ 0 :: stale := by simp [atText]
  rw [memory, every stale]
  exact first.symm.trans ran

theorem composes_of_sets (noZero : 0 ∉ a ++ first :: b)
    (accepted : processAtCommand board c (atText a) = some run) (ended : run.ended = true)
    (begins : opensCommand first = true)
    (numbers : KeepsNumbers board c a (-1) (first :: b ++ [0]))
    (free : a = [] ∨ ¬ LeavesRet (first :: b))
    (never : NeverPast board run.console (first :: b) (-1)) :
    Composes board c a (first :: b) run := by
  have cleanA : 0 ∉ a := fun zero => noZero (List.mem_append_left _ zero)
  have cleanB : 0 ∉ first :: b := fun zero => noZero (List.mem_append_right _ zero)
  obtain ⟨later, ran⟩ := (result_iff cleanB).mpr never
  have joined := processAtCommand_append cleanA accepted ended begins numbers
  have same : atLoop board ((first :: b ++ [0]).length + 1) run.console (first :: b ++ [0])
      (if a = [] then -1 else 0) = some later := by
    rw [processAtCommand_atText (Nat.lt_succ_self _)] at ran
    by_cases empty : a = []
    · rw [if_pos empty]
      exact ran
    · rw [if_neg empty, ← atLoop_same (pass_same (free.resolve_left empty))]
      exact ran
  rw [same] at joined
  exact ⟨later, fun stale => ⟨result_inside cleanB ran stale, result_inside noZero joined stale⟩⟩

theorem not_composes_of_leaves (noZero : 0 ∉ a)
    (accepted : processAtCommand board c (atText a) = some run) (ended : run.ended = true)
    (begins : opensCommand first = true)
    (numbers : KeepsNumbers board c a (-1) (first :: b ++ [0]))
    (some_ : a ≠ []) (leaves : LeavesRet (first :: b)) :
    ¬ Composes board c a (first :: b) run := by
  have nonzero : first ≠ 0 := by
    rintro rfl
    cases begins
  have head : (first :: b ++ [0]).head? = some first := rfl
  obtain ⟨len, passes⟩ := pass_leaves leaves
  rintro ⟨later, runs⟩
  obtain ⟨alone, joined⟩ := runs []
  rw [List.append_nil, processAtCommand_atText (Nat.lt_succ_self _),
    atLoop_refuses head nonzero (passes (-1)) (Int.neg_ne_zero.mpr Int.one_ne_zero)] at alone
  rw [List.append_nil, processAtCommand_append noZero accepted ended begins numbers,
    if_neg some_, atLoop_accepts head nonzero (passes 0) rfl, Option.map_map] at joined
  obtain ⟨rest, -, equal⟩ := Option.map_eq_some_iff.mp joined
  have subs := congrArg (fun run => run.subs.length) equal
  rw [← Option.some.inj alone] at subs
  simp [Run.andThen, Run.prepend] at subs

/-- Sub-commands compose unless the second body begins with one that leaves `ret`, or leads
behind its end. -/
theorem at_commands_compose_iff (noZero : 0 ∉ a ++ first :: b)
    (accepted : processAtCommand board c (atText a) = some run) (ended : run.ended = true)
    (begins : opensCommand first = true)
    (numbers : KeepsNumbers board c a (-1) (first :: b ++ [0])) :
    Composes board c a (first :: b) run ↔
      (a = [] ∨ ¬ LeavesRet (first :: b)) ∧ NeverPast board run.console (first :: b) (-1) := by
  have cleanA : 0 ∉ a := fun zero => noZero (List.mem_append_left _ zero)
  have cleanB : 0 ∉ first :: b := fun zero => noZero (List.mem_append_right _ zero)
  constructor
  · intro composes
    constructor
    · by_cases empty : a = []
      · exact Or.inl empty
      · exact Or.inr fun leaves =>
          not_composes_of_leaves cleanA accepted ended begins numbers empty leaves composes
    · obtain ⟨later, runs⟩ := composes
      have alone := (runs []).1
      rw [List.append_nil] at alone
      exact (result_iff cleanB).mp ⟨later, alone⟩
  · rintro ⟨free, never⟩
    exact composes_of_sets noZero accepted ended begins numbers free never

theorem keepsNumbers_single {sub : Sub} {follow : List UInt8}
    (ran : (pass board c ret).exec Query.answer (a ++ [0]) = some (.breaks sub))
    (whole : sub.len = a.length)
    (same : SameNumbers a follow ((pass board c ret).asked Query.answer (a ++ [0]))) :
    KeepsNumbers board c a ret follow := by
  intro c' rest ret' passes
  generalize start : a ++ [0] = text at passes
  generalize stop : rest ++ [0] = last at passes
  cases passes with
  | here =>
      obtain rfl : rest = a := List.append_cancel_right (stop.trans start.symm)
      exact stop ▸ same
  | step more nonzero ran' accepted later =>
      rw [start] at ran
      cases ran.symm.trans ran'
      have done : text.drop sub.len = [0] := by
        rw [← start, whole, List.drop_left]
      rw [done] at later
      cases later with
      | here =>
          obtain rfl : rest = [] := List.append_cancel_right stop
          intro place base member
          simp only [pass, switch, letter] at member
          cases member with
          | tail _ none => cases none
      | step more nonzero => exact absurd (Option.some.inj more).symm nonzero

end Follow

/-- `E1` reads no number. -/
theorem echo_keepsNumbers (follow : List UInt8) :
    KeepsNumbers plainBoard freshConsole (word ['E', '1']) (-1) follow := by
  have ran : (pass plainBoard freshConsole (-1)).exec Query.answer (word ['E', '1'] ++ [0]) =
      some (.breaks
        { console := freshConsole.modemSetSreg plainBoard sregEcho 1, ret := 0, len := 2 }) := rfl
  have asks : (pass plainBoard freshConsole (-1)).asked Query.answer (word ['E', '1'] ++ [0]) =
      [(0, .peek true (commandCases.map Prod.fst)), (1, .peek false digits)] := rfl
  refine keepsNumbers_single ran rfl ?_
  intro place base member
  rw [asks] at member
  simp at member

theorem echo_accepted : ∃ run, processAtCommand plainBoard freshConsole
    (atText (word ['E', '1'])) = some run ∧ run.ended = true := by
  have ended : (processAtCommand plainBoard freshConsole (atText (word ['E', '1']))).map
      Run.ended = some true := by decide +kernel
  exact Option.map_eq_some_iff.mp ended

/-- `E1` and `X4` compose. -/
theorem at_commands_compose_echo : ∃ run, processAtCommand plainBoard freshConsole
    (atText (word ['E', '1'])) = some run ∧
      Composes plainBoard freshConsole (word ['E', '1']) (word ['X', '4']) run := by
  obtain ⟨run, accepted, ended⟩ := echo_accepted
  refine ⟨run, accepted, (at_commands_compose_iff (by decide) accepted ended (by decide)
    (echo_keepsNumbers _)).mpr ⟨Or.inr ?_, ?_⟩⟩
  · rintro (⟨x, rest, same, -⟩ | ⟨x, rest, same, -⟩ | ⟨x, rest, same, -⟩)
    · exact absurd (List.cons.inj same).1 (by decide)
    · exact absurd (List.cons.inj same).1 (by decide)
    · exact absurd (List.cons.inj same).1 (by decide)
  · apply neverPast_of_suffix
    intro rest suffix ends
    rcases endsWithM_iff.mp ends with rfl | rfl
    · exact absurd suffix (by decide)
    · exact absurd suffix (by decide)

/-- `AT*B` is refused, and behind `E1` it is accepted. -/
theorem at_commands_differ :
    (∃ run, processAtCommand plainBoard freshConsole (atText (word ['E', '1'])) = some run ∧
      run.ended = true ∧
      KeepsNumbers plainBoard freshConsole (word ['E', '1']) (-1) (word ['*', 'B'] ++ [0]) ∧
      ¬ Composes plainBoard freshConsole (word ['E', '1']) (word ['*', 'B']) run ∧
      (processAtCommand plainBoard run.console (atText (word ['*', 'B']))).map Run.ret =
        some (-1)) ∧
    (processAtCommand plainBoard freshConsole (atText (word ['E', '1', '*', 'B']))).map Run.ret =
      some 0 := by
  obtain ⟨run, accepted, ended⟩ := echo_accepted
  have leaves : LeavesRet (word ['*', 'B']) := Or.inl ⟨ch 'B', [], rfl, by decide⟩
  refine ⟨⟨run, accepted, ended, echo_keepsNumbers _, ?_, ?_⟩, by decide +kernel⟩
  · exact not_composes_of_leaves (by decide) accepted ended (by decide) (echo_keepsNumbers _)
      (by decide) leaves
  · obtain ⟨len, passes⟩ := pass_leaves leaves
    have head : (word ['*', 'B'] ++ [0]).head? = some (ch '*') := rfl
    rw [processAtCommand_atText (Nat.lt_succ_self _),
      atLoop_refuses head (by decide) (passes (-1)) (Int.neg_ne_zero.mpr Int.one_ne_zero)]
    rfl

end DModem.At
