/-
The command line of `slmodemd`.

`opt_parse` finds each option by its letter or its name, takes its value from behind `=` or
from the next argument, and takes what is left for the name of the device.
-/

import Mathlib.Data.List.Basic
import Mathlib.Logic.Function.Basic

namespace DModem.Options

/-- A string of the command line. -/
abbrev Arg := List Char

inductive OptId where
  | help
  | usage
  | version
  | country
  | countrylist
  | alsa
  | group
  | perm
  | ringdet
  | user
  | shortbuf
  | debug
  | log
  | exec
  deriving DecidableEq, Repr

inductive ArgKind where
  | none
  | mandatory
  | optional
  deriving DecidableEq, Repr

inductive ArgType where
  | integer
  | string
  deriving DecidableEq, Repr

/-- What does not change of a `struct opt`. -/
structure Opt where
  ch : Option Char
  name : Arg
  arg : ArgKind
  argType : ArgType
  deriving DecidableEq, Repr

def OptId.opt : OptId → Opt
  | .help => ⟨some 'h', "help".toList, .none, .integer⟩
  | .usage => ⟨some 'u', "usage".toList, .none, .integer⟩
  | .version => ⟨some 'v', "version".toList, .none, .integer⟩
  | .country => ⟨some 'c', "country".toList, .mandatory, .string⟩
  | .countrylist => ⟨none, "countrylist".toList, .none, .integer⟩
  | .alsa => ⟨some 'a', "alsa".toList, .none, .integer⟩
  | .group => ⟨some 'g', "group".toList, .mandatory, .string⟩
  | .perm => ⟨some 'p', "perm".toList, .mandatory, .integer⟩
  | .ringdet => ⟨some 'r', "ringdetector".toList, .none, .integer⟩
  | .user => ⟨some 'n', "nortpriority".toList, .none, .integer⟩
  | .shortbuf => ⟨some 's', "shortbuffer".toList, .none, .integer⟩
  | .debug => ⟨some 'd', "debug".toList, .optional, .integer⟩
  | .log => ⟨some 'l', "log".toList, .optional, .integer⟩
  | .exec => ⟨some 'e', "exec".toList, .none, .integer⟩

def optList : List OptId :=
  [.help, .usage, .version, .country, .countrylist, .alsa, .group, .perm, .ringdet, .user,
    .shortbuf, .debug, .log, .exec]

/-- The `arg_val` and `found` of each option, and `dev_name`. -/
structure Parsed where
  argVal : OptId → Option Arg
  found : OptId → Nat
  devName : Option Arg

def defaults : Parsed :=
  { argVal := fun
      | .country => some "USA".toList
      | .group => some "dialout".toList
      | .perm => some "0660".toList
      | .debug => some "0".toList
      | .log => some "5".toList
      | _ => none
    found := fun _ => 0
    devName := none }

/-! ### `opt_parse` -/

/-- The argument `p` without its dashes is the option; the result is the value that is attached
to it. -/
def optMatch (p : Arg) (opt : Opt) : Option (Option Arg) :=
  let named := opt.name.isPrefixOf p
  if named || (opt.ch.isSome && decide (p.head? = opt.ch)) then
    let q := if named then p.drop opt.name.length else p.drop 1
    match q with
    | [] => some none
    | c :: rest =>
        if c = '=' ∧ opt.arg ≠ .none then some (some rest)
        else if c.isDigit ∧ opt.arg ≠ .none then some (some q)
        else none
  else none

def takesNext (opt : Opt) (next : Option Arg) : Bool :=
  match next with
  | none => false
  | some next =>
      decide (opt.arg ≠ .none) && decide (next.head? ≠ some '-') &&
        (decide (opt.argType ≠ .integer) || next.head?.any Char.isDigit)

/-- An option that has been found, with its value and whether that is the next argument;
`none` is `usage`. -/
def optTake (id : OptId) (arg next : Option Arg) : Option (OptId × Option Arg × Bool) :=
  let taken := arg.isNone && takesNext id.opt next
  let value := if taken then next else arg
  if value.isNone && decide (id.opt.arg = .mandatory) then none else some (id, value, taken)

def optFind (p : Arg) (next : Option Arg) : List OptId → Option (OptId × Option Arg × Bool)
  | [] => none
  | id :: rest =>
      match optMatch p id.opt with
      | none => optFind p next rest
      | some arg => optTake id arg next

/-- `opt->found++`, and the value if there is one. -/
def Parsed.mark (r : Parsed) (id : OptId) (value : Option Arg) : Parsed :=
  { r with
    found := Function.update r.found id (r.found id + 1)
    argVal :=
      if id.opt.arg ≠ .none ∧ value.isSome then Function.update r.argVal id value else r.argVal }

/-- `opt_parse` from the next argument on, which is skipped if it has been taken for a value;
`none` is `usage`, which exits. -/
def optParse (r : Parsed) (skip : Bool) : List Arg → Option Parsed
  | [] => some r
  | p :: rest =>
      if skip then optParse r false rest
      else if p.head? ≠ some '-' then
        if r.devName.isSome then none else optParse { r with devName := some p } false rest
      else
        match optFind (p.dropWhile (· = '-')) rest.head? optList with
        | none => none
        | some (id, value, taken) => optParse (r.mark id value) taken rest

/-- `modem_exec` at the end of `modem_cmdline`; `none` is `usage`. -/
def modemExec (r : Parsed) : Option (Option Arg) :=
  if r.found .exec ≠ 0 then some (r.argVal .exec) else none

/-! ### What the usage says -/

inductive Form where
  | short
  | long
  | equals
  deriving DecidableEq, Repr

structure Given where
  id : OptId
  value : Option Arg
  form : Form
  deriving DecidableEq, Repr

inductive Word where
  | opt (given : Given)
  | device (name : Arg)
  deriving DecidableEq, Repr

/-- Whether an option has a value; with `--exec` the path of the program can be given. -/
def OptId.meant : OptId → ArgKind
  | .exec => .optional
  | id => id.opt.arg

def OptId.meantType : OptId → ArgType
  | .exec => .string
  | id => id.opt.argType

/-- The options that are about `slmodemd` itself. -/
def OptId.Plain (id : OptId) : Prop :=
  id ≠ .help ∧ id ≠ .usage ∧ id ≠ .version ∧ id ≠ .countrylist ∧ id ≠ .alsa

def ValueFits (id : OptId) (value : Arg) : Prop :=
  match id.meantType with
  | .integer => value.head?.any Char.isDigit = true
  | .string => value.head? ≠ some '-'

structure Given.Wf (g : Given) : Prop where
  plain : g.id.Plain
  needs : g.id.meant = .mandatory → g.value ≠ none
  allows : g.id.meant = .none → g.value = none
  fits : ∀ value ∈ g.value, ValueFits g.id value
  form : g.value = none → g.form ≠ .equals

def Given.write (g : Given) : List Arg :=
  match g.form with
  | .short => ('-' :: g.id.opt.ch.toList) :: g.value.toList
  | .long => ('-' :: '-' :: g.id.opt.name) :: g.value.toList
  | .equals => [('-' :: '-' :: g.id.opt.name) ++ '=' :: g.value.getD []]

def Word.write : Word → List Arg
  | .opt given => given.write
  | .device name => [name]

def Word.optId : Word → Option OptId
  | .opt given => some given.id
  | .device _ => none

def Word.deviceName : Word → Option Arg
  | .opt _ => none
  | .device name => some name

/-- Distinct options and at most one device. -/
structure Wf (words : List Word) : Prop where
  given : ∀ g, Word.opt g ∈ words → g.Wf
  device : ∀ name, Word.device name ∈ words → name.head? ≠ some '-'
  distinct : (words.filterMap Word.optId).Nodup
  single : (words.filterMap Word.deviceName).length ≤ 1

/-- No path is given with `--exec`. -/
def Pathless (words : List Word) : Prop :=
  ∀ g, Word.opt g ∈ words → g.id = .exec → g.value = none

/-- What the words are to be parsed into. -/
structure Means (words : List Word) (r : Parsed) : Prop where
  found : ∀ id, r.found id ≠ 0 ↔ id ∈ words.filterMap Word.optId
  values : ∀ g, Word.opt g ∈ words → ∀ value ∈ g.value, r.argVal g.id = some value
  device : r.devName = (words.filterMap Word.deviceName).head?
  exec : ∀ g, Word.opt g ∈ words → g.id = .exec → ∀ path ∈ g.value,
    modemExec r = some (some path)

/-- No device that begins with a digit stands where the value of an option could stand. -/
def Apart : List Word → Prop
  | [] => True
  | .device _ :: rest => Apart rest
  | .opt g :: rest =>
      (g.id.opt.arg = .optional → g.value = none →
        ∀ name, rest.head? = some (.device name) → name.head?.any Char.isDigit = false) ∧
      Apart rest

/-! ### One option -/

section Tokens

variable {id : OptId} {next : Option Arg} {value : Arg} {r : Parsed} {tail : List Arg}

theorem find_short (plain : id.Plain) :
    optFind id.opt.ch.toList next optList = optTake id none next := by
  cases id with
  | help => exact absurd rfl plain.1
  | usage => exact absurd rfl plain.2.1
  | version => exact absurd rfl plain.2.2.1
  | countrylist => exact absurd rfl plain.2.2.2.1
  | alsa => exact absurd rfl plain.2.2.2.2
  | _ => rfl

theorem find_long (plain : id.Plain) :
    optFind id.opt.name next optList = optTake id none next := by
  cases id with
  | help => exact absurd rfl plain.1
  | usage => exact absurd rfl plain.2.1
  | version => exact absurd rfl plain.2.2.1
  | countrylist => exact absurd rfl plain.2.2.2.1
  | alsa => exact absurd rfl plain.2.2.2.2
  | _ => rfl

theorem find_equals (plain : id.Plain) (takes : id.opt.arg ≠ .none) :
    optFind (id.opt.name ++ '=' :: value) next optList = optTake id (some value) next := by
  cases id with
  | country => rfl
  | group => rfl
  | perm => rfl
  | debug => rfl
  | log => rfl
  | _ => exact absurd rfl takes

theorem meant_eq (other : id ≠ .exec) :
    id.meant = id.opt.arg ∧ id.meantType = id.opt.argType := by
  cases id with
  | exec => exact absurd rfl other
  | _ => exact ⟨rfl, rfl⟩

theorem mandatory_meant (needs : id.opt.arg = .mandatory) : id.meant = .mandatory := by
  cases id with
  | exec => cases needs
  | _ => exact needs

theorem short_bare (plain : id.Plain) :
    ('-' :: id.opt.ch.toList).dropWhile (· = '-') = id.opt.ch.toList := by
  cases id with
  | countrylist => exact absurd rfl plain.2.2.2.1
  | _ => rfl

theorem long_bare (id : OptId) (more : Arg) :
    ('-' :: '-' :: (id.opt.name ++ more)).dropWhile (· = '-') = id.opt.name ++ more := by
  cases id with
  | _ => rfl

theorem takesNext_fits (other : id ≠ .exec) (takes : id.opt.arg ≠ .none)
    (fits : ValueFits id value) : takesNext id.opt (some value) = true := by
  unfold ValueFits at fits
  rw [(meant_eq other).2] at fits
  unfold takesNext
  cases kind : id.opt.argType with
  | integer =>
      rw [kind] at fits
      dsimp only at fits
      have noDash : value.head? ≠ some '-' := by
        intro dash
        rw [dash] at fits
        revert fits
        decide
      simp [takes, noDash, fits]
  | string =>
      rw [kind] at fits
      simp [takes, fits]

theorem optTake_next (takes : takesNext id.opt (some value) = true) :
    optTake id none (some value) = some (id, some value, true) := by
  simp [optTake, takes]

theorem optTake_bare (stays : takesNext id.opt next = false) (free : id.opt.arg ≠ .mandatory) :
    optTake id none next = some (id, none, false) := by
  simp [optTake, stays, free]

theorem optParse_opt {token : Arg} {value : Option Arg} {taken : Bool}
    (found : optFind (('-' :: token).dropWhile (· = '-')) tail.head? optList =
      some (id, value, taken)) :
    optParse r false (('-' :: token) :: tail) = optParse (r.mark id value) taken tail := by
  rw [optParse, if_neg Bool.false_ne_true, if_neg (by simp), found]

theorem find_bare {g : Given} (wf : g.Wf) (separate : g.form ≠ .equals) :
    ∃ token, g.write = ('-' :: token) :: g.value.toList ∧
      ∀ next, optFind (('-' :: token).dropWhile (· = '-')) next optList =
        optTake g.id none next := by
  cases form : g.form with
  | short =>
      refine ⟨g.id.opt.ch.toList, by simp [Given.write, form], fun next => ?_⟩
      rw [short_bare wf.plain]
      exact find_short wf.plain
  | long =>
      refine ⟨'-' :: g.id.opt.name, by simp [Given.write, form], fun next => ?_⟩
      have bare := long_bare g.id []
      rw [List.append_nil] at bare
      rw [bare]
      exact find_long wf.plain
  | equals => exact absurd form separate

theorem parse_given {g : Given} (wf : g.Wf) (pathless : g.id = .exec → g.value = none)
    (stays : g.value = none → takesNext g.id.opt tail.head? = false) :
    optParse r false (g.write ++ tail) = optParse (r.mark g.id g.value) false tail := by
  cases value : g.value with
  | none =>
      obtain ⟨token, write, found⟩ := find_bare wf (wf.form value)
      have free : g.id.opt.arg ≠ .mandatory :=
        fun needs => wf.needs (mandatory_meant needs) value
      rw [write, value]
      apply optParse_opt
      rw [found]
      exact optTake_bare (stays value) free
  | some v =>
      have other : g.id ≠ .exec := by
        intro exec
        rw [pathless exec] at value
        cases value
      have takes : g.id.opt.arg ≠ .none := by
        rw [← (meant_eq other).1]
        intro none
        rw [wf.allows none] at value
        cases value
      by_cases attached : g.form = .equals
      · have write : g.write = [('-' :: '-' :: g.id.opt.name) ++ '=' :: v] := by
          simp [Given.write, attached, value]
        rw [write]
        have found : optFind (g.id.opt.name ++ '=' :: v) tail.head? optList =
            optTake g.id (some v) tail.head? := find_equals wf.plain takes
        rw [← long_bare g.id ('=' :: v)] at found
        exact optParse_opt found
      · obtain ⟨token, write, found⟩ := find_bare wf attached
        have fits := wf.fits v value
        rw [write, value]
        have taken := (found (some v)).trans (optTake_next (takesNext_fits other takes fits))
        have parsed : optParse r false (('-' :: token) :: v :: tail) =
            optParse (r.mark g.id (some v)) true (v :: tail) := optParse_opt taken
        exact parsed

theorem parse_taken {g : Given} (wf : g.Wf) (bare : g.value = none)
    (takes : takesNext g.id.opt (some value) = true) :
    optParse r false (g.write ++ value :: tail) =
      optParse (r.mark g.id (some value)) false tail := by
  obtain ⟨token, write, found⟩ := find_bare wf (wf.form bare)
  have taken := (found (some value)).trans (optTake_next takes)
  have parsed : optParse r false (('-' :: token) :: value :: tail) =
      optParse (r.mark g.id (some value)) true (value :: tail) := optParse_opt taken
  rw [write, bare]
  exact parsed

end Tokens

/-! ### All words -/

def Parsed.after (r : Parsed) : List Word → Parsed
  | [] => r
  | .opt g :: words => (r.mark g.id g.value).after words
  | .device name :: words => { r with devName := some name }.after words

section Words

variable {words : List Word} {r : Parsed} {tail : List Arg}

theorem write_dash {g : Given} : ∃ token rest, g.write = ('-' :: token) :: rest := by
  unfold Given.write
  cases g.form with
  | short => exact ⟨_, _, rfl⟩
  | long => exact ⟨_, _, rfl⟩
  | equals => exact ⟨_, _, rfl⟩

theorem takesNext_none {opt : Opt} {next : Option Arg} (none : opt.arg = .none) :
    takesNext opt next = false := by
  cases next with
  | none => rfl
  | some next => simp [takesNext, none]

theorem optional_integer {id : OptId} (optional : id.opt.arg = .optional) :
    id.opt.argType = .integer := by
  cases id with
  | debug => rfl
  | log => rfl
  | _ => cases optional

theorem takesNext_bare {g : Given} {next : Option Arg} (wf : g.Wf) (bare : g.value = none)
    (stays : ∀ first ∈ next, first.head? = some '-' ∨
      (g.id.opt.arg = .optional → first.head?.any Char.isDigit = false)) :
    takesNext g.id.opt next = false := by
  cases kind : g.id.opt.arg with
  | none => exact takesNext_none kind
  | mandatory => exact absurd bare (wf.needs (mandatory_meant kind))
  | optional =>
      cases next with
      | none => rfl
      | some first =>
          cases stays first rfl with
          | inl dash => simp [takesNext, dash]
          | inr digit => simp [takesNext, optional_integer kind, digit kind]

theorem parse_words
    (given : ∀ g, Word.opt g ∈ words → g.Wf ∧ (g.id = .exec → g.value = none))
    (device : ∀ name, Word.device name ∈ words → name.head? ≠ some '-')
    (single : (r.devName.toList ++ words.filterMap Word.deviceName).length ≤ 1)
    (apart : Apart words) (ends : ∀ first ∈ tail.head?, first.head? = some '-') :
    optParse r false (words.flatMap Word.write ++ tail) = optParse (r.after words) false tail := by
  induction words generalizing r with
  | nil => rfl
  | cons word words ih =>
      have laterGiven : ∀ g, Word.opt g ∈ words → g.Wf ∧ (g.id = .exec → g.value = none) :=
        fun g member => given g (List.mem_cons_of_mem word member)
      have laterDevice : ∀ name, Word.device name ∈ words → name.head? ≠ some '-' :=
        fun name member => device name (List.mem_cons_of_mem word member)
      rw [List.flatMap_cons, List.append_assoc]
      cases word with
      | device name =>
          have dash := device name List.mem_cons_self
          have free : r.devName = none := by
            cases taken : r.devName with
            | none => rfl
            | some other =>
                rw [taken] at single
                simp [Word.deviceName] at single
          have parsed : optParse r false (name :: (words.flatMap Word.write ++ tail)) =
              optParse { r with devName := some name } false
                (words.flatMap Word.write ++ tail) := by
            simp [optParse, dash, free]
          have alone : ((some name).toList ++ words.filterMap Word.deviceName).length ≤ 1 := by
            simpa [free, Word.deviceName] using single
          exact parsed.trans (ih laterGiven laterDevice alone apart)
      | opt g =>
          obtain ⟨wf, pathless⟩ := given g List.mem_cons_self
          have stays : g.value = none →
              takesNext g.id.opt (words.flatMap Word.write ++ tail).head? = false := by
            intro bare
            apply takesNext_bare wf bare
            cases words with
            | nil =>
                intro next first
                exact Or.inl (ends next first)
            | cons word words =>
                cases word with
                | opt later =>
                    obtain ⟨token, rest, write⟩ := write_dash (g := later)
                    intro next first
                    rw [List.flatMap_cons, Word.write, write] at first
                    cases first
                    exact Or.inl rfl
                | device name =>
                    intro next first
                    cases first
                    exact Or.inr fun optional => apart.1 optional bare name rfl
          have same : (Word.opt g :: words).filterMap Word.deviceName =
              words.filterMap Word.deviceName := rfl
          rw [same] at single
          rw [Word.write, parse_given wf pathless stays]
          exact ih laterGiven laterDevice single apart.2

/-! ### What is parsed -/

theorem after_found (id : OptId) :
    (r.after words).found id = r.found id + (words.filterMap Word.optId).count id := by
  induction words generalizing r with
  | nil => rfl
  | cons word words ih =>
      cases word with
      | device name => exact ih
      | opt g =>
          have later := ih (r := r.mark g.id g.value)
          have names : (Word.opt g :: words).filterMap Word.optId =
              g.id :: words.filterMap Word.optId := rfl
          rw [Parsed.after, later, names, List.count_cons]
          by_cases same : id = g.id
          · subst same
            simp [Parsed.mark]
            omega
          · simp [Parsed.mark, Function.update_of_ne same, Ne.symm same]

theorem after_device :
    (r.after words).devName =
      (words.filterMap Word.deviceName).foldl (fun _ name => some name) r.devName := by
  induction words generalizing r with
  | nil => rfl
  | cons word words ih =>
      cases word with
      | device name => exact ih
      | opt g => exact ih

theorem mark_other {id other : OptId} {value : Option Arg} (differ : other ≠ id) :
    (r.mark id value).argVal other = r.argVal other := by
  unfold Parsed.mark
  dsimp only
  split_ifs
  · exact Function.update_of_ne differ _ _
  · rfl

theorem after_other {id : OptId} (absent : id ∉ words.filterMap Word.optId) :
    (r.after words).argVal id = r.argVal id := by
  induction words generalizing r with
  | nil => rfl
  | cons word words ih =>
      cases word with
      | device name => exact ih absent
      | opt g =>
          have names : (Word.opt g :: words).filterMap Word.optId =
              g.id :: words.filterMap Word.optId := rfl
          rw [names, List.mem_cons, not_or] at absent
          rw [Parsed.after, ih absent.2]
          exact mark_other absent.1

theorem after_value {g : Given} {value : Arg} (member : Word.opt g ∈ words)
    (distinct : (words.filterMap Word.optId).Nodup) (takes : g.id.opt.arg ≠ .none)
    (given : g.value = some value) : (r.after words).argVal g.id = some value := by
  induction words generalizing r with
  | nil => cases member
  | cons word words ih =>
      cases word with
      | device name =>
          cases member with
          | tail _ member => exact ih member distinct
      | opt first =>
          have names : (Word.opt first :: words).filterMap Word.optId =
              first.id :: words.filterMap Word.optId := rfl
          rw [names, List.nodup_cons] at distinct
          cases member with
          | head =>
              rw [Parsed.after, after_other distinct.1, given]
              simp [Parsed.mark, takes]
          | tail _ member => exact ih member distinct.2

theorem mark_valueless {id other : OptId} {value : Option Arg} (none : other.opt.arg = .none) :
    (r.mark id value).argVal other = r.argVal other := by
  by_cases same : other = id
  · subst same
    simp [Parsed.mark, none]
  · exact mark_other same

theorem parse_valueless {args : List Arg} {skip : Bool} {parsed : Parsed} {id : OptId}
    (none : id.opt.arg = .none) (run : optParse r skip args = some parsed) :
    parsed.argVal id = r.argVal id := by
  induction args generalizing r skip with
  | nil =>
      cases run
      rfl
  | cons p rest ih =>
      rw [optParse] at run
      split_ifs at run
      · exact ih run
      · exact ih (r := { r with devName := some p }) run
      · cases found : optFind (p.dropWhile (· = '-')) rest.head? optList with
        | none =>
            rw [found] at run
            cases run
        | some taken =>
            rw [found] at run
            rw [ih run]
            exact mark_valueless none

/-! ### Devices -/

theorem apart_of_free (free : words.filterMap Word.deviceName = []) : Apart words := by
  induction words with
  | nil => exact trivial
  | cons word words ih =>
      cases word with
      | device name => cases free
      | opt g =>
          constructor
          · intro _ _ name next
            cases words with
            | nil => cases next
            | cons second words =>
                cases next
                cases free
          · exact ih free

theorem not_apart (close : ¬ Apart words) :
    ∃ before g name later, words = before ++ Word.opt g :: Word.device name :: later ∧
      Apart before ∧ g.id.opt.arg = .optional ∧ g.value = none ∧
      name.head?.any Char.isDigit = true := by
  induction words with
  | nil => exact absurd trivial close
  | cons word words ih =>
      cases word with
      | device other =>
          obtain ⟨before, g, name, later, split, apart, first⟩ := ih close
          exact ⟨.device other :: before, g, name, later, by rw [split, List.cons_append], apart,
            first⟩
      | opt other =>
          by_cases here : other.id.opt.arg = .optional → other.value = none →
              ∀ name, words.head? = some (.device name) → name.head?.any Char.isDigit = false
          · have further : ¬ Apart words := fun apart => close ⟨here, apart⟩
            obtain ⟨before, g, name, later, split, apart, first⟩ := ih further
            have joined : Apart (.opt other :: before) := by
              constructor
              · intro optional bare device next
                apply here optional bare device
                cases before with
                | nil => cases next
                | cons second before =>
                    rw [split]
                    exact next
              · exact apart
            exact ⟨.opt other :: before, g, name, later, by rw [split, List.cons_append], joined,
              first⟩
          · rw [Classical.not_imp, Classical.not_imp, Classical.not_forall] at here
            rcases here with ⟨optional, bare, name, here⟩
            rw [Classical.not_imp, Bool.not_eq_false] at here
            rcases here with ⟨next, digit⟩
            cases words with
            | nil => cases next
            | cons second later =>
                cases next
                exact ⟨[], other, name, later, rfl, trivial, optional, bare, digit⟩

theorem after_device_free (free : words.filterMap Word.deviceName = []) :
    (r.after words).devName = r.devName := by
  rw [after_device, free]
  rfl

theorem device_lost {before later : List Word} {g : Given} {name : Arg} {parsed : Parsed}
    (wf : Wf (before ++ .opt g :: .device name :: later))
    (pathless : Pathless (before ++ .opt g :: .device name :: later)) (apart : Apart before)
    (optional : g.id.opt.arg = .optional) (bare : g.value = none)
    (digit : name.head?.any Char.isDigit = true)
    (run : optParse defaults false
      ((before ++ .opt g :: .device name :: later).flatMap Word.write) = some parsed) :
    parsed.devName = none := by
  have single := wf.single
  rw [List.filterMap_append, List.length_append] at single
  have names : (Word.opt g :: Word.device name :: later).filterMap Word.deviceName =
      name :: later.filterMap Word.deviceName := rfl
  rw [names, List.length_cons] at single
  have noneBefore : before.filterMap Word.deviceName = [] :=
    List.eq_nil_of_length_eq_zero (by omega)
  have noneLater : later.filterMap Word.deviceName = [] :=
    List.eq_nil_of_length_eq_zero (by omega)
  have takes : takesNext g.id.opt (some name) = true := by
    have noDash : name.head? ≠ some '-' :=
      wf.device name (List.mem_append_right before (.tail _ (.head _)))
    simp [takesNext, optional, noDash, digit]
  obtain ⟨token, rest, write⟩ := write_dash (g := g)
  have written : (before ++ .opt g :: .device name :: later).flatMap Word.write =
      before.flatMap Word.write ++ (g.write ++ name :: later.flatMap Word.write) := by
    rw [List.flatMap_append]
    rfl
  have first : optParse defaults false
      (before.flatMap Word.write ++ (g.write ++ name :: later.flatMap Word.write)) =
      optParse (defaults.after before) false (g.write ++ name :: later.flatMap Word.write) := by
    apply parse_words
    · exact fun g member => ⟨wf.given g (List.mem_append_left _ member),
        pathless g (List.mem_append_left _ member)⟩
    · exact fun name member => wf.device name (List.mem_append_left _ member)
    · rw [noneBefore]
      exact Nat.zero_le 1
    · exact apart
    · intro next head
      rw [write] at head
      cases head
      rfl
  have second : optParse (defaults.after before) false
      (g.write ++ name :: later.flatMap Word.write) =
      optParse ((defaults.after before).mark g.id (some name)) false
        (later.flatMap Word.write) := parse_taken
    (wf.given g (List.mem_append_right before (.head _))) bare takes
  have third : optParse ((defaults.after before).mark g.id (some name)) false
      (later.flatMap Word.write ++ []) =
      optParse (((defaults.after before).mark g.id (some name)).after later) false [] := by
    apply parse_words
    · exact fun g member =>
        ⟨wf.given g (List.mem_append_right _ (.tail _ (.tail _ member))),
          pathless g (List.mem_append_right _ (.tail _ (.tail _ member)))⟩
    · exact fun name member =>
        wf.device name (List.mem_append_right _ (.tail _ (.tail _ member)))
    · have start : ((defaults.after before).mark g.id (some name)).devName = none :=
        after_device_free noneBefore
      rw [start, noneLater]
      exact Nat.zero_le 1
    · exact apart_of_free noneLater
    · intro next head
      cases head
  rw [List.append_nil] at third
  rw [written, first, second, third] at run
  cases run
  rw [after_device_free noneLater]
  exact after_device_free noneBefore

theorem parse_means (wf : Wf words) (pathless : Pathless words) (apart : Apart words) :
    optParse defaults false (words.flatMap Word.write) = some (defaults.after words) ∧
      Means words (defaults.after words) := by
  have run : optParse defaults false (words.flatMap Word.write ++ []) =
      optParse (defaults.after words) false [] :=
    parse_words (fun g member => ⟨wf.given g member, pathless g member⟩) wf.device wf.single
      apart (fun next head => by cases head)
  rw [List.append_nil] at run
  have takes : ∀ g, Word.opt g ∈ words → ∀ value, g.value = some value →
      g.id.opt.arg ≠ .none := by
    intro g member value given none
    have other : g.id ≠ .exec := by
      intro exec
      rw [pathless g member exec] at given
      cases given
    rw [← (meant_eq other).1] at none
    rw [(wf.given g member).allows none] at given
    cases given
  refine ⟨run, ?_, ?_, ?_, ?_⟩
  · intro id
    have start : defaults.found id = 0 := rfl
    rw [after_found, start, Nat.zero_add, ← Nat.pos_iff_ne_zero, List.count_pos_iff]
  · intro g member value given
    exact after_value member wf.distinct (takes g member value given) given
  · have single := wf.single
    rw [after_device]
    cases devices : words.filterMap Word.deviceName with
    | nil => rfl
    | cons name others =>
        rw [devices] at single
        cases others with
        | nil => rfl
        | cons second others =>
            simp at single
  · intro g member exec path given
    rw [pathless g member exec] at given
    cases given

/-- **Command line.** Options and a device as the usage shows them are parsed as they are meant
if and only if no path is given with `--exec` and no device is taken for a value. -/
theorem usage_parsed_iff (words : List Word) (wf : Wf words) :
    (∃ parsed, optParse defaults false (words.flatMap Word.write) = some parsed ∧
        Means words parsed) ↔
      Pathless words ∧ Apart words := by
  constructor
  · rintro ⟨parsed, run, means⟩
    have pathless : Pathless words := by
      intro g member exec
      cases given : g.value with
      | none => rfl
      | some path =>
          have recorded := means.values g member path given
          rw [exec, parse_valueless rfl run] at recorded
          cases recorded
    refine ⟨pathless, ?_⟩
    by_contra close
    obtain ⟨before, g, name, later, split, apart, optional, bare, digit⟩ := not_apart close
    subst split
    have lost := device_lost wf pathless apart optional bare digit run
    have present : Word.deviceName (.device name) = some name := rfl
    have member : name ∈ (before ++ .opt g :: .device name :: later).filterMap Word.deviceName :=
      List.mem_filterMap.mpr
        ⟨.device name, List.mem_append_right before (.tail _ (.head _)), present⟩
    have device := means.device
    rw [lost] at device
    rw [List.head?_eq_none_iff.mp device.symm] at member
    cases member
  · rintro ⟨pathless, apart⟩
    exact ⟨defaults.after words, parse_means wf pathless apart⟩

end Words

def debugGiven : List Word :=
  [.opt ⟨.country, some "FRANCE".toList, .equals⟩, .device "slamr0".toList,
    .opt ⟨.debug, some "9".toList, .short⟩, .opt ⟨.log, none, .long⟩]

def execGiven : List Word :=
  [.opt ⟨.exec, some "./d-modem".toList, .short⟩]

theorem usage_parsed_debug :
    debugGiven.flatMap Word.write =
        ["--country=FRANCE".toList, "slamr0".toList, "-d".toList, "9".toList, "--log".toList] ∧
      ∃ parsed, optParse defaults false (debugGiven.flatMap Word.write) = some parsed ∧
        Means debugGiven parsed := by
  have wf : Wf debugGiven := by
    constructor
    · intro g member
      simp only [debugGiven, List.mem_cons, Word.opt.injEq, List.not_mem_nil, or_false,
        reduceCtorEq, false_or] at member
      rcases member with rfl | rfl | rfl
      · constructor <;> simp [OptId.Plain, OptId.meant, OptId.opt, ValueFits, OptId.meantType]
      · constructor <;> simp [OptId.Plain, OptId.meant, OptId.opt, ValueFits, OptId.meantType]
      · constructor <;> simp [OptId.Plain, OptId.meant, OptId.opt]
    · intro name member
      simp only [debugGiven, List.mem_cons, Word.device.injEq, List.not_mem_nil, or_false,
        reduceCtorEq, false_or] at member
      subst member
      decide
    · decide
    · decide
  have pathless : Pathless debugGiven := by
    intro g member exec
    simp only [debugGiven, List.mem_cons, Word.opt.injEq, List.not_mem_nil, or_false,
      reduceCtorEq, false_or] at member
    rcases member with rfl | rfl | rfl <;> cases exec
  have apart : Apart debugGiven := by
    simp [debugGiven, Apart, OptId.opt]
  exact ⟨by decide +kernel, (usage_parsed_iff debugGiven wf).mpr ⟨pathless, apart⟩⟩

/-- The path of the program is taken for the device, and with `=` it is refused. -/
theorem exec_path_lost :
    Wf execGiven ∧ execGiven.flatMap Word.write = ["-e".toList, "./d-modem".toList] ∧
      (optParse defaults false (execGiven.flatMap Word.write)).map
        (fun parsed => (modemExec parsed, parsed.devName)) =
          some (some none, some "./d-modem".toList) ∧
      optParse defaults false ["--exec=./d-modem".toList] = none ∧
      ¬ ∃ parsed, optParse defaults false (execGiven.flatMap Word.write) = some parsed ∧
        Means execGiven parsed := by
  have lost : (optParse defaults false (execGiven.flatMap Word.write)).map
      (fun parsed => (modemExec parsed, parsed.devName)) =
        some (some none, some "./d-modem".toList) := by
    decide +kernel
  refine ⟨?_, by decide +kernel, lost, rfl, ?_⟩
  · constructor
    · intro g member
      simp only [execGiven, List.mem_cons, Word.opt.injEq, List.not_mem_nil, or_false] at member
      subst member
      constructor <;> simp [OptId.Plain, OptId.meant, ValueFits, OptId.meantType]
    · intro name member
      simp [execGiven] at member
    · decide
    · decide
  · rintro ⟨parsed, run, means⟩
    rw [run] at lost
    have device := means.device
    have named : parsed.devName = some "./d-modem".toList := by
      simpa using congrArg (Option.map Prod.snd) lost
    rw [named] at device
    cases device

end DModem.Options
