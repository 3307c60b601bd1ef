/-
Reading a string of characters that ends with a zero byte.

`strtoul` and a comparison that stops at the first difference, over memory that begins at a
pointer.  They never go behind the zero byte, so that what stands there makes no difference.
-/

import Mathlib.Algebra.Ring.Nat
import DModem.Lib.Scan

namespace DModem.Lib

/-! ### Characters -/

def ch (c : Char) : UInt8 := UInt8.ofNat c.toNat

def word (chars : List Char) : List UInt8 := chars.map ch

/-- `toupper`. -/
def upper (c : UInt8) : UInt8 := if 97 ≤ c ∧ c ≤ 122 then c - 32 else c

/-- `isspace`. -/
def isSpace (c : UInt8) : Bool := c = 32 ∨ 9 ≤ c ∧ c ≤ 13

/-- The value of a digit or letter as a digit, below `base`. -/
def digitOf (base : Nat) (c : UInt8) : Option Nat :=
  let value :=
    if 48 ≤ c ∧ c ≤ 57 then some (c.toNat - 48)
    else if 65 ≤ upper c ∧ upper c ≤ 90 then some ((upper c).toNat - 55)
    else none
  value.filter (· < base)

/-! ### Numbers -/

def blankRun : List UInt8 → Option Nat
  | [] => none
  | c :: rest => if isSpace c then (blankRun rest).map (· + 1) else some 0

def digitRun (base : Nat) : List UInt8 → Option (List Nat)
  | [] => none
  | c :: rest =>
      match digitOf base c with
      | none => some []
      | some digit => (digitRun base rest).map (digit :: ·)

/-- The base of the number at the pointer, and the length of the `0x` before its digits. -/
def numberBase (base : Nat) (text : List UInt8) : Option (Nat × Nat) := do
  let first ← text.head?
  if first = ch '0' ∧ (base = 0 ∨ base = 16) then
    let small := if base = 0 then 8 else 16
    let mark ← (text.drop 1).head?
    if upper mark = ch 'X' then
      let digit ← (text.drop 2).head?
      if (digitOf 16 digit).isSome then some (16, 2) else some (small, 0)
    else some (small, 0)
  else some (if base = 0 then 10 else base, 0)

def ulongMax : Nat := 2 ^ 32 - 1

def digitsValue (base : Nat) (digits : List Nat) : Nat :=
  digits.foldl (fun value digit => value * base + digit) 0

/-- The value that `strtoul` returns. -/
def ulongValue (base : Nat) (digits : List Nat) (negative : Bool) : Nat :=
  let value := digitsValue base digits
  if ulongMax < value then ulongMax
  else if negative then (2 ^ 32 - value) % 2 ^ 32
  else value

/-- `strtoul`: the value, and how many characters the number takes. -/
def strtoul (base : Nat) (text : List UInt8) : Option (Nat × Nat) := do
  let blanks ← blankRun text
  let sign ← (text.drop blanks).head?
  let signs := if sign = ch '-' ∨ sign = ch '+' then 1 else 0
  let (used, mark) ← numberBase base (text.drop (blanks + signs))
  let digits ← digitRun used (text.drop (blanks + signs + mark))
  if digits = [] then some (0, 0)
  else some (ulongValue used digits (sign = ch '-'), blanks + signs + mark + digits.length)

/-! ### Behind the zero byte -/

section Zero

variable {text : List UInt8} {base : Nat}

/-- The same result for every text that goes on as `text` up to its zero byte. -/
def EndsAtZero {α : Type} (read : List UInt8 → Option α) (text : List UInt8) (result : α) : Prop :=
  ∀ tail, read (text ++ 0 :: tail) = some result

theorem drop_zero {count : Nat} (inside : count ≤ text.length) (tail : List UInt8) :
    (text ++ 0 :: tail).drop count = text.drop count ++ 0 :: tail :=
  List.drop_append_of_le_length inside

theorem blankRun_zero (text : List UInt8) :
    ∃ blanks ≤ text.length, EndsAtZero blankRun text blanks := by
  induction text with
  | nil => exact ⟨0, Nat.le_refl 0, fun tail => rfl⟩
  | cons c rest ih =>
      obtain ⟨blanks, inside, rest_⟩ := ih
      by_cases blank : isSpace c = true
      · refine ⟨blanks + 1, Nat.succ_le_succ inside, fun tail => ?_⟩
        rw [List.cons_append, blankRun, if_pos blank, rest_ tail]
        rfl
      · refine ⟨0, Nat.zero_le _, fun tail => ?_⟩
        rw [List.cons_append, blankRun, if_neg blank]

theorem digitRun_zero (base : Nat) (text : List UInt8) :
    ∃ digits, digits.length ≤ text.length ∧ EndsAtZero (digitRun base) text digits := by
  induction text with
  | nil => exact ⟨[], Nat.le_refl 0, fun tail => rfl⟩
  | cons c rest ih =>
      obtain ⟨digits, inside, rest_⟩ := ih
      cases value : digitOf base c with
      | none =>
          refine ⟨[], Nat.zero_le _, fun tail => ?_⟩
          rw [List.cons_append, digitRun, value]
      | some digit =>
          refine ⟨digit :: digits, Nat.succ_le_succ inside, fun tail => ?_⟩
          rw [List.cons_append, digitRun, value]
          simp only [rest_ tail, Option.map_some]

theorem head_zero (text : List UInt8) : EndsAtZero List.head? text (text.headD 0) := by
  intro tail
  cases text with
  | nil => rfl
  | cons c rest => rfl

theorem numberBase_zero (base : Nat) (text : List UInt8) :
    ∃ used mark, mark ≤ text.length ∧ EndsAtZero (numberBase base) text (used, mark) := by
  cases text with
  | nil => exact ⟨if base = 0 then 10 else base, 0, Nat.le_refl 0, fun tail => rfl⟩
  | cons first rest =>
      by_cases zero : first = ch '0' ∧ (base = 0 ∨ base = 16)
      · cases rest with
        | nil =>
            refine ⟨if base = 0 then 8 else 16, 0, Nat.zero_le _, fun tail => ?_⟩
            simp only [numberBase, List.cons_append, List.head?_cons, Option.bind_eq_bind,
              Option.bind_some, if_pos zero, List.drop_succ_cons, List.drop_zero, List.nil_append]
            rfl
        | cons mark rest =>
            by_cases hex : upper mark = ch 'X'
            · by_cases digit : (digitOf 16 (rest.headD 0)).isSome = true
              · refine ⟨16, 2, by simp, fun tail => ?_⟩
                simp only [numberBase, List.cons_append, List.head?_cons, Option.bind_eq_bind,
                  Option.bind_some, if_pos zero, List.drop_succ_cons, List.drop_zero, if_pos hex,
                  head_zero rest tail, if_pos digit]
              · refine ⟨if base = 0 then 8 else 16, 0, Nat.zero_le _, fun tail => ?_⟩
                simp only [numberBase, List.cons_append, List.head?_cons, Option.bind_eq_bind,
                  Option.bind_some, if_pos zero, List.drop_succ_cons, List.drop_zero, if_pos hex,
                  head_zero rest tail, if_neg digit]
            · refine ⟨if base = 0 then 8 else 16, 0, Nat.zero_le _, fun tail => ?_⟩
              simp [numberBase, zero, hex]
      · refine ⟨if base = 0 then 10 else base, 0, Nat.zero_le _, fun tail => ?_⟩
        simp only [numberBase, List.cons_append, List.head?_cons, Option.bind_eq_bind,
          Option.bind_some, if_neg zero]

/-- `strtoul` reads nothing behind the zero byte, and its number ends before it. -/
theorem strtoul_zero (base : Nat) (text : List UInt8) :
    ∃ value count, count ≤ text.length ∧ EndsAtZero (strtoul base) text (value, count) := by
  obtain ⟨blanks, blanksInside, blanksRun⟩ := blankRun_zero text
  have sign := head_zero (text.drop blanks)
  generalize signEq : (text.drop blanks).headD 0 = c at sign
  have signs : blanks + (if c = ch '-' ∨ c = ch '+' then 1 else 0) ≤ text.length := by
    by_cases signed : c = ch '-' ∨ c = ch '+'
    · rw [if_pos signed]
      by_contra long
      rw [List.drop_eq_nil_of_le (by omega)] at signEq
      have zero : (0 : UInt8) = c := signEq
      rw [← zero] at signed
      revert signed
      decide
    · rw [if_neg signed]
      exact blanksInside
  generalize countEq : blanks + (if c = ch '-' ∨ c = ch '+' then 1 else 0) = signed at signs
  obtain ⟨used, mark, markInside, baseRun⟩ := numberBase_zero base (text.drop signed)
  rw [List.length_drop] at markInside
  obtain ⟨digits, digitsInside, digitsRun⟩ := digitRun_zero used (text.drop (signed + mark))
  rw [List.length_drop] at digitsInside
  have reads : ∀ tail, strtoul base (text ++ 0 :: tail) =
      if digits = [] then some (0, 0)
      else some (ulongValue used digits (c = ch '-'), signed + mark + digits.length) := by
    intro tail
    have signAt := sign tail
    have baseAt := baseRun tail
    have digitsAt := digitsRun tail
    rw [← drop_zero (by omega)] at signAt baseAt digitsAt
    simp only [strtoul, Option.bind_eq_bind, blanksRun tail, Option.bind_some, signAt, countEq,
      baseAt, digitsAt]
  by_cases empty : digits = []
  · exact ⟨0, 0, Nat.zero_le _, fun tail => (reads tail).trans (if_pos empty)⟩
  · exact ⟨_, _, by omega, fun tail => (reads tail).trans (if_neg empty)⟩

end Zero

/-! ### Decimal digits -/

/-- `isdigit`. -/
def isDigit (c : UInt8) : Bool := 48 ≤ c ∧ c ≤ 57

def digitValue (c : UInt8) : Nat := c.toNat - 48

section Digits

variable {base : Nat} {c first : UInt8} {chars rest : List UInt8}

theorem digitOf_digit (digit : isDigit c = true) :
    digitOf base c = if digitValue c < base then some (digitValue c) else none := by
  have range : 48 ≤ c ∧ c ≤ 57 := of_decide_eq_true digit
  simp only [digitOf, if_pos range, digitValue, Option.filter_some, decide_eq_true_eq]
  congr

theorem digitValue_lt (digit : isDigit c = true) : digitValue c < 10 := by
  have range : 48 ≤ c ∧ c ≤ 57 := of_decide_eq_true digit
  have high : c.toNat ≤ 57 := UInt8.le_iff_toNat_le.mp range.2
  unfold digitValue
  omega

theorem isDigit_not_space (digit : isDigit c = true) : isSpace c = false := by
  have range : 48 ≤ c ∧ c ≤ 57 := of_decide_eq_true digit
  unfold isSpace
  grind

theorem isDigit_not_sign (digit : isDigit c = true) : ¬ (c = ch '-' ∨ c = ch '+') := by
  rintro (rfl | rfl)
  · revert digit
    decide
  · revert digit
    decide

theorem digitRun_append (digits : ∀ c ∈ chars, isDigit c = true ∧ digitValue c < base)
    (stops : digitOf base first = none) :
    digitRun base (chars ++ first :: rest) = some (chars.map digitValue) := by
  induction chars with
  | nil => simp [digitRun, stops]
  | cons c chars ih =>
      obtain ⟨⟨digit, small⟩, others⟩ := List.forall_mem_cons.mp digits
      rw [List.cons_append, digitRun, digitOf_digit digit, if_pos small]
      simp only [ih others, Option.map_some, List.map_cons]

theorem numberBase_ten (other : first ≠ ch '0') :
    numberBase 0 (first :: rest) = some (10, 0) := by
  simp [numberBase, other]

/-- `strtoul` with base 0, where the number begins with a digit. -/
theorem strtoul_of_digit (digit : isDigit c = true) {used mark : Nat} {digits : List Nat}
    (based : numberBase 0 (c :: rest) = some (used, mark))
    (run : digitRun used ((c :: rest).drop mark) = some digits) :
    strtoul 0 (c :: rest) =
      if digits = [] then some (0, 0)
      else some (ulongValue used digits false, mark + digits.length) := by
  have noBlank : blankRun (c :: rest) = some 0 := by
    rw [blankRun, if_neg (by rw [isDigit_not_space digit]; exact Bool.false_ne_true)]
  have noSign := isDigit_not_sign digit
  have noMinus : decide (c = ch '-') = false := decide_eq_false fun minus => noSign (Or.inl minus)
  simp only [strtoul, Option.bind_eq_bind, noBlank, Option.bind_some, List.drop_zero,
    List.head?_cons, if_neg noSign, Nat.zero_add, based, run, noMinus]

theorem strtoul_decimal (digits : ∀ c ∈ chars, isDigit c = true) (some_ : chars ≠ [])
    (leading : chars.head? ≠ some (ch '0')) (stops : digitOf 10 first = none) :
    strtoul 0 (chars ++ first :: rest) =
      some (ulongValue 10 (chars.map digitValue) false, chars.length) := by
  cases chars with
  | nil => exact absurd rfl some_
  | cons c chars =>
      have other : c ≠ ch '0' := fun zero => leading (by rw [zero]; rfl)
      have run : digitRun 10 ((c :: (chars ++ first :: rest)).drop 0) =
          some ((c :: chars).map digitValue) := by
        rw [List.drop_zero, ← List.cons_append]
        apply digitRun_append ?_ stops
        exact fun d member => ⟨digits d member, digitValue_lt (digits d member)⟩
      rw [List.cons_append, strtoul_of_digit (digits c List.mem_cons_self) (numberBase_ten other)
        run]
      simp

end Digits

section Zero

variable {text : List UInt8} {base : Nat}

/-- `strncpy`, up to the zero byte. -/
def strncpy : Nat → List UInt8 → Option (List UInt8)
  | 0, _ => some []
  | _ + 1, [] => none
  | limit + 1, c :: rest => if c = 0 then some [] else (strncpy limit rest).map (c :: ·)

theorem strncpy_zero (limit : Nat) (text : List UInt8) :
    ∃ copied, EndsAtZero (strncpy limit) text copied := by
  induction text generalizing limit with
  | nil =>
      cases limit with
      | zero => exact ⟨[], fun tail => rfl⟩
      | succ limit => exact ⟨[], fun tail => rfl⟩
  | cons c rest ih =>
      cases limit with
      | zero => exact ⟨[], fun tail => rfl⟩
      | succ limit =>
          obtain ⟨copied, rest_⟩ := ih limit
          by_cases zero : c = 0
          · refine ⟨[], fun tail => ?_⟩
            rw [List.cons_append, strncpy, if_pos zero]
          · refine ⟨c :: copied, fun tail => ?_⟩
            rw [List.cons_append, strncpy, if_neg zero, rest_ tail]
            rfl

end Zero

/-! ### Questions to a string -/

/-- What a program asks: which of some characters stands at a place, after `toupper` if
`raise`; the number there; the string there. -/
inductive Query where
  | peek (raise : Bool) (among : List UInt8)
  | number (base : Nat)
  | copy (limit : Nat)
  deriving DecidableEq, Repr

namespace Query

@[reducible]
def Answer : Query → Type
  | peek _ _ => Option UInt8
  | number _ => Nat × Nat
  | copy _ => List UInt8

def told (raise : Bool) (among : List UInt8) (c : UInt8) : Option UInt8 :=
  let c := if raise then upper c else c
  if c ∈ among then some c else none

def answer : (query : Query) → List UInt8 → Option query.Answer
  | peek raise among, text => text.head?.map (told raise among)
  | number base, text => strtoul base text
  | copy limit, text => strncpy limit text

end Query

abbrev Reading := Scan Query.Answer

namespace Reading

/-- `*p`, where only some characters make a difference. -/
def peek (among : List UInt8) (place : Nat) : Reading (Option UInt8) :=
  Scan.ask place (.peek false among) Scan.done

/-- `toupper(*p)`. -/
def letter (among : List UInt8) (place : Nat) : Reading (Option UInt8) :=
  Scan.ask place (.peek true among) Scan.done

def number (base place : Nat) : Reading (Nat × Nat) := Scan.ask place (.number base) Scan.done

def copy (limit place : Nat) : Reading (List UInt8) := Scan.ask place (.copy limit) Scan.done

/-- A comparison with `toupper` that stops at the first difference. -/
def keyword : List UInt8 → Nat → Reading Bool
  | [], _ => pure true
  | c :: rest, place => do
      match ← letter [c] place with
      | none => pure false
      | some _ => keyword rest (place + 1)

end Reading

/-! ### Answers of a string -/

section Answers

variable {α : Type} {text : List UInt8} {starts : UInt8 → Bool} {queries : List (Nat × Query)}

theorem answer_zero (query : Query) {place : Nat} (inside : place ≤ text.length) :
    ∃ reply, ∀ tail, query.answer ((text ++ 0 :: tail).drop place) = some reply := by
  simp only [drop_zero inside]
  cases query with
  | peek raise among =>
      refine ⟨Query.told raise among ((text.drop place).headD 0), fun tail => ?_⟩
      exact congrArg (Option.map (Query.told raise among)) (head_zero (text.drop place) tail)
  | number base =>
      obtain ⟨value, count, -, reads⟩ := strtoul_zero base (text.drop place)
      exact ⟨(value, count), reads⟩
  | copy limit =>
      obtain ⟨copied, reads⟩ := strncpy_zero limit (text.drop place)
      exact ⟨copied, reads⟩

/-- A program that finishes on a string that is the end of the memory gives the same result
whatever comes behind it. -/
theorem exec_zero {program : Reading α} {result : α}
    (ran : program.exec Query.answer (text ++ [0]) = some result) (tail : List UInt8) :
    program.exec Query.answer (text ++ 0 :: tail) = some result := by
  rw [← ran]
  refine (Scan.exec_agree ?_).1
  intro query member
  have answered := Scan.answered_of_exec ran query member
  by_cases inside : query.1 ≤ text.length
  · obtain ⟨reply, same⟩ := answer_zero query.2 inside
    rw [same, same]
  · have behind : (text ++ [0]).drop query.1 = [] := by
      apply List.drop_eq_nil_of_le
      rw [List.length_append, List.length_singleton]
      omega
    rw [behind] at answered
    obtain ⟨place, query⟩ := query
    cases query with
    | peek raise among => cases answered
    | number base => cases answered
    | copy limit =>
        cases limit with
        | zero => rfl
        | succ limit => cases answered

/-- The answer is the same when a text that begins with one of `starts` follows in place of
the zero byte: a character inside the string, or one that is neither of these. -/
def Sure (starts : UInt8 → Bool) (text : List UInt8) (query : Nat × Query) : Prop :=
  match query.2 with
  | .peek raise among =>
      query.1 < text.length ∨ raise = false ∧ 0 ∉ among ∧ ∀ c ∈ among, starts c = false
  | .number _ => True
  | .copy _ => False

def AllSure (starts : UInt8 → Bool) (text : List UInt8) (queries : List (Nat × Query)) : Prop :=
  ∀ query ∈ queries, Sure starts text query

@[simp]
theorem allSure_nil : AllSure starts text [] := by
  intro query absent
  cases absent

@[simp]
theorem allSure_cons {query : Nat × Query} :
    AllSure starts text (query :: queries) ↔
      Sure starts text query ∧ AllSure starts text queries := List.forall_mem_cons

@[simp]
theorem allSure_append {more : List (Nat × Query)} :
    AllSure starts text (queries ++ more) ↔
      AllSure starts text queries ∧ AllSure starts text more := List.forall_mem_append

/-- A program gives the same result when another text follows, if it asks only what does not
tell the two apart and reads the same numbers. -/
theorem exec_follow {program : Reading α} {result : α} {first : UInt8} {rest : List UInt8}
    (ran : program.exec Query.answer (text ++ [0]) = some result) (begins : starts first = true)
    (sure : AllSure starts text (program.asked Query.answer (text ++ [0])))
    (numbers : ∀ place base, (place, Query.number base) ∈ program.asked Query.answer (text ++ [0]) →
      strtoul base ((text ++ first :: rest).drop place) =
        strtoul base ((text ++ [0]).drop place)) :
    program.exec Query.answer (text ++ first :: rest) = some result := by
  rw [← ran]
  refine (Scan.exec_agree ?_).1
  rintro ⟨place, query⟩ member
  cases query with
  | peek raise among =>
      have given := Scan.answered_of_exec ran _ member
      have inside : place ≤ text.length := by
        by_contra behind
        rw [List.drop_eq_nil_of_le (by simp; omega)] at given
        cases given
      by_cases before : place < text.length
      · apply congrArg (Option.map (Query.told raise among))
        rw [List.head?_drop, List.head?_drop, List.getElem?_append_left before,
          List.getElem?_append_left before]
      · obtain rfl : place = text.length := by omega
        rcases sure _ member with early | ⟨plain, noZero, other⟩
        · exact absurd early before
        · have notFirst : first ∉ among := by
            intro present
            rw [other first present] at begins
            cases begins
          rw [List.drop_left, List.drop_left, plain]
          have behind : Query.told false among first = none := if_neg notFirst
          have atZero : Query.told false among 0 = none := if_neg noZero
          exact congrArg some (behind.trans atZero.symm)
  | number base => exact numbers place base member
  | copy limit => exact absurd (sure _ member) id

end Answers

/-! ### Rules for a string -/

namespace Reading

variable {text : List UInt8} {starts : UInt8 → Bool} {place : Nat}

/-- `Scan.Meets` on a string. -/
abbrev Meets {α : Type} (text : List UInt8) (program : Reading α)
    (post : α → List (Nat × Query) → Prop) : Prop :=
  Scan.Meets Query.answer (text ++ [0]) program post

def Soft (starts : UInt8 → Bool) (among : List UInt8) : Prop :=
  0 ∉ among ∧ ∀ c ∈ among, starts c = false

instance (among : List UInt8) : Decidable (Soft starts among) :=
  @instDecidableAnd _ _ _ (List.decidableBAll (fun c => starts c = false) among)

theorem meets_told (raise : Bool) (among : List UInt8) (inside : place ≤ text.length) :
    Meets text (Scan.ask place (.peek raise among) Scan.done : Reading (Option UInt8))
      fun reply queries => queries = [(place, .peek raise among)] ∧
        reply = Query.told raise among ((text.drop place).headD 0) := by
  have given : (Query.peek raise among).answer ((text ++ [0]).drop place) =
      some (Query.told raise among ((text.drop place).headD 0)) := by
    rw [drop_zero inside]
    exact congrArg (Option.map (Query.told raise among)) (head_zero (text.drop place) [])
  exact ⟨_, Scan.exec_ask given, Scan.asked_ask given, rfl⟩

theorem told_inside {raise : Bool} {among : List UInt8} {c : UInt8} (noZero : 0 ∉ among)
    (found : Query.told raise among ((text.drop place).headD 0) = some c) :
    place < text.length ∧ c ∈ among ∧
      ((text.drop place).head?.map fun c => if raise then upper c else c) = some c := by
  have kept : ∀ first, Query.told raise among first = some c →
      (if raise then upper first else first) = c ∧ c ∈ among := by
    intro first found
    unfold Query.told at found
    by_cases present : (if raise then upper first else first) ∈ among
    · rw [if_pos present] at found
      obtain rfl := Option.some.inj found
      exact ⟨rfl, present⟩
    · rw [if_neg present] at found
      cases found
  cases rest : text.drop place with
  | nil =>
      rw [rest] at found
      obtain ⟨same, present⟩ := kept 0 found
      have zero : (if raise then upper 0 else 0) = (0 : UInt8) := by
        cases raise with
        | false => rfl
        | true => rfl
      rw [← same, zero] at present
      exact absurd present noZero
  | cons first later =>
      rw [rest] at found
      obtain ⟨same, present⟩ := kept first found
      refine ⟨?_, present, congrArg some same⟩
      by_contra behind
      rw [List.drop_eq_nil_of_le (Nat.le_of_not_lt behind)] at rest
      cases rest

theorem meets_peek {among : List UInt8} (inside : place ≤ text.length)
    (soft : Soft starts among) :
    (peek among place).Meets text fun reply queries => AllSure starts text queries ∧
      ∀ c, reply = some c → place < text.length ∧ c ∈ among := by
  apply (meets_told false among inside).imp
  rintro reply queries ⟨rfl, rfl⟩
  refine ⟨?_, ?_⟩
  · rw [allSure_cons]
    exact ⟨Or.inr ⟨rfl, soft⟩, allSure_nil⟩
  · intro c found
    obtain ⟨early, present, -⟩ := told_inside soft.1 found
    exact ⟨early, present⟩

theorem meets_letter {among : List UInt8} (inside : place ≤ text.length) (noZero : 0 ∉ among) :
    (letter among place).Meets text fun reply queries =>
      (place < text.length → AllSure starts text queries) ∧
      (reply = Query.told true among ((text.drop place).headD 0)) ∧
      ∀ c, reply = some c → place < text.length ∧ c ∈ among ∧
        (text.drop place).head?.map upper = some c := by
  apply (meets_told true among inside).imp
  rintro reply queries ⟨rfl, rfl⟩
  refine ⟨?_, rfl, ?_⟩
  · intro early
    rw [allSure_cons]
    exact ⟨Or.inl early, allSure_nil⟩
  · intro c found
    exact told_inside noZero found

theorem meets_number (base : Nat) (inside : place ≤ text.length) :
    (number base place).Meets text fun reply queries => AllSure starts text queries ∧
      place + reply.2 ≤ text.length := by
  obtain ⟨value, count, fits, reads⟩ := strtoul_zero base (text.drop place)
  have given : (Query.number base).answer ((text ++ [0]).drop place) = some (value, count) := by
    rw [drop_zero inside]
    exact reads []
  refine ⟨(value, count), Scan.exec_ask given, ?_, ?_⟩
  · have asked : (number base place).asked Query.answer (text ++ [0]) =
        [(place, .number base)] := Scan.asked_ask given
    rw [asked, allSure_cons]
    exact ⟨trivial, allSure_nil⟩
  · rw [List.length_drop] at fits
    change place + count ≤ text.length
    omega

theorem meets_copy (limit : Nat) (inside : place ≤ text.length) :
    (copy limit place).Meets text fun _ _ => True := by
  obtain ⟨copied, reads⟩ := answer_zero (.copy limit) inside
  exact ⟨copied, Scan.exec_ask (reads []), trivial⟩

/-- A keyword that is found stands inside the string.  When it is not, the zero byte may have
been reached, after its first letter or at once. -/
theorem meets_keyword {key : List UInt8} (inside : place ≤ text.length) (noZero : 0 ∉ key) :
    (keyword key place).Meets text fun found queries =>
      (found = true → place + key.length ≤ text.length ∧ AllSure starts text queries ∧
        ∀ c ∈ key.head?, (text.drop place).head?.map upper = some c) ∧
      (found = false → AllSure starts text queries ∨ text.length < place + key.length ∧
        (place = text.length ∨ ∀ c ∈ key.head?, (text.drop place).head?.map upper = some c)) := by
  induction key generalizing place with
  | nil =>
      apply Scan.Meets.pure
      refine ⟨fun _ => ⟨inside, allSure_nil, ?_⟩, fun met => absurd met.symm Bool.false_ne_true⟩
      intro c absent
      cases absent
  | cons first rest ih =>
      have firstNe : (0 : UInt8) ∉ [first] := by simp_all
      have restNe : (0 : UInt8) ∉ rest := by simp_all
      unfold keyword
      apply Scan.Meets.bind (meets_letter inside firstNe)
      rintro reply queries ⟨sure, -, found⟩
      cases reply with
      | none =>
          apply Scan.Meets.pure
          refine ⟨fun met => absurd met Bool.false_ne_true, fun _ => ?_⟩
          rw [List.append_nil]
          by_cases early : place < text.length
          · exact Or.inl (sure early)
          · refine Or.inr ⟨?_, Or.inl ?_⟩
            · rw [List.length_cons]
              omega
            · omega
      | some c =>
          obtain ⟨early, present, stands⟩ := found c rfl
          obtain rfl := List.mem_singleton.mp present
          apply (ih early restNe).imp
          rintro found more ⟨holds, fails⟩
          have here : ∀ other ∈ (c :: rest).head?, (text.drop place).head?.map upper = some other := by
            intro other same
            rw [← Option.some.inj same]
            exact stands
          rw [allSure_append, List.length_cons]
          constructor
          · intro whole
            obtain ⟨fits, more, -⟩ := holds whole
            exact ⟨by omega, ⟨sure early, more⟩, here⟩
          · intro other
            rcases fails other with more | ⟨short, -⟩
            · exact Or.inl ⟨sure early, more⟩
            · exact Or.inr ⟨by omega, Or.inr here⟩

end Reading

end DModem.Lib
