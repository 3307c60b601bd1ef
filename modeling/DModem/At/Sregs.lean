/-
S-register commands.

`process_S` reads both numbers with `strtoul` and base 0: a leading zero makes the value octal,
or hexadecimal when an X command follows a single zero and its number is taken for digits.
The value is cut to a byte without a check.
-/

import DModem.At.Bounds

namespace DModem.At

open DModem.Lib DModem.Lib.Reading DModem.Modem

/-! ### Decimal numerals -/

/-- The decimal value of a string of digits. -/
def decimalValue (v : List UInt8) : Nat := digitsValue 10 (v.map digitValue)

theorem digitsValue_concat (base : Nat) (values : List Nat) (last : Nat) :
    digitsValue base (values ++ [last]) = digitsValue base values * base + last := by
  simp [digitsValue]

theorem digitsValue_le (values : List Nat) : digitsValue 8 values ≤ digitsValue 10 values := by
  induction values using List.reverseRecOn with
  | nil => exact Nat.le_refl 0
  | append_singleton values last ih =>
      rw [digitsValue_concat, digitsValue_concat]
      omega

theorem digitsValue_octal_iff {values : List Nat} (small : ∀ digit ∈ values, digit < 8) :
    digitsValue 8 values = digitsValue 10 values ↔ digitsValue 10 values ≤ 7 := by
  induction values using List.reverseRecOn with
  | nil => exact iff_of_true rfl (Nat.zero_le 7)
  | append_singleton values last ih =>
      have lastSmall := small last (List.mem_append_right values List.mem_cons_self)
      have bound := digitsValue_le values
      rw [digitsValue_concat, digitsValue_concat]
      omega

theorem digitsValue_ge {values : List Nat} {digit : Nat} (present : digit ∈ values) :
    digit ≤ digitsValue 10 values := by
  induction values using List.reverseRecOn with
  | nil => cases present
  | append_singleton values last ih =>
      rw [digitsValue_concat]
      rcases List.mem_append.mp present with earlier | final
      · have bound := ih earlier
        omega
      · rw [List.mem_singleton.mp final]
        omega

theorem digit_char {digit : Nat} (small : digit < 10) :
    isDigit (ch digit.digitChar) = true ∧ digitValue (ch digit.digitChar) = digit ∧
      (ch digit.digitChar = ch '0' → digit = 0) := by
  revert digit
  decide

theorem decimalText_digit {num : Nat} (small : num < 10) :
    decimalText num = [ch num.digitChar] := by
  unfold decimalText
  rw [Nat.toDigits_of_lt_base small]
  rfl

theorem decimalText_concat {num : Nat} (large : 10 ≤ num) :
    decimalText num = decimalText (num / 10) ++ [ch (num % 10).digitChar] := by
  unfold decimalText
  rw [Nat.toDigits_of_base_le (by decide) large, List.map_append]
  rfl

theorem decimalText_numeral (num : Nat) :
    (∀ c ∈ decimalText num, isDigit c = true) ∧ decimalText num ≠ [] ∧
      digitsValue 10 ((decimalText num).map digitValue) = num ∧
      ((decimalText num).head? = some (ch '0') → num = 0) := by
  induction num using Nat.strongRecOn with
  | _ num ih =>
      rcases Nat.lt_or_ge num 10 with small | large
      · obtain ⟨digit, value, zero⟩ := digit_char small
        rw [decimalText_digit small]
        refine ⟨by simpa using digit, List.cons_ne_nil _ _, ?_, ?_⟩
        · simp [digitsValue, value]
        · intro first
          exact zero (Option.some.inj first)
      · obtain ⟨digits, nonempty, value, leading⟩ := ih (num / 10) (by omega)
        obtain ⟨digit, last, -⟩ := digit_char (Nat.mod_lt num (by decide : 10 > 0))
        rw [decimalText_concat large]
        refine ⟨?_, by simp, ?_, ?_⟩
        · intro c member
          rcases List.mem_append.mp member with front | back
          · exact digits c front
          · rw [List.mem_singleton.mp back]
            exact digit
        · rw [List.map_append, List.map_singleton, digitsValue_concat, value, last]
          omega
        · intro first
          rw [List.head?_append_of_ne_nil _ nonempty] at first
          have zero := leading first
          omega

theorem ulongValue_small {base : Nat} {values : List Nat}
    (small : digitsValue base values ≤ ulongMax) :
    ulongValue base values false = digitsValue base values := by
  unfold ulongValue
  rw [if_neg (Nat.not_lt.mpr small)]
  rfl

theorem strtoul_decimalText {num : Nat} (small : num ≤ ulongMax) {mark : UInt8}
    (stops : digitOf 10 mark = none ∧ digitOf 8 mark = none) (noHex : upper mark ≠ ch 'X')
    (rest : List UInt8) :
    strtoul 0 (decimalText num ++ mark :: rest) = some (num, (decimalText num).length) := by
  obtain ⟨digits, nonempty, value, leading⟩ := decimalText_numeral num
  by_cases isZero : num = 0
  · subst isZero
    have based : numberBase 0 (ch '0' :: mark :: rest) = some (8, 0) := by
      simp [numberBase, noHex]
    have run : digitRun 8 ((ch '0' :: mark :: rest).drop 0) = some [0] := by
      have zero : digitOf 8 (ch '0') = some 0 := rfl
      simp [digitRun, zero, stops.2]
    exact strtoul_of_digit (by decide) based run
  · rw [strtoul_decimal digits nonempty (fun first => isZero (leading first)) stops.1,
      ulongValue_small (by rwa [value]), value]

/-! ### One S command -/

section Exec

variable {board : Board} {c : Console} {ret : Int} {memory rest : List UInt8} {first : UInt8}

theorem exec_letter {key : UInt8} {handler : Handler} {cases : List (UInt8 × Handler)}
    {place : Nat} (stands : (memory.drop place).head? = some first) (raised : upper first = key)
    (chosen : cases.lookup key = some handler) :
    (switch cases board c ret place).exec Query.answer memory =
      (handler board c ret (place + 1)).exec Query.answer memory := by
  have member : key ∈ cases.map Prod.fst := by
    obtain ⟨before, after, rfl, -⟩ := List.lookup_eq_some_iff.mp chosen
    simp
  have told : Query.told true (cases.map Prod.fst) first = some key := by
    unfold Query.told
    simp only [if_true, raised, if_pos member]
  have given : (Query.peek true (cases.map Prod.fst)).answer (memory.drop place) =
      some (some key) := by
    rw [← told]
    exact congrArg (Option.map (Query.told true (cases.map Prod.fst))) stands
  refine ((Scan.exec_bind (Scan.exec_ask given) _).1).trans ?_
  simp only [chosen]

theorem exec_number {α : Type} {base place value count : Nat} {next : Nat × Nat → Reading α}
    (given : strtoul base (memory.drop place) = some (value, count)) :
    (number base place >>= next).exec Query.answer memory =
      (next (value, count)).exec Query.answer memory := by
  have answered : (Query.number base).answer (memory.drop place) = some (value, count) := given
  exact (Scan.exec_bind (Scan.exec_ask answered) next).1

theorem exec_peek {α : Type} {among : List UInt8} {place : Nat} {next : Option UInt8 → Reading α}
    (stands : (memory.drop place).head? = some first) (present : first ∈ among) :
    (peek among place >>= next).exec Query.answer memory =
      (next (some first)).exec Query.answer memory := by
  have told : Query.told false among first = some first := if_pos present
  have given : (Query.peek false among).answer (memory.drop place) = some (some first) := by
    rw [← told]
    exact congrArg (Option.map (Query.told false among)) stands
  exact (Scan.exec_bind (Scan.exec_ask given) next).1

theorem exec_peek_none {α : Type} {among : List UInt8} {place : Nat}
    {next : Option UInt8 → Reading α} (stands : (memory.drop place).head? = some first)
    (absent : first ∉ among) :
    (peek among place >>= next).exec Query.answer memory =
      (next none).exec Query.answer memory := by
  have told : Query.told false among first = none := if_neg absent
  have given : (Query.peek false among).answer (memory.drop place) = some none := by
    rw [← told]
    exact congrArg (Option.map (Query.told false among)) stands
  exact (Scan.exec_bind (Scan.exec_ask given) next).1

/-- The command `Sn=v` with what follows it. -/
def sregText (num : Nat) (v cont : List UInt8) : List UInt8 :=
  ch 'S' :: (decimalText num ++ ch '=' :: (v ++ (cont ++ [0])))

theorem pass_sreg {num val more : Nat} {v cont : List UInt8} (small : num < 256)
    (reads : strtoul 0 (v ++ (cont ++ [0])) = some (val, more)) :
    (pass board c ret).exec Query.answer (sregText num v cont) =
      some (.breaks
        { console := c.modemSetSreg board num val
          ret := 0
          len := 1 + ((decimalText num).length + 1 + more) }) := by
  have chosen : commandCases.lookup (ch 'S') = some (parsed processS) := rfl
  have equals : (sregText num v cont).drop (1 + (decimalText num).length) =
      ch '=' :: (v ++ (cont ++ [0])) := by
    rw [Nat.add_comm, sregText, List.drop_succ_cons, List.drop_left]
  have value : (sregText num v cont).drop (1 + (decimalText num).length + 1) =
      v ++ (cont ++ [0]) := by
    rw [← List.drop_drop, equals, List.drop_succ_cons, List.drop_zero]
  have sub : (processS board c 1).exec Query.answer (sregText num v cont) =
      some
        { console := c.modemSetSreg board num val
          ret := 0
          len := (decimalText num).length + 1 + more } := by
    have readable : num ≤ ulongMax := by unfold ulongMax; omega
    unfold processS
    rw [exec_number (strtoul_decimalText readable ⟨rfl, rfl⟩ (by decide) _)]
    simp only [if_neg (Nat.not_le.mpr small)]
    rw [exec_peek (congrArg List.head? equals) (by decide)]
    have other : ¬ ch '=' = ch '?' := by decide
    simp only [if_neg other]
    rw [← value] at reads
    rw [exec_number reads]
    rfl
  have raised : upper (ch 'S') = ch 'S' := by decide
  unfold pass
  rw [exec_letter rfl raised chosen]
  exact (Scan.exec_bind sub _).1

end Exec

/-! ### What `strtoul` makes of the value -/

def HexFollows (cont : List UInt8) : Prop :=
  ∃ x digit rest, cont = x :: digit :: rest ∧ upper x = ch 'X' ∧ (digitOf 16 digit).isSome = true

/-- A numeral that `strtoul` reads as decimal: without a leading zero, or with a value of one
digit below 8; a single zero also without hexadecimal digits behind an X. -/
def ReadsDecimal (v cont : List UInt8) : Prop :=
  v.head? = some (ch '0') → decimalValue v ≤ 7 ∧ (v = [ch '0'] → ¬ HexFollows cont)

/-- What may follow the value: nothing, or a command, but no sign where a number is missing. -/
def Follows (v cont : List UInt8) : Prop :=
  ∀ first ∈ cont.head?, opensCommand first = true ∧ (v = [] → first ≠ ch '+')

theorem opens_not_digit {first : UInt8} (ends : first = 0 ∨ opensCommand first = true) :
    digitOf 10 first = none ∧ digitOf 8 first = none ∧ isSpace first = false ∧
      first ≠ ch '-' ∧ first ≠ ch '0' := by
  have every : ∀ n < 256, UInt8.ofNat n = 0 ∨ opensCommand (UInt8.ofNat n) = true →
      digitOf 10 (UInt8.ofNat n) = none ∧ digitOf 8 (UInt8.ofNat n) = none ∧
        isSpace (UInt8.ofNat n) = false ∧ UInt8.ofNat n ≠ ch '-' ∧ UInt8.ofNat n ≠ ch '0' := by
    decide +kernel
  have known := every first.toNat first.toNat_lt
  rw [UInt8.ofNat_toNat] at known
  exact known ends

section Value

variable {v cont rest : List UInt8} {first : UInt8}

theorem follows_cons (follows : Follows v cont) :
    ∃ first rest, cont ++ [0] = first :: rest ∧ (first = 0 ∨ opensCommand first = true) ∧
      (v = [] → first ≠ ch '+') := by
  cases cont with
  | nil => exact ⟨0, [], rfl, Or.inl rfl, fun _ => by decide⟩
  | cons first rest =>
      obtain ⟨opens, noSign⟩ := follows first rfl
      exact ⟨first, rest ++ [0], rfl, Or.inr opens, noSign⟩

theorem strtoul_empty (ends : first = 0 ∨ opensCommand first = true) (noSign : first ≠ ch '+') :
    strtoul 0 (first :: rest) = some (0, 0) := by
  obtain ⟨stops, -, noSpace, noMinus, noZero⟩ := opens_not_digit ends
  have noBlank : blankRun (first :: rest) = some 0 := by
    rw [blankRun, if_neg (by rw [noSpace]; exact Bool.false_ne_true)]
  have plain : ¬ (first = ch '-' ∨ first = ch '+') := fun sign => sign.elim noMinus noSign
  have run : digitRun 10 (first :: rest) = some [] := by
    rw [digitRun, stops]
  simp only [strtoul, Option.bind_eq_bind, noBlank, Option.bind_some, List.drop_zero,
    List.head?_cons, if_neg plain, Nat.zero_add, numberBase_ten noZero, run, if_true]

theorem strtoul_octal {second : UInt8} {w front back : List UInt8}
    (digits : ∀ c ∈ ch '0' :: second :: w, isDigit c = true)
    (split : ch '0' :: second :: w ++ rest = front ++ first :: back)
    (octal : ∀ c ∈ front, isDigit c = true ∧ digitValue c < 8)
    (stops : digitOf 8 first = none) (some_ : front ≠ []) :
    strtoul 0 (ch '0' :: second :: w ++ rest) =
      some (ulongValue 8 (front.map digitValue) false, front.length) := by
  have secondDigit := digits second (List.mem_cons_of_mem _ List.mem_cons_self)
  have noMark : upper second ≠ ch 'X' := by
    have range : 48 ≤ second ∧ second ≤ 57 := of_decide_eq_true secondDigit
    have same : upper second = second := by
      unfold upper
      rw [if_neg]
      rintro ⟨low, -⟩
      exact absurd (UInt8.le_trans low range.2) (by decide)
    rw [same]
    rintro rfl
    revert secondDigit
    decide
  have based : numberBase 0 (ch '0' :: (second :: w ++ rest)) = some (8, 0) := by
    simp [numberBase, noMark]
  have run : digitRun 8 ((ch '0' :: (second :: w ++ rest)).drop 0) =
      some (front.map digitValue) := by
    have whole : (ch '0' :: (second :: w ++ rest)).drop 0 = front ++ first :: back := split
    rw [whole]
    exact digitRun_append octal stops
  have reads := strtoul_of_digit (by decide) based run
  rw [if_neg (by simpa using some_), List.length_map, Nat.zero_add] at reads
  exact reads

theorem strtoul_zero_mark (hex : ¬ HexFollows cont) (follows : Follows [ch '0'] cont) :
    strtoul 0 (ch '0' :: (cont ++ [0])) = some (0, 1) := by
  obtain ⟨first, rest, whole, ends, -⟩ := follows_cons follows
  obtain ⟨-, stops, -, -, -⟩ := opens_not_digit ends
  have based : numberBase 0 (ch '0' :: (cont ++ [0])) = some (8, 0) := by
    rcases cont with _ | ⟨x, _ | ⟨digit, cont⟩⟩
    · rfl
    · by_cases mark : upper x = ch 'X'
      · simp [numberBase, mark]
        decide
      · simp [numberBase, mark]
    · by_cases mark : upper x = ch 'X'
      · have other : ¬ (digitOf 16 digit).isSome = true := fun isHex =>
          hex ⟨x, digit, cont, rfl, mark, isHex⟩
        simp [numberBase, Option.not_isSome_iff_eq_none.mp other]
      · simp [numberBase, mark]
  have run : digitRun 8 ((ch '0' :: (cont ++ [0])).drop 0) = some [0] := by
    rw [List.drop_zero, whole]
    have zero : digitOf 8 (ch '0') = some 0 := by decide
    rw [digitRun, zero]
    simp only [digitRun, stops]
    rfl
  exact strtoul_of_digit (by decide) based run

theorem strtoul_hex_mark (hex : HexFollows cont) :
    ∃ val more, strtoul 0 (ch '0' :: (cont ++ [0])) = some (val, more) ∧ more ≠ 1 := by
  obtain ⟨x, digit, rest, rfl, mark, isHex⟩ := hex
  have based : numberBase 0 (ch '0' :: (x :: digit :: rest ++ [0])) = some (16, 2) := by
    simp [numberBase, mark, isHex]
  obtain ⟨values, -, reads⟩ := digitRun_zero 16 (digit :: rest)
  have run : digitRun 16 ((ch '0' :: (x :: digit :: rest ++ [0])).drop 2) = some values :=
    reads []
  have some_ : values ≠ [] := by
    obtain ⟨value, isValue⟩ := Option.isSome_iff_exists.mp isHex
    rintro rfl
    have first := reads []
    rw [List.cons_append, digitRun, isValue] at first
    simp at first
  refine ⟨_, _, (strtoul_of_digit (by decide) based run).trans (if_neg some_), ?_⟩
  omega

theorem octal_split (v : List UInt8) :
    ∃ front back, v = front ++ back ∧ (∀ c ∈ front, digitValue c < 8) ∧
      ∀ c ∈ back.head?, 8 ≤ digitValue c := by
  induction v with
  | nil => exact ⟨[], [], rfl, by simp, by simp⟩
  | cons c v ih =>
      by_cases small : digitValue c < 8
      · obtain ⟨front, back, rfl, octal, high⟩ := ih
        exact ⟨c :: front, back, rfl, List.forall_mem_cons.mpr ⟨small, octal⟩, high⟩
      · refine ⟨[], c :: v, rfl, by simp, ?_⟩
        intro other member
        cases member
        exact Nat.not_lt.mp small

theorem strtoul_leading_zero {second : UInt8} {w : List UInt8} (rest : List UInt8)
    (digits : ∀ c ∈ ch '0' :: second :: w, isDigit c = true)
    (ends : first = 0 ∨ opensCommand first = true) :
    ∃ front back, ch '0' :: second :: w = front ++ back ∧ (∀ c ∈ front, digitValue c < 8) ∧
      (∀ c ∈ back.head?, 8 ≤ digitValue c) ∧
      strtoul 0 (ch '0' :: second :: w ++ first :: rest) =
        some (ulongValue 8 (front.map digitValue) false, front.length) := by
  obtain ⟨-, stopsOctal, -, -, -⟩ := opens_not_digit ends
  obtain ⟨front, back, parts, small, high⟩ := octal_split (ch '0' :: second :: w)
  have someFront : front ≠ [] := by
    rintro rfl
    have first : ch '0' ∈ back.head? := by
      rw [List.nil_append] at parts
      rw [← parts]
      rfl
    exact absurd (high _ first) (by decide)
  have octal : ∀ c ∈ front, isDigit c = true ∧ digitValue c < 8 := fun c member =>
    ⟨digits c (by rw [parts]; exact List.mem_append_left back member), small c member⟩
  refine ⟨front, back, parts, small, high, ?_⟩
  cases back with
  | nil =>
      have split : ch '0' :: second :: w ++ first :: rest = front ++ first :: rest := by
        rw [parts, List.append_nil]
      exact strtoul_octal digits split octal stopsOctal someFront
  | cons c back =>
      have split : ch '0' :: second :: w ++ first :: rest =
          front ++ c :: (back ++ first :: rest) := by
        rw [parts, List.append_assoc, List.cons_append]
      have isOne : isDigit c = true :=
        digits c (by rw [parts]; exact List.mem_append_right front List.mem_cons_self)
      have stops : digitOf 8 c = none := by
        rw [digitOf_digit isOne, if_neg (Nat.not_lt.mpr (high c rfl))]
      exact strtoul_octal digits split octal stops someFront

theorem octal_exact_iff {front back : List UInt8} (small : ∀ c ∈ front, digitValue c < 8)
    (high : ∀ c ∈ back.head?, 8 ≤ digitValue c) (bounded : decimalValue (front ++ back) ≤ 255) :
    ulongValue 8 (front.map digitValue) false % 256 = decimalValue (front ++ back) ∧
        front.length = (front ++ back).length ↔ decimalValue (front ++ back) ≤ 7 := by
  cases back with
  | nil =>
      rw [List.append_nil] at bounded ⊢
      have octal : ∀ digit ∈ front.map digitValue, digit < 8 := by
        intro digit member
        obtain ⟨c, among, rfl⟩ := List.mem_map.mp member
        exact small c among
      have below : digitsValue 8 (front.map digitValue) ≤ 255 :=
        Nat.le_trans (digitsValue_le _) bounded
      rw [ulongValue_small (by unfold ulongMax; omega), Nat.mod_eq_of_lt (by omega),
        and_iff_left rfl]
      exact digitsValue_octal_iff octal
  | cons c back =>
      have large : 8 ≤ decimalValue (front ++ c :: back) := by
        refine Nat.le_trans (high c rfl) (digitsValue_ge ?_)
        exact List.mem_map_of_mem (List.mem_append_right front List.mem_cons_self)
      refine iff_of_false ?_ (by omega)
      rintro ⟨-, whole⟩
      rw [List.length_append, List.length_cons] at whole
      omega

/-- `strtoul` reads the decimal value and all of the numeral exactly if it reads it as
decimal. -/
theorem strtoul_value (digits : ∀ c ∈ v, isDigit c = true) (follows : Follows v cont) :
    ∃ val more, strtoul 0 (v ++ (cont ++ [0])) = some (val, more) ∧
      (decimalValue v ≤ 255 →
        (val % 256 = decimalValue v ∧ more = v.length ↔ ReadsDecimal v cont)) := by
  obtain ⟨first, rest, whole, ends, noSign⟩ := follows_cons follows
  obtain ⟨stops, -, -, -, -⟩ := opens_not_digit ends
  by_cases zero : v.head? = some (ch '0')
  · obtain ⟨w, rfl⟩ := List.head?_eq_some_iff.mp zero
    cases w with
    | nil =>
        by_cases hex : HexFollows cont
        · obtain ⟨val, more, reads, moreOff⟩ := strtoul_hex_mark hex
          exact ⟨val, more, reads, fun _ => iff_of_false (fun good => moreOff good.2)
            fun decimal => (decimal rfl).2 rfl hex⟩
        · refine ⟨0, 1, strtoul_zero_mark hex follows, fun _ => ?_⟩
          exact iff_of_true ⟨by decide, rfl⟩ fun _ => ⟨by decide, fun _ => hex⟩
    | cons second w =>
        obtain ⟨front, back, parts, small, high, reads⟩ :=
          strtoul_leading_zero rest digits ends
        rw [← whole] at reads
        refine ⟨_, _, reads, fun bounded => ?_⟩
        have several : ch '0' :: second :: w ≠ [ch '0'] := by simp
        have decimal : ReadsDecimal (ch '0' :: second :: w) cont ↔
            decimalValue (ch '0' :: second :: w) ≤ 7 :=
          ⟨fun reads => (reads rfl).1, fun low _ => ⟨low, fun single => absurd single several⟩⟩
        rw [decimal]
        rw [parts] at bounded ⊢
        exact octal_exact_iff small high bounded
  · cases v with
    | nil =>
        refine ⟨0, 0, ?_, fun _ => iff_of_true ⟨rfl, rfl⟩ fun leading => absurd leading zero⟩
        rw [List.nil_append, whole]
        exact strtoul_empty ends (noSign rfl)
    | cons c w =>
        have reads : strtoul 0 (c :: w ++ first :: rest) = _ :=
          strtoul_decimal digits (List.cons_ne_nil c w) zero stops
        rw [← whole] at reads
        refine ⟨_, _, reads, fun small => ?_⟩
        refine iff_of_true ⟨?_, rfl⟩ fun leading => absurd leading zero
        have value : digitsValue 10 ((c :: w).map digitValue) ≤ 255 := small
        rw [ulongValue_small (by unfold ulongMax; omega), Nat.mod_eq_of_lt (by omega)]
        rfl

end Value

/-! ### S-register commands are decimal and range-checked -/

/-- `ATSn?` answers with the value. -/
def Shows (board : Board) (c : Console) (num value : Nat) : Prop :=
  ∃ run, processAtCommand board c
      (ch 'A' :: ch 'T' :: ch 'S' :: (decimalText num ++ [ch '?', 0])) = some run ∧
    run.ret = 0 ∧
    run.console.modem.out =
      c.modem.out ++ [.echo (decimalText value), .echo c.modem.crlf]

/-- The pass over `Sn=v` sets the register and leaves the continuation to the next pass, or
refuses a value that is no byte. -/
structure SetsDecimal (board : Board) (c : Console) (ret : Int) (num : Nat)
    (v cont : List UInt8) : Prop where
  accepts : decimalValue v ≤ 255 →
    ∃ sub, (pass board c ret).exec Query.answer (sregText num v cont) = some (.breaks sub) ∧
      sub.ret = 0 ∧
      (sregText num v cont).drop sub.len = cont ++ [0] ∧
      sub.console.modem =
        { c.modem with
          sregs := Function.update c.modem.sregs num (UInt8.ofNat (decimalValue v)) } ∧
      Shows board sub.console num (decimalValue v) ∧
      processAtCommand board c (ch 'A' :: ch 'T' :: sregText num v cont) =
        (atLoop board ((sregText num v cont).length + 1) sub.console (cont ++ [0]) 0).map
          (Run.prepend sub.len)
  rejects : 255 < decimalValue v →
    ∃ sub, (pass board c ret).exec Query.answer (sregText num v cont) = some (.breaks sub) ∧
      sub.ret ≠ 0 ∧ sub.console.modem.sregs = c.modem.sregs

section Sets

variable {board : Board} {c : Console} {ret : Int} {num : Nat} {v cont : List UInt8}

theorem sregs_shows (small : num < 256) :
    Shows board c num (c.modem.sregs num).toNat := by
  have chosen : commandCases.lookup (ch 'S') = some (parsed processS) := rfl
  have raised : upper (ch 'S') = ch 'S' := by decide
  have asks : (ch 'S' :: (decimalText num ++ [ch '?', 0])).drop (1 + (decimalText num).length) =
      [ch '?', 0] := by
    rw [Nat.add_comm, List.drop_succ_cons, List.drop_left]
  have ran : (pass board c (-1)).exec Query.answer
      (ch 'S' :: (decimalText num ++ [ch '?', 0])) =
      some (.breaks
        { console := c.sendLine board (decimalText (c.modem.sregs num).toNat)
          ret := 0
          len := 1 + ((decimalText num).length + 1) }) := by
    have sub : (processS board c 1).exec Query.answer
        (ch 'S' :: (decimalText num ++ [ch '?', 0])) =
        some
          { console := c.sendLine board (decimalText (c.modem.sregs num).toNat)
            ret := 0
            len := (decimalText num).length + 1 } := by
      unfold processS
      have readable : num ≤ ulongMax := by unfold ulongMax; omega
      rw [exec_number (strtoul_decimalText readable ⟨rfl, rfl⟩ (by decide) _)]
      simp only [if_neg (Nat.not_le.mpr small)]
      rw [exec_peek (congrArg List.head? asks) (by decide)]
      rfl
    unfold pass
    rw [exec_letter rfl raised chosen]
    exact (Scan.exec_bind sub _).1
  have done : (ch 'S' :: (decimalText num ++ [ch '?', 0])).drop
      (1 + ((decimalText num).length + 1)) = [0] := by
    rw [← Nat.add_assoc, ← List.drop_drop, asks]
    rfl
  have body : processAtCommand board c
      (ch 'A' :: ch 'T' :: ch 'S' :: (decimalText num ++ [ch '?', 0])) =
      atLoop board ((decimalText num ++ [ch '?', 0]).length + 3) c
        (ch 'S' :: (decimalText num ++ [ch '?', 0])) (-1) := rfl
  rw [Shows, body, atLoop_accepts rfl (by decide) ran rfl]
  simp only [done]
  refine ⟨_, rfl, rfl, ?_⟩
  exact List.append_assoc _ _ _

theorem sregText_drop (more : Nat) :
    (sregText num v cont).drop (1 + ((decimalText num).length + 1 + more)) =
      (v ++ (cont ++ [0])).drop more := by
  have split : 1 + ((decimalText num).length + 1 + more) =
      (decimalText num).length + (1 + more) + 1 := by omega
  rw [split, sregText, List.drop_succ_cons, ← List.drop_drop, List.drop_left, Nat.add_comm 1,
    List.drop_succ_cons]

theorem setSreg_byte (val : Nat) :
    (c.modemSetSreg board num val).modem =
      { c.modem with sregs := Function.update c.modem.sregs num (UInt8.ofNat val) } := rfl

theorem byte_eq_iff {val value : Nat} (small : value ≤ 255) :
    UInt8.ofNat val = UInt8.ofNat value ↔ val % 256 = value := by
  have same : value % 2 ^ 8 = value := Nat.mod_eq_of_lt (by omega)
  rw [← UInt8.toNat_inj, UInt8.toNat_ofNat', UInt8.toNat_ofNat', same]

theorem sets_byte (small : num < 256) (digits : ∀ c ∈ v, isDigit c = true)
    (follows : Follows v cont) (sets : SetsDecimal board c ret num v cont) :
    decimalValue v ≤ 255 := by
  obtain ⟨val, more, reads, -⟩ := strtoul_value digits follows
  by_contra large
  obtain ⟨sub, found, refused, -⟩ := sets.rejects (Nat.not_le.mp large)
  cases (pass_sreg small reads).symm.trans found
  exact refused rfl

theorem sets_readsDecimal (small : num < 256) (digits : ∀ c ∈ v, isDigit c = true)
    (follows : Follows v cont) (sets : SetsDecimal board c ret num v cont) :
    ReadsDecimal v cont := by
  have bounded := sets_byte small digits follows sets
  obtain ⟨val, more, reads, exactly⟩ := strtoul_value digits follows
  obtain ⟨sub, found, -, rest, modem, -, -⟩ := sets.accepts bounded
  cases (pass_sreg small reads).symm.trans found
  refine (exactly bounded).mp ⟨?_, ?_⟩
  · have written := congrFun (congrArg Modem.sregs modem) num
    simp only [setSreg_byte, Function.update_self] at written
    exact (byte_eq_iff bounded).mp written
  · have left := congrArg List.length rest
    rw [sregText_drop, List.length_drop, List.length_append, List.length_append,
      List.length_singleton] at left
    omega

/-- Every numeral is accepted; it sets the register to its value exactly if it is decimal and
a byte. -/
theorem sreg_sets_decimal_iff (small : num < 256) (digits : ∀ c ∈ v, isDigit c = true)
    (follows : Follows v cont) :
    SetsDecimal board c ret num v cont ↔ decimalValue v ≤ 255 ∧ ReadsDecimal v cont := by
  constructor
  · intro sets
    exact ⟨sets_byte small digits follows sets, sets_readsDecimal small digits follows sets⟩
  · rintro ⟨bounded, decimal⟩
    obtain ⟨val, more, reads, exactly⟩ := strtoul_value digits follows
    have ran : ∀ ret, (pass board c ret).exec Query.answer (sregText num v cont) = _ :=
      fun ret => pass_sreg small reads
    obtain ⟨value, whole⟩ := (exactly bounded).mpr decimal
    have rest : (sregText num v cont).drop (1 + ((decimalText num).length + 1 + more)) =
        cont ++ [0] := by
      rw [sregText_drop, whole, List.drop_left]
    have byte : UInt8.ofNat val = UInt8.ofNat (decimalValue v) := (byte_eq_iff bounded).mpr value
    have shown : ((c.modemSetSreg board num val).modem.sregs num).toNat = decimalValue v := by
      simp only [setSreg_byte, Function.update_self, UInt8.toNat_ofNat']
      exact value
    refine ⟨fun _ => ⟨_, ran ret, rfl, rest, ?_, ?_, ?_⟩, fun large => by omega⟩
    · rw [setSreg_byte, byte]
    · rw [← shown]
      exact sregs_shows small
    · have body : processAtCommand board c (ch 'A' :: ch 'T' :: sregText num v cont) =
          atLoop board ((sregText num v cont).length + 2) c (sregText num v cont) (-1) := rfl
      rw [body, atLoop_accepts rfl (by decide) (ran (-1)) rfl, rest]

theorem sreg_sets_decimal_seven :
    SetsDecimal plainBoard freshConsole (-1) 7 (word ['6', '0']) (word ['X', '4']) := by
  refine (sreg_sets_decimal_iff (by decide) (by decide +kernel) ?_).mpr ⟨by decide +kernel, ?_⟩
  · intro first found
    cases found
    exact ⟨by decide, by decide⟩
  · intro leading
    exact absurd leading (by decide)

/-- `S0=0` with `X4` behind it sets the register to 4, `S0=010` to 8 and `S0=300` to 44. -/
theorem sreg_sets_other :
    ¬ SetsDecimal plainBoard freshConsole (-1) 0 (word ['0']) (word ['X', '4']) ∧
      ¬ SetsDecimal plainBoard freshConsole (-1) 0 (word ['0', '1', '0']) [] ∧
      ¬ SetsDecimal plainBoard freshConsole (-1) 0 (word ['3', '0', '0']) [] ∧
      (processAtCommand plainBoard freshConsole
        (word ['A', 'T', 'S', '0', '=', '0', 'X', '4'] ++ [0])).map
          (fun run => (run.ret, run.console.modem.sregs 0)) = some (0, 4) ∧
      (processAtCommand plainBoard freshConsole
        (word ['A', 'T', 'S', '0', '=', '0', '1', '0'] ++ [0])).map
          (fun run => (run.ret, run.console.modem.sregs 0)) = some (0, 8) ∧
      (processAtCommand plainBoard freshConsole
        (word ['A', 'T', 'S', '0', '=', '3', '0', '0'] ++ [0])).map
          (fun run => (run.ret, run.console.modem.sregs 0)) = some (0, 44) := by
  have hexFollows : HexFollows (word ['X', '4']) :=
    ⟨ch 'X', ch '4', [], rfl, by decide, by decide⟩
  have xFollows : Follows (word ['0']) (word ['X', '4']) := by
    intro first found
    cases found
    exact ⟨by decide, by decide⟩
  have endFollows : ∀ v, Follows v [] := by
    intro v first found
    cases found
  refine ⟨?_, ?_, ?_, by decide +kernel, by decide +kernel, by decide +kernel⟩
  · intro sets
    have decimal := sets_readsDecimal (by decide) (by decide +kernel) xFollows sets
    exact (decimal rfl).2 rfl hexFollows
  · intro sets
    have decimal := sets_readsDecimal (by decide) (by decide +kernel) (endFollows _) sets
    exact absurd (decimal rfl).1 (by decide +kernel)
  · intro sets
    have bounded := sets_byte (by decide) (by decide +kernel) (endFollows _) sets
    exact absurd bounded (by decide +kernel)

end Sets

end DModem.At
