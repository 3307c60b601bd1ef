/-
Characters that go through the asynchronous packer of one modem and the unpacker
of another.

The line is a row of tokens: a character with its start and stop bit, or one stop
bit of the idle fill.  The receiver keeps at most 9 bits between two symbols, which
is less than a character, so that a character is delivered with its stop bit.
-/

import DModem.Async.Packer
import DModem.Hdlc.RoundTrip

namespace DModem.Async

open DModem.Lib
open DModem.Hdlc (BitsState octetBits symbolBits fedBits)

/-! ### The line -/

def tokenBits : Option UInt8 → List Bool
  | none => [true]
  | some ch => false :: (octetBits ch ++ [true])

def asyncLine (tokens : List (Option UInt8)) : List Bool := tokens.flatMap tokenBits

def charsOf (tokens : List (Option UInt8)) : List UInt8 := tokens.filterMap id

theorem asyncLine_append (front back : List (Option UInt8)) :
    asyncLine (front ++ back) = asyncLine front ++ asyncLine back :=
  List.flatMap_append

theorem charsOf_append (front back : List (Option UInt8)) :
    charsOf (front ++ back) = charsOf front ++ charsOf back :=
  List.filterMap_append

theorem asyncLine_stops (n : Nat) :
    asyncLine (List.replicate n none) = List.replicate n true := by
  induction n with
  | zero => rfl
  | succ n ih =>
      rw [List.replicate_succ, List.replicate_succ, ← ih]
      rfl

theorem charsOf_stops (n : Nat) : charsOf (List.replicate n none) = [] := by
  induction n with
  | zero => rfl
  | succ n ih =>
      rw [List.replicate_succ, ← ih]
      rfl

theorem tokenBits_length (ch : UInt8) : (tokenBits (some ch)).length = 10 := by
  simp [tokenBits, Hdlc.octetBits_length]

theorem charsOf_short {tokens : List (Option UInt8)} (short : (asyncLine tokens).length ≤ 9) :
    charsOf tokens = [] := by
  induction tokens with
  | nil => rfl
  | cons token rest ih =>
      rw [asyncLine, List.flatMap_cons, List.length_append] at short
      cases token with
      | none => exact ih (by rw [asyncLine]; omega)
      | some ch =>
          rw [tokenBits_length] at short
          omega

/-! ### The order of the bits -/

theorem reverseBits_window (ch : BitVec 8) :
    window (reverseBits ch) 8 = Hdlc.bitsUp 8 ch := by
  revert ch
  decide +kernel

theorem reverseBits_reverseBits (ch : BitVec 8) : reverseBits (reverseBits ch) = ch := by
  revert ch
  decide +kernel

theorem charData_window (ch : UInt8) :
    window (charData (reverseBits ch.toBitVec)) 10 = tokenBits (some ch) := by
  have every : ∀ c : BitVec 8,
      window (charData (reverseBits c)) 10 = false :: (Hdlc.bitsUp 8 c ++ [true]) := by
    decide +kernel
  exact every ch.toBitVec

theorem charData_small (ch : BitVec 8) (i : Nat) (high : 10 ≤ i) :
    (charData ch).getLsbD i = false := by
  have far : ¬ i = 0 := by omega
  have beyond : ch.getLsbD (i - 1) = false := BitVec.getLsbD_of_ge ch (i - 1) (by omega)
  simp [charData, BitVec.getLsbD_or, BitVec.getLsbD_shiftLeft, BitVec.getLsbD_setWidth, far, beyond]

/-! ### Transmitter -/

theorem pushChar_bits (s : BitsState) (ch : UInt8) (room : s.bit ≤ 22) :
    (pushChar s ch).bits = s.bits ++ tokenBits (some ch) := by
  rw [← charData_window]
  exact window_push s.bit 10 (by omega) (charData_small _)

theorem symbolOf_bits {nbits : Nat} (small : nbits ≤ 8) (bits : BitVec 32) :
    symbolBits nbits (symbolOf bits) = window bits nbits := by
  apply window_congr
  intro i within
  have inside : i < 8 := by omega
  simp [symbolOf, inside]

theorem onesMask_window {n : Nat} (small : n ≤ 32) :
    window (onesMask n) n = List.replicate n true := by
  have every : ∀ k ≤ n, window (onesMask n) k = List.replicate k true := by
    intro k
    induction k with
    | zero =>
        intro _
        rfl
    | succ k ih =>
        intro within
        have inside : k < 32 := by omega
        have below : k < n := by omega
        rw [window, ih (by omega), List.replicate_succ, onesMask, BitVec.getLsbD_ofNat,
          Nat.testBit_two_pow_sub_one]
        simp [inside, below]
  exact every n (Nat.le_refl n)

theorem onesMask_small {n i : Nat} (high : n ≤ i) : (onesMask n).getLsbD i = false := by
  rw [onesMask, BitVec.getLsbD_ofNat, Nat.testBit_two_pow_sub_one]
  simp [Nat.not_lt.mpr high]

/-- The answers of `get_chars`, one for each question. -/
def fetch (answers : Nat → Option UInt8) (asked : Nat) : Option UInt8 × Nat :=
  (answers asked, asked + 1)

/-- The characters that the packer has got. -/
def fetched (answers : Nat → Option UInt8) (asked : Nat) : List UInt8 :=
  charsOf ((List.range asked).map answers)

theorem fetched_succ (answers : Nat → Option UInt8) (asked : Nat) :
    fetched answers (asked + 1) = fetched answers asked ++ (answers asked).toList := by
  rw [fetched, List.range_succ, List.map_append, charsOf_append, fetched]
  cases answered : answers asked with
  | none => simp [charsOf, answered]
  | some ch => simp [charsOf, answered]

structure Sending (answers : Nat → Option UInt8) (tokens : List (Option UInt8))
    (sent : List Bool) (s : BitsState) (asked : Nat) : Prop where
  line : sent ++ s.bits = asyncLine tokens
  chars : charsOf tokens = fetched answers asked

section Transmitter

variable {answers : Nat → Option UInt8} {tokens : List (Option UInt8)} {sent : List Bool}
  {s : BitsState} {asked : Nat}

theorem Sending.pushChar (sending : Sending answers tokens sent s asked) (room : s.bit ≤ 22)
    {ch : UInt8} (answered : answers asked = some ch) :
    Sending answers (tokens ++ [some ch]) sent (pushChar s ch) (asked + 1) := by
  constructor
  · rw [pushChar_bits s ch room, ← List.append_assoc, sending.line, asyncLine_append]
    simp [asyncLine]
  · rw [charsOf_append, sending.chars, fetched_succ, answered]
    rfl

theorem Sending.nothing (sending : Sending answers tokens sent s asked)
    (answered : answers asked = none) : Sending answers tokens sent s (asked + 1) := by
  constructor
  · exact sending.line
  · rw [sending.chars, fetched_succ, answered]
    simp

theorem fill_full {σ : Type} {getChars : σ → Option UInt8 × σ} {queue : σ} {nbits : Nat}
    (rounds : Nat) (full : nbits ≤ s.bit) : fill getChars nbits rounds s queue = (s, queue) := by
  cases rounds with
  | zero => rfl
  | succ rounds => simp [fill, full]

theorem Sending.fill (sending : Sending answers tokens sent s asked) {nbits : Nat}
    (some : 1 ≤ nbits) (small : nbits ≤ 8) (low : s.bit ≤ 9) :
    let next := fill (fetch answers) nbits nbits s asked
    ∃ more, Sending answers (tokens ++ more) sent next.1 next.2 ∧ next.1.bit ≤ 9 + nbits := by
  by_cases full : nbits ≤ s.bit
  · simp only [fill_full nbits full]
    exact ⟨[], by simpa using sending, by omega⟩
  · obtain ⟨rounds, roundsEq⟩ : ∃ rounds, nbits = rounds + 1 := ⟨nbits - 1, by omega⟩
    cases answered : answers asked with
    | none =>
        have stays : Async.fill (fetch answers) nbits nbits s asked = (s, asked + 1) := by
          nth_rewrite 2 [roundsEq]
          simp [Async.fill, full, fetch, answered]
        rw [stays]
        exact ⟨[], by simpa using sending.nothing answered, by simp; omega⟩
    | some ch =>
        have grown : (Async.pushChar s ch).bit = s.bit + 10 := rfl
        have pushes : Async.fill (fetch answers) nbits nbits s asked =
            (Async.pushChar s ch, asked + 1) := by
          nth_rewrite 2 [roundsEq]
          simp only [Async.fill, if_neg full, fetch, answered]
          exact fill_full rounds (by omega)
        rw [pushes]
        exact ⟨[.some ch], sending.pushChar (by omega) answered, by simp [grown]; omega⟩

theorem Sending.takeSymbol (sending : Sending answers tokens sent s asked) {nbits : Nat}
    (small : nbits ≤ 8) (full : nbits ≤ s.bit) :
    Sending answers tokens
      (sent ++ symbolBits nbits (symbolOf (s.data >>> (s.bit - nbits))))
      { s with bit := s.bit - nbits } asked := by
  obtain ⟨left, leftEq⟩ : ∃ left, s.bit = left + nbits := ⟨s.bit - nbits, by omega⟩
  constructor
  · have cut : s.bits = window (s.data >>> left) nbits ++ window s.data left := by
      rw [BitsState.bits, leftEq, ← window_take, ← window_drop s.data left nbits,
        List.take_append_drop]
    rw [← sending.line, symbolOf_bits small, cut, leftEq, Nat.add_sub_cancel, List.append_assoc]
    rfl
  · exact sending.chars

theorem Sending.stops (sending : Sending answers tokens sent s asked) (n : Nat) :
    Sending answers (tokens ++ List.replicate n none)
      (sent ++ s.bits ++ List.replicate n true) { s with bit := 0 } asked := by
  constructor
  · rw [sending.line, asyncLine_append, asyncLine_stops]
    simp [BitsState.bits, window]
  · rw [charsOf_append, charsOf_stops, List.append_nil, sending.chars]

theorem idle_bits {nbits : Nat} (small : nbits ≤ 8) (count : Nat) :
    (List.replicate count (symbolOf (onesMask nbits))).flatMap (symbolBits nbits) =
      List.replicate (nbits * count) true := by
  induction count with
  | zero => rfl
  | succ count ih =>
      rw [List.replicate_succ, List.flatMap_cons, ih, symbolOf_bits small,
        onesMask_window (by omega), ← List.replicate_add, Nat.mul_succ, Nat.add_comm]

theorem fillStops_bits {nbits : Nat} (small : nbits ≤ 8) (short : s.bit < nbits)
    (bitCnt : Nat) :
    (fillStops nbits (bitCnt + 1) s).1.flatMap (symbolBits nbits) =
        s.bits ++ List.replicate (nbits - s.bit + nbits * bitCnt) true ∧
      (fillStops nbits (bitCnt + 1) s).2 = { s with bit := 0 } := by
  by_cases left : s.bit = 0
  · have same : s = { s with bit := 0 } := by rw [← left]
    have empty : s.bits = [] := by rw [BitsState.bits, left, window]
    simp only [fillStops, left, ne_eq, not_true_eq_false, false_and, if_false]
    constructor
    · rw [idle_bits small, empty, Nat.mul_succ, Nat.sub_zero, Nat.add_comm, List.nil_append]
    · exact same
  · simp only [fillStops, ne_eq, left, not_false_eq_true, Nat.succ_pos', and_self, if_true,
      Nat.add_sub_cancel, List.flatMap_cons, idle_bits small, gt_iff_lt]
    constructor
    · have pads : window (s.data <<< (nbits - s.bit) ||| onesMask (nbits - s.bit))
          (s.bit + (nbits - s.bit)) = s.bits ++ List.replicate (nbits - s.bit) true := by
        rw [window_push s.bit (nbits - s.bit) (by omega) (fun i high => onesMask_small high),
          onesMask_window (by omega)]
        rfl
      rw [Nat.add_sub_cancel' (by omega)] at pads
      rw [symbolOf_bits small, pads, List.append_assoc, List.replicate_append_replicate]
    · trivial

theorem Sending.getBits {nbits : Nat} (some : 1 ≤ nbits) (small : nbits ≤ 8) (bitCnt : Nat)
    (sending : Sending answers tokens sent s asked) (low : s.bit ≤ 9) :
    let next := modemAsyncGetBits (fetch answers) nbits bitCnt s asked
    ∃ more, Sending answers (tokens ++ more) (sent ++ next.1.flatMap (symbolBits nbits))
      next.2.1 next.2.2 ∧ next.2.1.bit ≤ 9 := by
  induction bitCnt generalizing tokens sent s asked with
  | zero => exact ⟨[], by simpa [modemAsyncGetBits] using sending, low⟩
  | succ bitCnt ih =>
      obtain ⟨first, ready, bound⟩ := sending.fill some small low
      simp only [modemAsyncGetBits]
      generalize Async.fill (fetch answers) nbits nbits s asked = next at ready bound ⊢
      by_cases full : nbits ≤ next.1.bit
      · have taken := ready.takeSymbol small full
        obtain ⟨more, rest, restLow⟩ := ih taken (by simp only; omega)
        simp only [full, if_true, List.flatMap_cons]
        refine ⟨first ++ more, ?_, restLow⟩
        simpa only [List.append_assoc] using rest
      · have bits := fillStops_bits small (Nat.lt_of_not_le full) bitCnt
        simp only [full, if_false, bits.1, bits.2]
        refine ⟨first ++ List.replicate (nbits - next.1.bit + nbits * bitCnt) none, ?_,
          Nat.zero_le 9⟩
        rw [← List.append_assoc, ← List.append_assoc]
        exact ready.stops _

end Transmitter

/-! ### Receiver -/

/-- The unpacker has got the bits `fed` of the line, and has delivered `log`. -/
structure Receiving (done left : List (Option UInt8)) (fed : List Bool) (s : BitsState)
    (log : List UInt8) : Prop where
  place : fed = asyncLine done ++ s.bits
  delivered : log = charsOf done
  ahead : s.bits <+: asyncLine left

section Receiver

variable {done left : List (Option UInt8)} {fed : List Bool} {s : BitsState} {log : List UInt8}

theorem pushSymbol_bits (s : BitsState) {nbits : Nat} (small : nbits ≤ 8) (symbol : UInt8)
    (room : s.bit ≤ 24) :
    (pushSymbol s nbits symbol).bits = s.bits ++ symbolBits nbits symbol :=
  Hdlc.HdlcState.pushSymbol_bits { Hdlc.modemHdlcStart with unpack := s } small symbol room

theorem top_set (data : BitVec 32) {bit : Nat} (within : bit < 32) :
    (data &&& (0x1#32 <<< bit) ≠ 0) ↔ data.getLsbD bit = true := by
  constructor
  · intro nonzero
    by_contra clear
    apply nonzero
    apply BitVec.eq_of_getLsbD_eq
    intro i inside
    by_cases same : i = bit
    · subst same
      simp [clear]
    · by_cases below : i < bit
      · simp [below]
      · have apart : ¬ i - bit = 0 := by omega
        simp [apart]
  · intro set zero
    have bitEq := congrArg (fun v => BitVec.getLsbD v bit) zero
    rw [BitVec.getLsbD_eq_getElem within] at set
    simp [set, within] at bitEq

theorem Receiving.dropStops (receiving : Receiving done left fed s log) (room : s.bit ≤ 32) :
    ∃ front back, left = front ++ back ∧
      Receiving (done ++ front) back fed { s with bit := Async.dropStops s.data s.bit } log ∧
      Async.dropStops s.data s.bit ≤ s.bit ∧
      (BitsState.bits { s with bit := Async.dropStops s.data s.bit }).head? ≠ some true := by
  obtain ⟨bit, data⟩ := s
  simp only at room ⊢
  induction bit generalizing done left with
  | zero =>
      refine ⟨[], left, rfl, ?_, Nat.le_refl 0, ?_⟩
      · rw [List.append_nil]
        exact receiving
      · simp [Async.dropStops, BitsState.bits, window]
  | succ bit ih =>
      have bitsEq : BitsState.bits { bit := bit + 1, data := data } =
          data.getLsbD bit :: BitsState.bits { bit := bit, data := data } := rfl
      rw [Async.dropStops]
      simp only [top_set data (show bit < 32 by omega)]
      cases topEq : data.getLsbD bit with
      | false =>
          simp only [Bool.false_eq_true, if_false]
          refine ⟨[], left, rfl, by simpa using receiving, Nat.le_refl _, ?_⟩
          rw [bitsEq, topEq]
          simp
      | true =>
          rw [topEq] at bitsEq
          simp only [if_true]
          have ahead := receiving.ahead
          rw [bitsEq] at ahead
          cases left with
          | nil => simp [asyncLine] at ahead
          | cons token rest =>
              cases token with
              | some ch => simp [asyncLine, tokenBits] at ahead
              | none =>
                  have shorter : Receiving (done ++ [none]) rest fed
                      { bit := bit, data := data } log := by
                    constructor
                    · rw [receiving.place, bitsEq, asyncLine_append]
                      simp [asyncLine, tokenBits]
                    · rw [receiving.delivered, charsOf_append]
                      simp [charsOf]
                    · simpa [asyncLine, tokenBits] using ahead
                  obtain ⟨front, back, cut, dropped, fewer, head⟩ := ih shorter (by omega)
                  refine ⟨none :: front, back, by rw [cut]; rfl, ?_, by omega, head⟩
                  simpa using dropped

theorem char_of_bits {ch : UInt8} {more : List Bool} (enough : 10 ≤ s.bit) (room : s.bit ≤ 32)
    (bits : s.bits = tokenBits (some ch) ++ more) :
    UInt8.ofBitVec (reverseBits ((s.data >>> (s.bit - 9)).setWidth 8)) = ch := by
  obtain ⟨low, lowEq⟩ : ∃ low, s.bit = low + 10 := ⟨s.bit - 10, by omega⟩
  have inner : (s.bits.drop 1).take 8 = octetBits ch := by
    rw [bits]
    simp only [tokenBits, List.cons_append, List.drop_succ_cons, List.drop_zero,
      List.append_assoc]
    rw [List.take_append_of_le_length (Nat.le_of_eq (Hdlc.octetBits_length ch).symm),
      List.take_of_length_le (Nat.le_of_eq (Hdlc.octetBits_length ch))]
  have windowEq : (s.bits.drop 1).take 8 = window ((s.data >>> (low + 1)).setWidth 8) 8 := by
    rw [BitsState.bits, lowEq, show low + 10 = low + 9 + 1 by omega, window_drop,
      show low + 9 = low + 1 + 8 by omega, window_take]
    apply window_congr
    intro i within
    simp [within]
  have reversed : (s.data >>> (low + 1)).setWidth 8 = reverseBits ch.toBitVec := by
    apply window_eq_iff.mp
    rw [← windowEq, inner, reverseBits_window]
    rfl
  rw [show s.bit - 9 = low + 1 by omega, reversed, reverseBits_reverseBits,
    UInt8.ofBitVec_toBitVec]

theorem takeChars_few (rounds : Nat) (few : ¬ charSize ≤ s.bit) : takeChars rounds s = (s, []) := by
  cases rounds with
  | zero => rfl
  | succ rounds => simp [takeChars, few]

theorem Receiving.takeChars (receiving : Receiving done left fed s log) (bound : s.bit ≤ 19)
    (start : s.bits.head? ≠ some true) :
    let next := takeChars s.bit s
    ∃ front back, left = front ++ back ∧
      Receiving (done ++ front) back fed next.1 (log ++ next.2) ∧ next.1.bit ≤ 9 := by
  by_cases enough : charSize ≤ s.bit
  · have ten : 10 ≤ s.bit := enough
    obtain ⟨rounds, roundsEq⟩ : ∃ rounds, s.bit = rounds + 1 := ⟨s.bit - 1, by omega⟩
    have ahead := receiving.ahead
    have sizes : s.bits.length = s.bit := window_length _ _
    cases left with
    | nil =>
        rw [asyncLine, List.flatMap_nil, List.prefix_nil] at ahead
        rw [ahead, List.length_nil] at sizes
        omega
    | cons token rest =>
        cases token with
        | none =>
            exfalso
            apply start
            cases bits : s.bits with
            | nil =>
                rw [bits, List.length_nil] at sizes
                omega
            | cons bit more =>
                rw [bits] at ahead
                simp only [asyncLine, List.flatMap_cons, tokenBits, List.cons_append,
                  List.cons_prefix_cons] at ahead
                rw [ahead.1]
                rfl
        | some ch =>
            rw [asyncLine, List.flatMap_cons] at ahead
            obtain ⟨more, moreEq⟩ : tokenBits (some ch) <+: s.bits := by
              apply List.prefix_of_prefix_length_le (List.prefix_append _ _) ahead
              rw [tokenBits_length, sizes]
              exact ten
            have dropped := Hdlc.HdlcState.bits_drop s 10 ten
            have restEq : BitsState.bits { s with bit := s.bit - charSize } = more := by
              rw [charSize, dropped, ← moreEq, ← tokenBits_length ch, List.drop_left]
            have taken : Async.takeChars s.bit s = ({ s with bit := s.bit - charSize }, [ch]) := by
              rw [roundsEq, Async.takeChars, if_pos enough]
              rw [takeChars_few rounds]
              · have char := char_of_bits ten (by omega) moreEq.symm
                simp only [← roundsEq]
                rw [← char]
                rfl
              · simp only [charSize]
                omega
            rw [taken]
            refine ⟨[some ch], rest, rfl, ?_, by simp only [charSize]; omega⟩
            constructor
            · rw [restEq, receiving.place, ← moreEq, asyncLine_append]
              simp [asyncLine]
            · rw [receiving.delivered, charsOf_append]
              rfl
            · rw [restEq]
              rw [← moreEq] at ahead
              exact (List.prefix_append_right_inj _).mp ahead
  · simp only [takeChars_few s.bit enough, List.append_nil]
    exact ⟨[], left, rfl, by simpa using receiving, by simp only [charSize] at enough; omega⟩

theorem Receiving.push (receiving : Receiving done left fed s log) (low : s.bit ≤ 9)
    {nbits : Nat} (small : nbits ≤ 8) (symbol : UInt8)
    (line : fed ++ symbolBits nbits symbol <+: asyncLine (done ++ left)) :
    Receiving done left (fed ++ symbolBits nbits symbol) (pushSymbol s nbits symbol) log := by
  have bits := pushSymbol_bits s small symbol (by omega)
  constructor
  · rw [receiving.place, bits, List.append_assoc]
  · exact receiving.delivered
  · rw [receiving.place, asyncLine_append, List.append_assoc] at line
    rw [bits]
    exact (List.prefix_append_right_inj _).mp line

theorem Receiving.putSymbol (receiving : Receiving done left fed s log) (low : s.bit ≤ 9)
    {nbits : Nat} (small : nbits ≤ 8) (symbol : UInt8)
    (line : fed ++ symbolBits nbits symbol <+: asyncLine (done ++ left)) :
    let next := putSymbol s nbits symbol
    ∃ front back, left = front ++ back ∧
      Receiving (done ++ front) back (fed ++ symbolBits nbits symbol) next.1 (log ++ next.2) ∧
      next.1.bit ≤ 9 := by
  have pushed := receiving.push low small symbol line
  have bit : (pushSymbol s nbits symbol).bit = s.bit + nbits := rfl
  obtain ⟨stops, rest, cut, dropped, fewer, start⟩ := pushed.dropStops (by omega)
  obtain ⟨taken, back, restEq, received, few⟩ := dropped.takeChars (by simp only; omega) start
  refine ⟨stops ++ taken, back, ?_, ?_, few⟩
  · rw [cut, restEq, List.append_assoc]
  · rw [← List.append_assoc]
    exact received

theorem Receiving.putBits {nbits : Nat} (small : nbits ≤ 8) (symbols : List UInt8)
    (receiving : Receiving done left fed s log) (low : s.bit ≤ 9)
    (line : fed ++ symbols.flatMap (symbolBits nbits) <+: asyncLine (done ++ left)) :
    let next := modemAsyncPutBits nbits symbols s
    ∃ front back, left = front ++ back ∧
      Receiving (done ++ front) back (fed ++ symbols.flatMap (symbolBits nbits)) next.1
        (log ++ next.2) ∧ next.1.bit ≤ 9 := by
  induction symbols generalizing done left fed s log with
  | nil => exact ⟨[], left, rfl, by simpa [modemAsyncPutBits] using receiving, low⟩
  | cons symbol rest ih =>
      rw [List.flatMap_cons, ← List.append_assoc] at line
      obtain ⟨front, back, cut, once, few⟩ :=
        receiving.putSymbol low small symbol ((List.prefix_append _ _).trans line)
      rw [cut, ← List.append_assoc] at line
      obtain ⟨front', back', cut', later, few'⟩ := ih once few line
      refine ⟨front ++ front', back', by rw [cut, cut', List.append_assoc], ?_, few'⟩
      simpa [modemAsyncPutBits, List.append_assoc] using later

end Receiver

/-! ### Whole runs -/

/-- Calls of `modem_async_get_bits`, each a symbol size with a count of symbols. -/
def transmit (answers : Nat → Option UInt8) :
    List (Nat × Nat) → BitsState → Nat → List Bool × BitsState × Nat
  | [], s, asked => ([], s, asked)
  | call :: rest, s, asked =>
      let next := modemAsyncGetBits (fetch answers) call.1 call.2 s asked
      let later := transmit answers rest next.2.1 next.2.2
      (next.1.flatMap (symbolBits call.1) ++ later.1, later.2)

/-- Calls of `modem_async_put_bits`, each a symbol size with the symbols. -/
def receive : List (Nat × List UInt8) → BitsState → BitsState × List UInt8
  | [], s => (s, [])
  | call :: rest, s =>
      let next := modemAsyncPutBits call.1 call.2 s
      let later := receive rest next.1
      (later.1, next.2 ++ later.2)

theorem Sending.transmit {answers : Nat → Option UInt8} {calls : List (Nat × Nat)}
    (symbols : ∀ call ∈ calls, 1 ≤ call.1 ∧ call.1 ≤ 8) {tokens : List (Option UInt8)}
    {sent : List Bool} {s : BitsState} {asked : Nat}
    (sending : Sending answers tokens sent s asked) (low : s.bit ≤ 9) :
    let out := transmit answers calls s asked
    ∃ more, Sending answers (tokens ++ more) (sent ++ out.1) out.2.1 out.2.2 := by
  induction calls generalizing tokens sent s asked with
  | nil => exact ⟨[], by simpa [Async.transmit] using sending⟩
  | cons call rest ih =>
      have size := symbols call List.mem_cons_self
      obtain ⟨first, once, onceLow⟩ := sending.getBits size.1 size.2 call.2 low
      obtain ⟨more, later⟩ :=
        ih (fun other member => symbols other (List.mem_cons_of_mem call member)) once onceLow
      refine ⟨first ++ more, ?_⟩
      simpa [Async.transmit, List.append_assoc] using later

theorem Receiving.receive (cuts : List (Nat × List UInt8))
    (symbols : ∀ cut ∈ cuts, 1 ≤ cut.1 ∧ cut.1 ≤ 8) {done left : List (Option UInt8)}
    {fed : List Bool} {s : BitsState} {log : List UInt8}
    (receiving : Receiving done left fed s log) (low : s.bit ≤ 9)
    (line : fed ++ fedBits cuts <+: asyncLine (done ++ left)) :
    let next := receive cuts s
    ∃ front back, left = front ++ back ∧
      Receiving (done ++ front) back (fed ++ fedBits cuts) next.1 (log ++ next.2) ∧
      next.1.bit ≤ 9 := by
  induction cuts generalizing done left fed s log with
  | nil => exact ⟨[], left, rfl, by simpa [Async.receive, fedBits] using receiving, low⟩
  | cons cut rest ih =>
      rw [fedBits, List.flatMap_cons, ← List.append_assoc] at line
      have size := symbols cut List.mem_cons_self
      obtain ⟨front, back, split, once, few⟩ :=
        Receiving.putBits size.2 cut.2 receiving low ((List.prefix_append _ _).trans line)
      rw [split, ← List.append_assoc] at line
      obtain ⟨front', back', split', later, few'⟩ :=
        ih (fun other member => symbols other (List.mem_cons_of_mem cut member)) once few line
      refine ⟨front ++ front', back', by rw [split, split', List.append_assoc], ?_, few'⟩
      simpa [Async.receive, fedBits, List.append_assoc] using later

theorem Receiving.prompt {done left : List (Option UInt8)} {fed : List Bool} {s : BitsState}
    {log : List UInt8} (receiving : Receiving done left fed s log) (low : s.bit ≤ 9) {n : Nat}
    (whole : (asyncLine ((done ++ left).take n)).length ≤ fed.length) :
    charsOf ((done ++ left).take n) <+: log := by
  rw [receiving.delivered]
  have lengthEq : s.bits.length = s.bit := window_length _ _
  by_cases early : n ≤ done.length
  · rw [List.take_append_of_le_length early]
    conv_rhs => rw [← List.take_append_drop n done, charsOf_append]
    exact List.prefix_append _ _
  · rw [List.take_append, List.take_of_length_le (show done.length ≤ n by omega)] at whole ⊢
    rw [receiving.place, asyncLine_append, List.length_append, List.length_append] at whole
    have short : charsOf (left.take (n - done.length)) = [] := charsOf_short (by omega)
    rw [charsOf_append, short, List.append_nil]

/-- The bits of any calls of the packer are a row of idle stop bits and of the
characters that `get_chars` gave, the last of which may still be in the register.
Fed to a fresh unpacker in any cut, they make it deliver the characters whose stop
bit it was fed, and nothing else. -/
theorem async_round_trip (answers : Nat → Option UInt8) (calls : List (Nat × Nat))
    (symbols : ∀ call ∈ calls, 1 ≤ call.1 ∧ call.1 ≤ 8) (cuts : List (Nat × List UInt8))
    (cutSymbols : ∀ cut ∈ cuts, 1 ≤ cut.1 ∧ cut.1 ≤ 8)
    (fed : fedBits cuts <+: (transmit answers calls modemAsyncStart.pack 0).1) :
    let out := transmit answers calls modemAsyncStart.pack 0
    let log := (receive cuts modemAsyncStart.unpack).2
    ∃ tokens, out.1 ++ out.2.1.bits = asyncLine tokens ∧
      charsOf tokens = fetched answers out.2.2 ∧
      (∃ n, (asyncLine (tokens.take n)).length ≤ (fedBits cuts).length ∧
        log = charsOf (tokens.take n)) ∧
      (∀ n, (asyncLine (tokens.take n)).length ≤ (fedBits cuts).length →
        charsOf (tokens.take n) <+: log) ∧
      (out.2.1.bit = 0 → fedBits cuts = out.1 → log = fetched answers out.2.2) := by
  have started : Sending answers [] [] modemAsyncStart.pack 0 := by
    constructor
    · rfl
    · rfl
  obtain ⟨tokens, sent⟩ := started.transmit symbols (Nat.zero_le 9)
  simp only [List.nil_append] at sent
  have onLine : fedBits cuts <+: asyncLine tokens := by
    rw [← sent.line]
    exact fed.trans (List.prefix_append _ _)
  have waiting : Receiving [] tokens [] modemAsyncStart.unpack [] := by
    constructor
    · rfl
    · rfl
    · exact List.nil_prefix
  obtain ⟨done, left, cut, received, low⟩ :=
    waiting.receive cuts cutSymbols (Nat.zero_le 9) (by simpa using onLine)
  simp only [List.nil_append] at received
  have prompt : ∀ n, (asyncLine (tokens.take n)).length ≤ (fedBits cuts).length →
      charsOf (tokens.take n) <+: (receive cuts modemAsyncStart.unpack).2 := by
    intro n whole
    rw [cut] at whole ⊢
    exact received.prompt low whole
  have exact : (receive cuts modemAsyncStart.unpack).2 = charsOf (tokens.take done.length) := by
    rw [cut, List.take_left, received.delivered]
  refine ⟨tokens, sent.line, sent.chars, ⟨done.length, ?_, exact⟩, prompt, ?_⟩
  · rw [cut, List.take_left, received.place, List.length_append]
    omega
  · intro empty everything
    have wholeLine : asyncLine tokens = fedBits cuts := by
      rw [everything, ← sent.line, BitsState.bits, empty, window, List.append_nil]
    have all := prompt tokens.length (by rw [List.take_length, wholeLine])
    rw [List.take_length, sent.chars] at all
    apply (all.eq_of_length_le _).symm
    rw [exact, ← sent.chars]
    apply List.Sublist.length_le
    exact (List.take_sublist _ _).filterMap _

def twoLetters (n : Nat) : Option UInt8 :=
  if n = 1 then some 0x41 else if n = 2 then some 0xfe else none

def twoLettersCalls : List (Nat × Nat) := [(3, 2), (8, 2), (5, 4)]

def twoLettersCuts : List (Nat × List UInt8) := [(7, [126, 65, 39, 127]), (7, [127, 127])]

theorem async_round_trip_two_letters :
    fedBits twoLettersCuts = (transmit twoLetters twoLettersCalls modemAsyncStart.pack 0).1 ∧
      (transmit twoLetters twoLettersCalls modemAsyncStart.pack 0).2.1.bit = 0 ∧
      (receive twoLettersCuts modemAsyncStart.unpack).2 = [0x41, 0xfe] := by
  have fed : fedBits twoLettersCuts =
      (transmit twoLetters twoLettersCalls modemAsyncStart.pack 0).1 := by decide +kernel
  have empty : (transmit twoLetters twoLettersCalls modemAsyncStart.pack 0).2.1.bit = 0 := by
    decide +kernel
  have got : fetched twoLetters (transmit twoLetters twoLettersCalls modemAsyncStart.pack 0).2.2 =
      [0x41, 0xfe] := by decide +kernel
  obtain ⟨_, _, _, _, _, all⟩ := async_round_trip twoLetters twoLettersCalls (by decide)
    twoLettersCuts (by decide) (by rw [fed])
  exact ⟨fed, empty, (all empty fed).trans got⟩

end DModem.Async
