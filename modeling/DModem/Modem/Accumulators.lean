/-
The three packers with every bound checked, over runs of calls.

A checked call has a result only if each count of pending bits and each shift amount was in its
range, no pending bit left the word, and no loop took more than `rounds` rounds.  Nothing that the
routines call starts a packer again: the bit timer and the link status do that between two calls.
-/

import DModem.Async.RoundTrip
import DModem.Hdlc.InRange
import DModem.Modem.Detect

namespace DModem

open Hdlc (BitsState SymbolSource shiftAmount shiftAmount_eq packLimit unpackLimit)

/-! ### Asynchronous transmitter -/

namespace Async.Checked

section GetBits

variable {σ : Type} (getChars : σ → Option UInt8 × σ)

def transmitter : SymbolSource (BitsState × σ) where
  pack x := x.1
  setPack x s := (s, x.2)
  symbol _ word := symbolOf word
  refill x :=
    let asked := getChars x.2
    match asked.1 with
    | none => some ((x.1, asked.2), false)
    | some ch => do
        let s ← x.1.appended packLimit charSize (charData (reverseBits ch.toBitVec))
        some ((s, asked.2), true)

/-- The symbols after `get_chars` had nothing. -/
def fillStops (nbits bitCnt : Nat) (s : BitsState) : Option (List UInt8 × BitsState) := do
  let whole ← shiftAmount nbits
  if s.bit ≠ 0 ∧ bitCnt > 0 then
    let left ← s.lifted (nbits - s.bit)
    let short ← shiftAmount (nbits - s.bit)
    some
      (symbolOf (left ||| onesMask short) ::
        List.replicate (bitCnt - 1) (symbolOf (onesMask whole)), { s with bit := 0 })
  else some (List.replicate bitCnt (symbolOf (onesMask whole)), s)

/-- `modem_async_get_bits`. -/
def modemAsyncGetBits (rounds nbits bitCnt : Nat) (x : BitsState × σ) :
    Option (List UInt8 × BitsState × σ) := do
  let got ← (transmitter getChars).getBits nbits rounds bitCnt x
  let stops ← fillStops nbits got.2.1 got.2.2.1
  some (got.1 ++ stops.1, stops.2, got.2.2.2)

end GetBits

end Async.Checked

namespace Async

section Transmitter

variable {σ : Type} (getChars : σ → Option UInt8 × σ)

/-- What `transmitter` refills with, without the checks. -/
def refilled (x : BitsState × σ) : (BitsState × σ) × Bool :=
  match (getChars x.2).1 with
  | none => ((x.1, (getChars x.2).2), false)
  | some ch => ((pushChar x.1 ch, (getChars x.2).2), true)

theorem refilled_short {x : BitsState × σ} (empty : (refilled getChars x).2 = false) :
    (refilled getChars x).1.1 = x.1 := by
  unfold refilled at empty ⊢
  cases asked : (getChars x.2).1 with
  | none => rfl
  | some ch =>
      rw [asked] at empty
      cases empty

theorem async_computes {nbits : Nat} (positive : 1 ≤ nbits) (small : nbits ≤ 8) :
    (Checked.transmitter getChars).Computes nbits (fun x => x.1.bit ≤ packLimit)
      (fun bitCnt x => modemAsyncGetBits getChars nbits bitCnt x.1 x.2) (refilled getChars)
      fun bitCnt x =>
        ((fillStops nbits bitCnt x.1).1, (fillStops nbits bitCnt x.1).2, x.2) := by
  obtain ⟨rounds, roundsEq⟩ : ∃ rounds, nbits = rounds + 1 := ⟨nbits - 1, by omega⟩
  constructor
  · intro x good
    exact good
  · intro x good
    exact Nat.le_trans (Nat.sub_le _ _) good
  · intro x good low
    simp only [Checked.transmitter] at low
    unfold refilled
    simp only [Checked.transmitter]
    cases asked : (getChars x.2).1 with
    | none => exact ⟨rfl, good, fun never => by cases never⟩
    | some ch =>
        have within : x.1.bit + charSize ≤ packLimit := by
          rw [charSize, packLimit]
          omega
        dsimp only
        rw [x.1.appended_eq (charData (reverseBits ch.toBitVec)) (by decide) within (by decide)]
        refine ⟨rfl, within, ?_⟩
        intro _
        simp only [pushChar, charSize]
        omega
  · intro x
    rfl
  · intro bitCnt x full
    simp only [Checked.transmitter] at full
    simp only [modemAsyncGetBits, fill_full nbits full, if_pos full]
    rfl
  · intro bitCnt x good low more
    simp only [Checked.transmitter] at low
    unfold refilled at more ⊢
    cases asked : (getChars x.2).1 with
    | none =>
        rw [asked] at more
        cases more
    | some ch =>
        have full : nbits ≤ (pushChar x.1 ch).bit := by
          simp only [pushChar, charSize]
          omega
        have once : fill getChars nbits nbits x.1 x.2 = (pushChar x.1 ch, (getChars x.2).2) := by
          nth_rewrite 2 [roundsEq]
          simp only [fill, if_neg (Nat.not_le_of_lt low), asked]
          exact fill_full rounds full
        simp only [modemAsyncGetBits, once, fill_full nbits full]
  · intro bitCnt x low empty
    simp only [Checked.transmitter] at low
    have short : ¬ nbits ≤ x.1.bit := Nat.not_le_of_lt low
    unfold refilled at empty ⊢
    cases asked : (getChars x.2).1 with
    | none =>
        have nothing : fill getChars nbits nbits x.1 x.2 = (x.1, (getChars x.2).2) := by
          nth_rewrite 2 [roundsEq]
          simp only [fill, if_neg short, asked]
        simp only [modemAsyncGetBits, nothing, if_neg short]
    | some ch =>
        rw [asked] at empty
        cases empty

theorem checked_fillStops {nbits : Nat} (small : nbits ≤ 8) (bitCnt : Nat) {s : BitsState}
    (low : bitCnt ≠ 0 → s.bit < nbits) :
    Checked.fillStops nbits bitCnt s = some (fillStops nbits bitCnt s) := by
  unfold Checked.fillStops fillStops
  rw [shiftAmount_eq (by omega)]
  simp only [Option.bind_eq_bind, Option.bind_some]
  by_cases pending : s.bit ≠ 0 ∧ bitCnt > 0
  · have less := low (by omega)
    have short : ((nbits : Int) - s.bit) = (nbits - s.bit : Nat) := by omega
    rw [if_pos pending, if_pos pending, s.lifted_eq short (by omega) (by omega), short,
      shiftAmount_eq (by omega)]
    rfl
  · rw [if_neg pending, if_neg pending]

theorem fillStops_length (nbits bitCnt : Nat) (s : BitsState) :
    (fillStops nbits bitCnt s).1.length = bitCnt := by
  unfold fillStops
  split_ifs with pending
  · rw [List.length_cons, List.length_replicate]
    omega
  · exact List.length_replicate

theorem fillStops_none (nbits : Nat) (s : BitsState) : fillStops nbits 0 s = ([], s) := by
  unfold fillStops
  simp

theorem fillStops_bit (nbits bitCnt : Nat) (s : BitsState) :
    (fillStops nbits bitCnt s).2.bit ≤ s.bit := by
  unfold fillStops
  split_ifs with pending
  · exact Nat.zero_le _
  · exact Nat.le_refl _

theorem async_getBits_in_range {nbits : Nat} (positive : 1 ≤ nbits) (small : nbits ≤ 8)
    {rounds bitCnt : Nat} (enough : bitCnt < rounds) (x : BitsState × σ)
    (good : x.1.bit ≤ packLimit) :
    let total := modemAsyncGetBits getChars nbits bitCnt x.1 x.2
    Checked.modemAsyncGetBits getChars rounds nbits bitCnt x = some total ∧
      total.1.length = bitCnt ∧ total.2.1.bit ≤ packLimit := by
  intro total
  rcases SymbolSource.getBits_spec (async_computes getChars positive small) rounds bitCnt x good
      (Or.inl enough) with ⟨⟨symbols, left, y⟩, ran, leaves⟩
  have same : total = (symbols ++ (fillStops nbits left y.1).1, (fillStops nbits left y.1).2, y.2) ∧
      (left ≠ 0 → y.1.bit < nbits) := by
    by_cases met : left = 0
    · subst met
      rw [fillStops_none, List.append_nil]
      exact ⟨leaves.done rfl, fun some => absurd rfl some⟩
    · rcases leaves.stopped met with ⟨stopped, short, low, empty, yEq⟩
      refine ⟨stopped, fun _ => ?_⟩
      simp only at yEq
      rw [yEq, refilled_short getChars empty]
      exact low
  constructor
  · rw [Checked.modemAsyncGetBits, ran]
    simp only [Option.bind_eq_bind, Option.bind_some, checked_fillStops small left same.2, same.1]
  · constructor
    · have count := leaves.count
      simp only at count
      rw [same.1, List.length_append, fillStops_length, count]
    · rw [same.1]
      exact Nat.le_trans (fillStops_bit nbits left y.1) leaves.good

end Transmitter

end Async

/-! ### Transmitter of the detector -/

namespace Modem

namespace Checked

def transmitter : SymbolSource (DetectState × BitsState) where
  pack x := x.2
  setPack x s := (x.1, s)
  symbol _ word := UInt8.ofBitVec (word.setWidth 8)
  refill x := do
    let s ← x.2.appended packLimit 9 0x1ff
    if 0 < x.1.txCount then
      let s ← s.appended packLimit 9 ((txChar x.1).toBitVec.setWidth 32)
      some (({ x.1 with txCount := x.1.txCount + 1 }, s), true)
    else some ((x.1, s), true)

/-- `modem_detector_get_bits`. -/
def modemDetectorGetBits (rounds nbits bitCnt : Nat) (x : DetectState × BitsState) :
    Option (List UInt8 × DetectState × BitsState) := do
  let got ← transmitter.getBits nbits rounds bitCnt x
  some (got.1, got.2.2)

end Checked

theorem detectorFills_full {nbits : Nat} {d : DetectState} {s : BitsState} (full : nbits ≤ s.bit)
    (rounds : Nat) : detectorFills nbits rounds d s = (d, s) := by
  cases rounds with
  | zero => rfl
  | succ rounds => rw [detectorFills, if_pos full]

theorem detectorFill_grows (d : DetectState) (s : BitsState) :
    s.bit + 9 ≤ (detectorFill d s).2.bit ∧ (detectorFill d s).2.bit ≤ s.bit + 18 := by
  unfold detectorFill
  by_cases sending : 0 < d.txCount
  · simp [sending]
  · simp [sending]

theorem checked_detectorFill {d : DetectState} {s : BitsState} (low : s.bit < 8) :
    Checked.transmitter.refill (d, s) = some (detectorFill d s, true) := by
  have marks : s.appended packLimit 9 0x1ff =
      some { bit := s.bit + 9, data := s.data <<< 9 ||| 0x1ff } :=
    s.appended_eq (k := 9) _ (by decide) (by rw [packLimit]; omega) (by decide)
  have pattern : ({ bit := s.bit + 9, data := s.data <<< 9 ||| 0x1ff } : BitsState).appended
      packLimit 9 ((txChar d).toBitVec.setWidth 32) =
        some
          { bit := s.bit + 9 + 9
            data := (s.data <<< 9 ||| 0x1ff) <<< 9 ||| (txChar d).toBitVec.setWidth 32 } :=
    BitsState.appended_eq (k := 9) _ _ (by decide) (by rw [packLimit]; simp only; omega)
      (by decide)
  unfold detectorFill
  simp only [Checked.transmitter, marks, Option.bind_eq_bind, Option.bind_some, pattern]
  split_ifs <;> rfl

theorem detector_computes {nbits : Nat} (positive : 1 ≤ nbits) (small : nbits ≤ 8) :
    Checked.transmitter.Computes nbits (fun x => x.2.bit ≤ packLimit)
      (fun bitCnt x => modemDetectorGetBits nbits bitCnt x.1 x.2)
      (fun x => (detectorFill x.1 x.2, true)) fun _ x => ([], x) := by
  obtain ⟨rounds, roundsEq⟩ : ∃ rounds, nbits = rounds + 1 := ⟨nbits - 1, by omega⟩
  constructor
  · intro x good
    exact good
  · intro x good
    exact Nat.le_trans (Nat.sub_le _ _) good
  · intro x good low
    have low' : x.2.bit < 8 := Nat.lt_of_lt_of_le low small
    have grows := detectorFill_grows x.1 x.2
    refine ⟨checked_detectorFill low', ?_, ?_⟩
    · rw [packLimit]
      simp only
      omega
    · intro _
      simp only [Checked.transmitter]
      omega
  · intro x
    rfl
  · intro bitCnt x full
    simp only [Checked.transmitter] at full
    simp only [modemDetectorGetBits, detectorFills_full full]
    rfl
  · intro bitCnt x _ low _
    simp only [Checked.transmitter] at low
    have grows := detectorFill_grows x.1 x.2
    have full : nbits ≤ (detectorFill x.1 x.2).2.bit := by omega
    have once : detectorFills nbits nbits x.1 x.2 = detectorFill x.1 x.2 := by
      nth_rewrite 2 [roundsEq]
      rw [detectorFills, if_neg (Nat.not_le_of_lt low)]
      exact detectorFills_full full rounds
    simp only [modemDetectorGetBits, once, detectorFills_full full]
  · intro bitCnt x _ never
    cases never

theorem detector_getBits_in_range {nbits : Nat} (positive : 1 ≤ nbits) (small : nbits ≤ 8)
    {rounds bitCnt : Nat} (enough : bitCnt < rounds) (x : DetectState × BitsState)
    (good : x.2.bit ≤ packLimit) :
    let total := modemDetectorGetBits nbits bitCnt x.1 x.2
    Checked.modemDetectorGetBits rounds nbits bitCnt x = some total ∧
      total.1.length = bitCnt ∧ total.2.2.bit ≤ packLimit := by
  intro total
  rcases SymbolSource.getBits_spec (detector_computes positive small) rounds bitCnt x good
      (Or.inl enough) with ⟨⟨symbols, left, y⟩, ran, leaves⟩
  have met : left = 0 := leaves.all fun _ => rfl
  subst met
  have same : total = (symbols, y) := leaves.done rfl
  rw [Checked.modemDetectorGetBits, ran, same]
  exact ⟨rfl, leaves.count, leaves.good⟩

end Modem

/-! ### Receivers of characters

The asynchronous packer and the detector read characters of 10 bits in the same way. -/

namespace Unpack

/-- `while(s->bit && s->data&(0x1<<(s->bit-1)))`. -/
def skipMarks : Nat → BitsState → Option BitsState
  | 0, _ => none
  | rounds + 1, s =>
      if s.bit = 0 then some s
      else do
        let n ← shiftAmount (s.bit - 1)
        if s.data &&& (0x1#32 <<< n) ≠ 0 then
          let s ← s.moved unpackLimit (-1)
          skipMarks rounds s
        else some s

section Characters

variable {A : Type} (deliver : A → BitVec 8 → A)

/-- `while (s->bit >= 10)`. -/
def takeChars : Nat → BitsState → A → Option (BitsState × A)
  | 0, _, _ => none
  | rounds + 1, s, a =>
      if 10 ≤ s.bit then do
        let word ← s.shifted (s.bit - 9)
        let s ← s.moved unpackLimit (-10)
        takeChars rounds s (deliver a (word.setWidth 8))
      else some (s, a)

def putSymbol (rounds nbits : Nat) (s : BitsState) (a : A) (symbol : UInt8) :
    Option (BitsState × A) := do
  let s ← s.appended unpackLimit nbits
    (symbol.toBitVec.setWidth 32 &&& BitVec.ofNat 32 (2 ^ nbits - 1))
  let s ← skipMarks rounds s
  takeChars deliver rounds s a

def putBits (rounds nbits : Nat) : List UInt8 → BitsState → A → Option (Nat × BitsState × A)
  | [], s, a => some (0, s, a)
  | symbol :: rest, s, a => do
      let next ← putSymbol deliver rounds nbits s a symbol
      let later ← putBits rounds nbits rest next.1 next.2
      some (later.1 + 1, later.2)

end Characters

theorem skipMarks_le (data : BitVec 32) (bit : Nat) : Modem.skipMarks data bit ≤ bit := by
  induction bit with
  | zero => exact Nat.le_refl 0
  | succ bit ih =>
      rw [Modem.skipMarks]
      split
      · exact Nat.le_succ_of_le ih
      · exact Nat.le_refl _

theorem dropStops_skipMarks {data : BitVec 32} {bit : Nat} (inside : bit ≤ 32) :
    Async.dropStops data bit = Modem.skipMarks data bit := by
  induction bit with
  | zero => rfl
  | succ bit ih =>
      simp only [Async.dropStops, Modem.skipMarks, Async.top_set data (show bit < 32 by omega),
        ih (by omega)]

theorem skipMarks_in_range {rounds : Nat} {s : BitsState} (enough : s.bit < rounds)
    (within : s.bit ≤ unpackLimit) :
    skipMarks rounds s = some { s with bit := Modem.skipMarks s.data s.bit } := by
  obtain ⟨bit, data⟩ := s
  simp only at enough within ⊢
  induction rounds generalizing bit with
  | zero => omega
  | succ rounds ih =>
      cases bit with
      | zero => rfl
      | succ bit =>
          have inside : bit ≤ 31 := by
            rw [unpackLimit] at within
            omega
          have amount : ((bit + 1 : Nat) : Int) - 1 = (bit : Nat) := by omega
          have moved : BitsState.moved unpackLimit { bit := bit + 1, data := data } (-1) =
              some { bit := bit, data := data } :=
            BitsState.moved_down _ (Nat.le_add_left 1 bit) within
          rw [skipMarks, if_neg (Nat.succ_ne_zero bit), amount, shiftAmount_eq inside]
          simp only [Option.bind_eq_bind, Option.bind_some, moved, Modem.skipMarks,
            Async.top_set data (Nat.lt_succ_of_le inside)]
          split
          · exact ih bit (by omega) (Nat.le_of_succ_le within)
          · rfl

section Spec

variable {A : Type} {deliver : A → BitVec 8 → A} {total : Nat → BitsState → A → BitsState × A}

/-- `total` takes characters out of a register as `takeChars` does. -/
structure Takes (deliver : A → BitVec 8 → A) (total : Nat → BitsState → A → BitsState × A) :
    Prop where
  few : ∀ left s a, s.bit < 10 → total left s a = (s, a)
  take : ∀ left s a, 10 ≤ s.bit →
    total (left + 1) s a =
      total left { s with bit := s.bit - 10 } (deliver a ((s.data >>> (s.bit - 9)).setWidth 8))

theorem takeChars_in_range (takes : Takes deliver total) {rounds left : Nat} {s : BitsState}
    (a : A) (enough : s.bit < rounds) (more : s.bit ≤ left) (within : s.bit ≤ unpackLimit) :
    takeChars deliver rounds s a = some (total left s a) ∧ (total left s a).1.bit ≤ 9 := by
  induction rounds generalizing left s a with
  | zero => omega
  | succ rounds ih =>
      rw [takeChars]
      by_cases full : 10 ≤ s.bit
      · obtain ⟨fewer, fewerEq⟩ : ∃ fewer, left = fewer + 1 := ⟨left - 1, by omega⟩
        have amount : (s.bit : Int) - 9 = (s.bit - 9 : Nat) := by omega
        have inside : s.bit - 9 ≤ 31 := by
          rw [unpackLimit] at within
          omega
        have moved : s.moved unpackLimit (-10) = some { s with bit := s.bit - 10 } :=
          s.moved_down full within
        have less : s.bit - 10 ≤ unpackLimit := Nat.le_trans (Nat.sub_le _ _) within
        subst fewerEq
        rw [if_pos full, s.shifted_eq amount inside, moved, takes.take fewer s a full]
        exact ih _ (by simp only; omega) (by simp only; omega) less
      · rw [if_neg full, takes.few left s a (Nat.lt_of_not_le full)]
        exact ⟨rfl, by simp only; omega⟩

/-- What `putSymbol` computes. -/
def symbolTotal (total : Nat → BitsState → A → BitsState × A) (nbits : Nat) (s : BitsState) (a : A)
    (symbol : UInt8) : BitsState × A :=
  let masked := symbol.toBitVec.setWidth 32 &&& BitVec.ofNat 32 (2 ^ nbits - 1)
  let data := s.data <<< nbits ||| masked
  let bit := Modem.skipMarks data (s.bit + nbits)
  total bit { bit := bit, data := data } a

theorem putSymbol_in_range (takes : Takes deliver total) {rounds nbits : Nat} (small : nbits ≤ 8)
    (enough : unpackLimit < rounds) {s : BitsState} (a : A) (symbol : UInt8) (low : s.bit ≤ 9) :
    putSymbol deliver rounds nbits s a symbol = some (symbolTotal total nbits s a symbol) ∧
      (symbolTotal total nbits s a symbol).1.bit ≤ 9 := by
  have within : s.bit + nbits ≤ unpackLimit := by
    rw [unpackLimit]
    omega
  have pushed := s.appended_eq
    (symbol.toBitVec.setWidth 32 &&& BitVec.ofNat 32 (2 ^ nbits - 1)) (show nbits ≤ 31 by omega)
    within (by decide)
  have fewer := fun data => skipMarks_le data (s.bit + nbits)
  unfold putSymbol symbolTotal
  simp only [pushed, Option.bind_eq_bind, Option.bind_some]
  rw [skipMarks_in_range (Nat.lt_of_le_of_lt within enough) within]
  simp only [Option.bind_some]
  have less := Nat.le_trans (fewer (s.data <<< nbits |||
    (symbol.toBitVec.setWidth 32 &&& BitVec.ofNat 32 (2 ^ nbits - 1)))) within
  exact takeChars_in_range takes a (Nat.lt_of_le_of_lt less enough) (Nat.le_refl _) less

/-- What `putBits` leaves. -/
def bitsTotal (total : Nat → BitsState → A → BitsState × A) (nbits : Nat) :
    List UInt8 → BitsState → A → BitsState × A
  | [], s, a => (s, a)
  | symbol :: rest, s, a =>
      let next := symbolTotal total nbits s a symbol
      bitsTotal total nbits rest next.1 next.2

theorem putBits_in_range (takes : Takes deliver total) {rounds nbits : Nat} (small : nbits ≤ 8)
    (enough : unpackLimit < rounds) (symbols : List UInt8) {s : BitsState} (a : A)
    (low : s.bit ≤ 9) :
    putBits deliver rounds nbits symbols s a =
        some (symbols.length, bitsTotal total nbits symbols s a) ∧
      (bitsTotal total nbits symbols s a).1.bit ≤ 9 := by
  induction symbols generalizing s a with
  | nil => exact ⟨rfl, low⟩
  | cons symbol rest ih =>
      rcases putSymbol_in_range takes small enough a symbol low with ⟨once, lower⟩
      rcases ih (symbolTotal total nbits s a symbol).2 lower with ⟨later, lowest⟩
      constructor
      · rw [putBits, once]
        simp only [Option.bind_eq_bind, Option.bind_some, later]
        rfl
      · exact lowest

end Spec

end Unpack

namespace Async

theorem masked_eq {nbits : Nat} (symbol : UInt8) :
    symbol.toBitVec.setWidth 32 &&& BitVec.ofNat 32 (2 ^ nbits - 1) =
      (symbol.toBitVec &&& BitVec.ofNat 8 (2 ^ nbits - 1)).setWidth 32 := by
  apply BitVec.eq_of_getLsbD_eq
  intro i inside
  rw [BitVec.getLsbD_and, BitVec.getLsbD_setWidth, BitVec.getLsbD_setWidth, BitVec.getLsbD_and,
    BitVec.getLsbD_ofNat, BitVec.getLsbD_ofNat]
  by_cases low : i < 8
  · simp [inside, low]
  · have clear : symbol.toBitVec.getLsbD i = false :=
      BitVec.getLsbD_of_ge symbol.toBitVec i (Nat.le_of_not_lt low)
    simp [clear]

/-- `put_chars` with what is read of a character. -/
def deliverChar (log : List UInt8) (ch : BitVec 8) : List UInt8 :=
  log ++ [UInt8.ofBitVec (reverseBits ch)]

theorem takeChars_takes : Unpack.Takes deliverChar fun left s log =>
    ((takeChars left s).1, log ++ (takeChars left s).2) := by
  constructor
  · intro left s log few
    simp only [takeChars_few left (Nat.not_le_of_lt few), List.append_nil]
  · intro left s log full
    have full' : charSize ≤ s.bit := full
    simp only [takeChars, if_pos full', deliverChar, List.append_assoc, List.singleton_append]
    rfl

namespace Checked

/-- `modem_async_put_bits`: what it returns, and the characters that it delivers. -/
def modemAsyncPutBits (rounds nbits : Nat) (symbols : List UInt8) (s : BitsState) :
    Option (Nat × BitsState × List UInt8) :=
  Unpack.putBits deliverChar rounds nbits symbols s []

end Checked

theorem bitsTotal_eq (nbits : Nat) (symbols : List UInt8) (s : BitsState) (log : List UInt8)
    (small : nbits ≤ 8) (low : s.bit ≤ 9) :
    Unpack.bitsTotal (fun left s log => ((takeChars left s).1, log ++ (takeChars left s).2)) nbits
        symbols s log =
      ((modemAsyncPutBits nbits symbols s).1, log ++ (modemAsyncPutBits nbits symbols s).2) := by
  induction symbols generalizing s log with
  | nil => simp [Unpack.bitsTotal, modemAsyncPutBits]
  | cons symbol rest ih =>
      have once : Unpack.symbolTotal
          (fun left s log => ((takeChars left s).1, log ++ (takeChars left s).2)) nbits s log
          symbol = ((putSymbol s nbits symbol).1, log ++ (putSymbol s nbits symbol).2) := by
        simp only [Unpack.symbolTotal, putSymbol, pushSymbol, masked_eq]
        rw [Unpack.dropStops_skipMarks (by omega)]
      have lower := (Unpack.putSymbol_in_range takeChars_takes small (Nat.lt_succ_self _) log symbol
        low).2
      rw [once] at lower
      rw [Unpack.bitsTotal, once, modemAsyncPutBits]
      simp only at lower ⊢
      rw [ih _ _ lower, List.append_assoc]

theorem async_putBits_in_range {rounds nbits : Nat} (small : nbits ≤ 8)
    (enough : unpackLimit < rounds) (symbols : List UInt8) {s : BitsState} (low : s.bit ≤ 9) :
    let total := modemAsyncPutBits nbits symbols s
    Checked.modemAsyncPutBits rounds nbits symbols s = some (symbols.length, total) ∧
      total.1.bit ≤ 9 := by
  intro total
  have taken := Unpack.putBits_in_range takeChars_takes small enough symbols [] low
  rw [bitsTotal_eq nbits symbols s [] small low, List.nil_append] at taken
  exact taken

end Async

namespace Modem

def deliverPattern (m : Modem) (ch : BitVec 8) : Modem := m.detectorChar (UInt8.ofBitVec ch)

theorem detectorChars_takes : Unpack.Takes deliverPattern fun left s m =>
    ((detectorChars left m s).2, (detectorChars left m s).1) := by
  constructor
  · intro left s m few
    cases left with
    | zero => rfl
    | succ left => simp only [detectorChars, if_neg (Nat.not_le_of_lt few)]
  · intro left s m full
    simp only [detectorChars, if_pos full]
    rfl

namespace Checked

/-- `modem_detector_put_bits`. -/
def modemDetectorPutBits (rounds nbits : Nat) (symbols : List UInt8) (s : BitsState) (m : Modem) :
    Option (Nat × BitsState × Modem) :=
  Unpack.putBits deliverPattern rounds nbits symbols s m

end Checked

theorem bitsTotal_eq (nbits : Nat) (symbols : List UInt8) (s : BitsState) (m : Modem) :
    Unpack.bitsTotal (fun left s m => ((detectorChars left m s).2, (detectorChars left m s).1))
        nbits symbols s m =
      ((modemDetectorPutBits nbits m s symbols).2, (modemDetectorPutBits nbits m s symbols).1) := by
  induction symbols generalizing s m with
  | nil => rfl
  | cons symbol rest ih => exact ih _ _

theorem detector_putBits_in_range {rounds nbits : Nat} (small : nbits ≤ 8)
    (enough : unpackLimit < rounds) (symbols : List UInt8) {s : BitsState} (m : Modem)
    (low : s.bit ≤ 9) :
    let total := modemDetectorPutBits nbits m s symbols
    Checked.modemDetectorPutBits rounds nbits symbols s m =
        some (symbols.length, total.2, total.1) ∧ total.2.bit ≤ 9 := by
  intro total
  have taken := Unpack.putBits_in_range detectorChars_takes small enough symbols m low
  rw [bitsTotal_eq nbits symbols s m] at taken
  exact taken

end Modem

/-! ### Runs of calls -/

/-- The data pump asks for symbols or brings some, or the surroundings of the packer change. -/
inductive BitCall (ε : Type) where
  | get (nbits bitCnt : Nat)
  | put (nbits : Nat) (symbols : List UInt8)
  | outside (change : ε → ε)

/-- What a call puts into `bit_buf` or delivers, with the count that it returns. -/
inductive Answer (δ : Type) where
  | got (symbols : List UInt8)
  | took (ret : Nat) (delivered : δ)
  | nothing
  deriving DecidableEq, Repr

namespace BitCall

variable {ε : Type}

/-- Symbols have 1 to 8 bits. -/
def Sized : BitCall ε → Prop
  | get nbits _ => 1 ≤ nbits ∧ nbits ≤ 8
  | put nbits _ => 1 ≤ nbits ∧ nbits ≤ 8
  | outside _ => True

def asked : BitCall ε → Nat
  | get _ bitCnt => bitCnt
  | put _ symbols => symbols.length
  | outside _ => 0

end BitCall

def Answer.ret {δ : Type} : Answer δ → Nat
  | got symbols => symbols.length
  | took ret _ => ret
  | nothing => 0

section Runs

variable {S ε δ : Type}

def checkedRun (step : BitCall ε → S → Option (Answer δ × S)) :
    List (BitCall ε) → S → Option (List (Answer δ) × S)
  | [], x => some ([], x)
  | call :: rest, x => do
      let next ← step call x
      let later ← checkedRun step rest next.2
      some (next.1 :: later.1, later.2)

def totalRun (step : BitCall ε → S → Answer δ × S) :
    List (BitCall ε) → S → List (Answer δ) × S
  | [], x => ([], x)
  | call :: rest, x =>
      let next := step call x
      let later := totalRun step rest next.2
      (next.1 :: later.1, later.2)

/-- The calls run without a fault and as the packer computes, and each returns what was asked of
it. -/
structure CallsInRange (checked : Nat → BitCall ε → S → Option (Answer δ × S))
    (total : BitCall ε → S → Answer δ × S) (pack unpack : S → BitsState) (calls : List (BitCall ε))
    (start : S) : Prop where
  runs : ∃ enough, ∀ rounds, enough ≤ rounds →
    checkedRun (checked rounds) calls start = some (totalRun total calls start)
  filled : (totalRun total calls start).1.map Answer.ret = calls.map BitCall.asked
  pack : (pack (totalRun total calls start).2).bit ≤ packLimit
  unpack : (unpack (totalRun total calls start).2).bit ≤ unpackLimit

structure CallsKept (checked : Nat → BitCall ε → S → Option (Answer δ × S))
    (total : BitCall ε → S → Answer δ × S) (pack unpack : S → BitsState) (Good : S → Prop) :
    Prop where
  step : ∀ call x rounds, call.Sized → Good x → call.asked < rounds → unpackLimit < rounds →
    checked rounds call x = some (total call x) ∧ (total call x).1.ret = call.asked ∧
      Good (total call x).2
  pack : ∀ x, Good x → (pack x).bit ≤ packLimit
  unpack : ∀ x, Good x → (unpack x).bit ≤ unpackLimit

theorem CallsKept.inRange {checked : Nat → BitCall ε → S → Option (Answer δ × S)}
    {total : BitCall ε → S → Answer δ × S} {pack unpack : S → BitsState} {Good : S → Prop}
    (keeps : CallsKept checked total pack unpack Good) (calls : List (BitCall ε))
    (sized : ∀ call ∈ calls, call.Sized) (start : S) (good : Good start) :
    CallsInRange checked total pack unpack calls start := by
  induction calls generalizing start with
  | nil =>
      constructor
      · exact ⟨0, fun _ _ => rfl⟩
      · rfl
      · exact keeps.pack start good
      · exact keeps.unpack start good
  | cons call rest ih =>
      have one := sized call List.mem_cons_self
      have kept := keeps.step call start (call.asked + unpackLimit + 1) one good (by omega)
        (by omega)
      have later := ih (fun call mem => sized call (List.mem_cons_of_mem _ mem))
        (total call start).2 kept.2.2
      constructor
      · rcases later.runs with ⟨enough, runs⟩
        refine ⟨max enough (call.asked + unpackLimit + 1), ?_⟩
        intro rounds more
        have step := keeps.step call start rounds one good (by omega) (by omega)
        rw [checkedRun, step.1]
        simp only [Option.bind_eq_bind, Option.bind_some, runs rounds (by omega)]
        rfl
      · simp only [totalRun, List.map_cons, kept.2.1, later.filled]
      · exact later.pack
      · exact later.unpack

end Runs

/-! ### The packers -/

namespace Async

variable {σ : Type} (getChars : σ → Option UInt8 × σ)

def bitsStep : BitCall σ → AsyncState × σ → Answer (List UInt8) × AsyncState × σ
  | .get nbits bitCnt, x =>
      let got := modemAsyncGetBits getChars nbits bitCnt x.1.pack x.2
      (.got got.1, { x.1 with pack := got.2.1 }, got.2.2)
  | .put nbits symbols, x =>
      let taken := modemAsyncPutBits nbits symbols x.1.unpack
      (.took symbols.length taken.2, { x.1 with unpack := taken.1 }, x.2)
  | .outside change, x => (.nothing, x.1, change x.2)

def Checked.bitsStep (rounds : Nat) :
    BitCall σ → AsyncState × σ → Option (Answer (List UInt8) × AsyncState × σ)
  | .get nbits bitCnt, x => do
      let got ← modemAsyncGetBits getChars rounds nbits bitCnt (x.1.pack, x.2)
      some (.got got.1, { x.1 with pack := got.2.1 }, got.2.2)
  | .put nbits symbols, x => do
      let taken ← modemAsyncPutBits rounds nbits symbols x.1.unpack
      some (.took taken.1 taken.2.2, { x.1 with unpack := taken.2.1 }, x.2)
  | .outside change, x => some (.nothing, x.1, change x.2)

theorem bitsStep_keeps : CallsKept (Checked.bitsStep getChars) (bitsStep getChars)
    (fun x => x.1.pack) (fun x => x.1.unpack)
    fun x => x.1.pack.bit ≤ packLimit ∧ x.1.unpack.bit ≤ 9 := by
  constructor
  · intro call x rounds sized good enough many
    cases call with
    | get nbits bitCnt =>
        have less : bitCnt < rounds := enough
        rcases async_getBits_in_range getChars sized.1 sized.2 less (x.1.pack, x.2) good.1 with
          ⟨runs, filled, within⟩
        refine ⟨?_, filled, within, good.2⟩
        rw [Checked.bitsStep, runs]
        rfl
    | put nbits symbols =>
        rcases async_putBits_in_range sized.2 many symbols good.2 with ⟨runs, within⟩
        refine ⟨?_, rfl, good.1, within⟩
        rw [Checked.bitsStep, runs]
        rfl
    | outside change => exact ⟨rfl, rfl, good⟩
  · intro x good
    exact good.1
  · intro x good
    exact Nat.le_trans good.2 (by decide)

end Async

namespace Modem

def bitsStep : BitCall Modem → BitLine → Answer Unit × BitLine
  | .get nbits bitCnt, l =>
      let got := modemDetectorGetBits nbits bitCnt l.modem.detector l.pack
      (.got got.1, { l with modem := { l.modem with detector := got.2.1 }, pack := got.2.2 })
  | .put nbits symbols, l =>
      let taken := modemDetectorPutBits nbits l.modem l.unpack symbols
      (.took symbols.length (), { l with modem := taken.1, unpack := taken.2 })
  | .outside change, l => (.nothing, { l with modem := change l.modem })

def Checked.bitsStep (rounds : Nat) : BitCall Modem → BitLine → Option (Answer Unit × BitLine)
  | .get nbits bitCnt, l => do
      let got ← modemDetectorGetBits rounds nbits bitCnt (l.modem.detector, l.pack)
      some
        (.got got.1, { l with modem := { l.modem with detector := got.2.1 }, pack := got.2.2 })
  | .put nbits symbols, l => do
      let taken ← modemDetectorPutBits rounds nbits symbols l.unpack l.modem
      some (.took taken.1 (), { l with modem := taken.2.2, unpack := taken.2.1 })
  | .outside change, l => some (.nothing, { l with modem := change l.modem })

theorem bitsStep_keeps : CallsKept Checked.bitsStep bitsStep BitLine.pack BitLine.unpack
    fun l => l.pack.bit ≤ packLimit ∧ l.unpack.bit ≤ 9 := by
  constructor
  · intro call l rounds sized good enough many
    cases call with
    | get nbits bitCnt =>
        have less : bitCnt < rounds := enough
        rcases detector_getBits_in_range sized.1 sized.2 less (l.modem.detector, l.pack)
          good.1 with ⟨runs, filled, within⟩
        refine ⟨?_, filled, within, good.2⟩
        rw [Checked.bitsStep, runs]
        rfl
    | put nbits symbols =>
        rcases detector_putBits_in_range sized.2 many symbols l.modem good.2 with ⟨runs, within⟩
        refine ⟨?_, rfl, good.1, within⟩
        rw [Checked.bitsStep, runs]
        rfl
    | outside change => exact ⟨rfl, rfl, good⟩
  · intro l good
    exact good.1
  · intro l good
    exact Nat.le_trans good.2 (by decide)

end Modem

namespace Hdlc

variable {τ : Type} (getTxFrame : τ → Option Frame × τ)

/-- The frame that is being sent belongs to the framer, so that it may change like it. -/
def bitsStep : BitCall (Option Frame × τ) → HdlcState × τ →
    Answer (List Frame) × HdlcState × τ
  | .get nbits bitCnt, x =>
      let got := HdlcState.modemHdlcGetBits getTxFrame nbits bitCnt x.1 x.2
      (.got got.1, got.2)
  | .put nbits symbols, x =>
      let taken := HdlcState.modemHdlcPutBits nbits symbols x.1
      (.took symbols.length taken.2, taken.1, x.2)
  | .outside change, x =>
      let changed := change (x.1.txFrame, x.2)
      (.nothing, { x.1 with txFrame := changed.1 }, changed.2)

def Checked.bitsStep (rounds : Nat) : BitCall (Option Frame × τ) → HdlcState × τ →
    Option (Answer (List Frame) × HdlcState × τ)
  | .get nbits bitCnt, x => do
      let got ← modemHdlcGetBits getTxFrame rounds nbits bitCnt x
      some (.got got.1, got.2)
  | .put nbits symbols, x => do
      let taken ← modemHdlcPutBits nbits symbols x.1
      some (.took taken.1 taken.2.2, taken.2.1, x.2)
  | .outside change, x =>
      let changed := change (x.1.txFrame, x.2)
      some (.nothing, { x.1 with txFrame := changed.1 }, changed.2)

theorem bitsStep_keeps : CallsKept (Checked.bitsStep getTxFrame) (bitsStep getTxFrame)
    (fun x => x.1.pack) (fun x => x.1.unpack) fun x => Bounded x.1 x ∧ Resting x.1 := by
  constructor
  · intro call x rounds sized good enough many
    cases call with
    | get nbits bitCnt =>
        have less : bitCnt < rounds := enough
        rcases hdlc_getBits_in_range getTxFrame sized.1 sized.2 less x good.1 with
          ⟨runs, filled, bounded⟩
        refine ⟨?_, filled, ?_, good.2.beside bounded.receiver⟩
        · rw [Checked.bitsStep, runs]
          rfl
        · exact ⟨bounded.few, bounded.within, rfl, rfl, rfl, rfl⟩
    | put nbits symbols =>
        rcases hdlc_putBits_in_range sized.2 symbols good.2 with ⟨runs, resting, same⟩
        refine ⟨?_, rfl, ?_, resting⟩
        · rw [Checked.bitsStep, runs]
          rfl
        · constructor
          · exact same.ones ▸ good.1.few
          · exact same.pack ▸ good.1.within
          · exact ⟨rfl, rfl, rfl, rfl⟩
    | outside change =>
        refine ⟨rfl, rfl, ?_, ?_⟩
        · exact ⟨good.1.few, good.1.within, rfl, rfl, rfl, rfl⟩
        · exact good.2.beside ⟨rfl, rfl, rfl, rfl⟩
  · intro x good
    exact good.1.within
  · intro x good
    exact Nat.le_trans good.2.low (by decide)

end Hdlc

/-! ### The result -/

section Result

variable {σ τ : Type} (getChars : σ → Option UInt8 × σ)
  (getTxFrame : τ → Option Hdlc.Frame × τ)

/-- Whatever is asked for, received, queued or framed, and in whatever symbols, the registers of
the three packers stay in range and each call does all that it is asked to do. -/
theorem accumulators_never_overflow (queue : σ) (framer : τ) (m : Modem)
    (asyncCalls : List (BitCall σ)) (detectorCalls : List (BitCall Modem))
    (hdlcCalls : List (BitCall (Option Hdlc.Frame × τ)))
    (asyncSized : ∀ call ∈ asyncCalls, call.Sized)
    (detectorSized : ∀ call ∈ detectorCalls, call.Sized)
    (hdlcSized : ∀ call ∈ hdlcCalls, call.Sized) :
    CallsInRange (Async.Checked.bitsStep getChars) (Async.bitsStep getChars)
        (fun x => x.1.pack) (fun x => x.1.unpack) asyncCalls (Async.modemAsyncStart, queue) ∧
      CallsInRange Modem.Checked.bitsStep Modem.bitsStep BitLine.pack BitLine.unpack detectorCalls
        (BitLine.start m) ∧
      CallsInRange (Hdlc.Checked.bitsStep getTxFrame) (Hdlc.bitsStep getTxFrame)
        (fun x => x.1.pack) (fun x => x.1.unpack) hdlcCalls (Hdlc.modemHdlcStart, framer) := by
  have zero : ∀ limit, 0 ≤ limit := Nat.zero_le
  constructor
  · apply (Async.bitsStep_keeps getChars).inRange asyncCalls asyncSized
    exact ⟨zero _, zero _⟩
  · constructor
    · apply Modem.bitsStep_keeps.inRange detectorCalls detectorSized
      exact ⟨zero _, zero _⟩
    · apply (Hdlc.bitsStep_keeps getTxFrame).inRange hdlcCalls hdlcSized
      constructor
      · exact ⟨zero _, zero _, rfl, rfl, rfl, rfl⟩
      · exact ⟨⟨zero _, fun _ => rfl, rfl, List.length_replicate⟩, zero _⟩

end Result

/-- `get_chars` on a queue of characters. -/
def dequeue (queue : List UInt8) : Option UInt8 × List UInt8 := (queue.head?, queue.tail)

def emptyFrames (asked : Nat) : Option Hdlc.Frame × Nat :=
  (some { count := 0, size := 0, fcs := 0, buf := [] }, asked + 1)

example :
    (checkedRun (Hdlc.Checked.bitsStep emptyFrames 10) [.get 8 4, .put 8 [0x7e]]
        (Hdlc.modemHdlcStart, 0)).map Prod.fst =
      some [.got [0x7e, 0x00, 0x00, 0x7e], .took 1 []] := by decide +kernel

theorem accumulators_never_overflow_short :
    let asyncCalls := [.get 8 2, .put 7 [0x7f, 0x2a]]
    let detectorCalls := [.put 3 [0x05], .outside Modem.detectorStart, .get 8 3]
    let hdlcCalls := [.get 8 4, .put 8 [0x7e], .get 3 5]
    CallsInRange (Async.Checked.bitsStep dequeue) (Async.bitsStep dequeue)
        (fun x => x.1.pack) (fun x => x.1.unpack) asyncCalls (Async.modemAsyncStart, [0x41]) ∧
      CallsInRange Modem.Checked.bitsStep Modem.bitsStep BitLine.pack BitLine.unpack detectorCalls
        (BitLine.start Modem.modemCreate) ∧
      CallsInRange (Hdlc.Checked.bitsStep emptyFrames) (Hdlc.bitsStep emptyFrames)
        (fun x => x.1.pack) (fun x => x.1.unpack) hdlcCalls (Hdlc.modemHdlcStart, 0) :=
  accumulators_never_overflow dequeue emptyFrames [0x41] 0 Modem.modemCreate _ _ _
    (by simp [BitCall.Sized]) (by simp [BitCall.Sized]) (by simp [BitCall.Sized])

end DModem
