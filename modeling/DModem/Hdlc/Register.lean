/-
Bit registers with every bound checked.

A step that would shift by an amount outside of the word, move the count of pending bits out of
its range, or push a pending bit out of the word has no result.  The three transmitters of
`modem_pack.c` share their loops: symbols are taken while there are enough bits, and the register
is refilled when there are not.
-/

import DModem.Hdlc.Packer

namespace DModem.Hdlc

def shiftAmount (amount : Int) : Option Nat :=
  if 0 ≤ amount ∧ amount ≤ 31 then some amount.toNat else none

theorem shiftAmount_eq {n : Nat} (small : n ≤ 31) : shiftAmount n = some n := by
  have fits : (0 : Int) ≤ n ∧ (n : Int) ≤ 31 := by omega
  rw [shiftAmount, if_pos fits]
  simp

/-- The range of `pack.bit`. -/
def packLimit : Nat := 27

/-- The range of `unpack.bit`. -/
def unpackLimit : Nat := 25

namespace BitsState

/-- `s->data >> amount`. -/
def shifted (s : BitsState) (amount : Int) : Option (BitVec 32) := do
  let n ← shiftAmount amount
  some (s.data >>> n)

/-- `s->data << amount`, which keeps what is pending in the word. -/
def lifted (s : BitsState) (amount : Int) : Option (BitVec 32) := do
  let n ← shiftAmount amount
  if s.bit + n ≤ 32 then some (s.data <<< n) else none

/-- `s->bit += change`. -/
def moved (limit : Nat) (s : BitsState) (change : Int) : Option BitsState :=
  let bit : Int := s.bit + change
  if 0 ≤ bit ∧ bit ≤ limit then some { s with bit := bit.toNat } else none

/-- `s->data <<= count`, `s->data |= low` and `s->bit += count`. -/
def appended (limit : Nat) (s : BitsState) (count : Int) (low : BitVec 32) : Option BitsState := do
  let data ← s.lifted count
  moved limit { s with data := data ||| low } count

theorem shifted_eq (s : BitsState) {amount : Int} {n : Nat} (same : amount = n) (small : n ≤ 31) :
    s.shifted amount = some (s.data >>> n) := by
  subst same
  simp [shifted, shiftAmount_eq small]

theorem lifted_eq (s : BitsState) {amount : Int} {n : Nat} (same : amount = n) (small : n ≤ 31)
    (room : s.bit + n ≤ 32) : s.lifted amount = some (s.data <<< n) := by
  subst same
  simp [lifted, shiftAmount_eq small, room]

theorem moved_down {limit : Nat} (s : BitsState) {k : Nat} (enough : k ≤ s.bit)
    (within : s.bit ≤ limit) : s.moved limit (-k) = some { s with bit := s.bit - k } := by
  have fits : (0 : Int) ≤ s.bit + -k ∧ (s.bit + -k : Int) ≤ limit := by omega
  have left : (s.bit + -k : Int).toNat = s.bit - k := by omega
  simp only [moved]
  rw [if_pos fits, left]

theorem appended_eq {limit : Nat} (s : BitsState) {k : Nat} (low : BitVec 32) (small : k ≤ 31)
    (within : s.bit + k ≤ limit) (narrow : limit ≤ 32) :
    s.appended limit k low = some { bit := s.bit + k, data := s.data <<< k ||| low } := by
  have fits : (0 : Int) ≤ s.bit + k ∧ (s.bit + k : Int) ≤ limit := by omega
  have sum : (s.bit + k : Int).toNat = s.bit + k := by omega
  simp only [appended, lifted_eq s rfl small (by omega), moved, Option.bind_eq_bind,
    Option.bind_some]
  rw [if_pos fits, sum]

end BitsState

/-! ### The loops of a transmitter -/

/-- Where the register is, what of a word goes into `bit_buf`, and what is done when the register
is short: the `Bool` says whether the loop goes on. -/
structure SymbolSource (S : Type) where
  pack : S → BitsState
  setPack : S → BitsState → S
  symbol : Nat → BitVec 32 → UInt8
  refill : S → Option (S × Bool)

namespace SymbolSource

variable {S : Type} (t : SymbolSource S)

/-- `while (bit_cnt > 0 && s->bit >= nbits)`: the symbols, and how many are still wanted. -/
def takeSymbols (nbits : Nat) : Nat → S → Option (List UInt8 × Nat × S)
  | 0, x => some ([], 0, x)
  | bitCnt + 1, x =>
      if nbits ≤ (t.pack x).bit then do
        let word ← (t.pack x).shifted ((t.pack x).bit - nbits)
        let s ← (t.pack x).moved packLimit (-nbits)
        let rest ← takeSymbols nbits bitCnt (t.setPack x s)
        some (t.symbol nbits word :: rest.1, rest.2)
      else some ([], bitCnt + 1, x)

/-- `do … while (1)`, which has no result when it takes more than `rounds` rounds. -/
def getBits (nbits : Nat) : Nat → Nat → S → Option (List UInt8 × Nat × S)
  | 0, _, _ => none
  | rounds + 1, bitCnt, x => do
      let taken ← t.takeSymbols nbits bitCnt x
      if taken.2.1 = 0 then some taken
      else
        let filled ← t.refill taken.2.2
        if filled.2 then
          let rest ← getBits nbits rounds taken.2.1 filled.1
          some (taken.1 ++ rest.1, rest.2)
        else some (taken.1, taken.2.1, filled.1)

def dropSymbol (nbits : Nat) (x : S) : S :=
  t.setPack x { t.pack x with bit := (t.pack x).bit - nbits }

/-- `total` computes what the loops do, as long as the states are `Good`: the bits that a refill
adds are enough for a symbol, and fit. -/
structure Computes (nbits : Nat) (Good : S → Prop) (total : Nat → S → List UInt8 × S)
    (refilled : S → S × Bool) (stop : Nat → S → List UInt8 × S) : Prop where
  within : ∀ x, Good x → (t.pack x).bit ≤ packLimit
  drop : ∀ x, Good x → Good (t.dropSymbol nbits x)
  refill : ∀ x, Good x → (t.pack x).bit < nbits →
    t.refill x = some (refilled x) ∧ Good (refilled x).1 ∧
      ((refilled x).2 = true → nbits ≤ (t.pack (refilled x).1).bit)
  none : ∀ x, total 0 x = ([], x)
  take : ∀ bitCnt x, nbits ≤ (t.pack x).bit →
    total (bitCnt + 1) x =
      (t.symbol nbits ((t.pack x).data >>> ((t.pack x).bit - nbits)) ::
        (total bitCnt (t.dropSymbol nbits x)).1, (total bitCnt (t.dropSymbol nbits x)).2)
  more : ∀ bitCnt x, Good x → (t.pack x).bit < nbits → (refilled x).2 = true →
    total (bitCnt + 1) x = total (bitCnt + 1) (refilled x).1
  stops : ∀ bitCnt x, (t.pack x).bit < nbits → (refilled x).2 = false →
    total (bitCnt + 1) x = stop (bitCnt + 1) (refilled x).1

section Loops

variable {t} {nbits : Nat} {Good : S → Prop} {total : Nat → S → List UInt8 × S}
  {refilled : S → S × Bool} {stop : Nat → S → List UInt8 × S}

structure Left (t : SymbolSource S) (nbits : Nat) (Good : S → Prop)
    (total : Nat → S → List UInt8 × S) (refilled : S → S × Bool)
    (stop : Nat → S → List UInt8 × S) (bitCnt : Nat) (x : S) (result : List UInt8 × Nat × S) :
    Prop where
  good : Good result.2.2
  count : result.1.length + result.2.1 = bitCnt
  done : result.2.1 = 0 → total bitCnt x = (result.1, result.2.2)
  stopped : result.2.1 ≠ 0 →
    total bitCnt x = (result.1 ++ (stop result.2.1 result.2.2).1, (stop result.2.1 result.2.2).2) ∧
      ∃ short, (t.pack short).bit < nbits ∧ (refilled short).2 = false ∧
        result.2.2 = (refilled short).1

theorem Left.all {bitCnt : Nat} {x : S} {result : List UInt8 × Nat × S}
    (leaves : Left t nbits Good total refilled stop bitCnt x result)
    (always : ∀ x, (refilled x).2 = true) : result.2.1 = 0 := by
  by_contra wanted
  rcases (leaves.stopped wanted).2 with ⟨short, _, never, _⟩
  rw [always short] at never
  cases never

theorem takeSymbols_spec (computes : t.Computes nbits Good total refilled stop) (bitCnt : Nat)
    (x : S) (good : Good x) :
    ∃ symbols left y, t.takeSymbols nbits bitCnt x = some (symbols, left, y) ∧ Good y ∧
      symbols.length + left = bitCnt ∧ (left ≠ 0 → (t.pack y).bit < nbits) ∧
      (nbits ≤ (t.pack x).bit → left ≤ bitCnt - 1) ∧
      total bitCnt x = (symbols ++ (total left y).1, (total left y).2) := by
  induction bitCnt generalizing x with
  | zero =>
      refine ⟨[], 0, x, rfl, good, rfl, ?_, ?_, rfl⟩
      · intro some
        exact absurd rfl some
      · intro _
        exact Nat.le_refl 0
  | succ bitCnt ih =>
      by_cases full : nbits ≤ (t.pack x).bit
      · have within := computes.within x good
        have fits : (t.pack x).bit - nbits ≤ 31 := by
          rw [packLimit] at within
          omega
        have word := (t.pack x).shifted_eq
          (show ((t.pack x).bit : Int) - nbits = ((t.pack x).bit - nbits : Nat) by omega) fits
        have moved := (t.pack x).moved_down full within
        rcases ih (t.dropSymbol nbits x) (computes.drop x good) with
          ⟨symbols, left, y, ran, later, count, short, _, same⟩
        refine ⟨t.symbol nbits ((t.pack x).data >>> ((t.pack x).bit - nbits)) :: symbols, left, y,
          ?_, later, ?_, short, ?_, ?_⟩
        · rw [dropSymbol] at ran
          rw [takeSymbols, if_pos full, word, moved]
          simp [ran]
        · rw [List.length_cons]
          omega
        · intro _
          omega
        · rw [computes.take bitCnt x full, same]
          rfl
      · refine ⟨[], bitCnt + 1, x, ?_, good, ?_, ?_, ?_, rfl⟩
        · rw [takeSymbols, if_neg full]
        · exact Nat.zero_add _
        · intro _
          exact Nat.lt_of_not_le full
        · intro enough
          exact absurd enough full

theorem getBits_spec (computes : t.Computes nbits Good total refilled stop) (rounds bitCnt : Nat)
    (x : S) (good : Good x) (enough : bitCnt < rounds ∨ bitCnt ≤ rounds ∧ 0 < rounds ∧
      nbits ≤ (t.pack x).bit) :
    ∃ result, t.getBits nbits rounds bitCnt x = some result ∧
      Left t nbits Good total refilled stop bitCnt x result := by
  induction rounds generalizing bitCnt x with
  | zero => omega
  | succ rounds ih =>
      rcases takeSymbols_spec computes bitCnt x good with
        ⟨symbols, left, y, ran, later, count, short, fewer, same⟩
      by_cases met : left = 0
      · subst met
        refine ⟨(symbols, 0, y), ?_, ?_⟩
        · simp [getBits, ran]
        · rw [computes.none, List.append_nil] at same
          constructor
          · exact later
          · exact count
          · intro _
            exact same
          · intro some
            exact absurd rfl some
      · have low := short met
        obtain ⟨rest, restEq⟩ : ∃ rest, left = rest + 1 := ⟨left - 1, by omega⟩
        rcases computes.refill y later low with ⟨refills, goes, grows⟩
        cases on : (refilled y).2 with
        | false =>
            refine ⟨(symbols, left, (refilled y).1), ?_, ?_⟩
            · simp [getBits, ran, met, refills, on]
            · constructor
              · exact goes
              · exact count
              · intro none
                exact absurd none met
              · intro _
                rw [same]
                subst restEq
                rw [computes.stops rest y low on]
                exact ⟨rfl, y, low, on, rfl⟩
        | true =>
            have next := ih left (refilled y).1 goes (by
              have := grows on
              by_cases full : nbits ≤ (t.pack x).bit
              · have := fewer full
                omega
              · omega)
            rcases next with ⟨result, runs, leaves⟩
            refine ⟨(symbols ++ result.1, result.2), ?_, ?_⟩
            · simp [getBits, ran, met, refills, on, runs]
            · have further : total bitCnt x =
                  (symbols ++ (total left (refilled y).1).1, (total left (refilled y).1).2) := by
                rw [same]
                subst restEq
                rw [computes.more rest y later low on]
              constructor
              · exact leaves.good
              · rw [List.length_append, ← count, ← leaves.count, Nat.add_assoc]
              · intro none
                rw [further, leaves.done none]
              · intro some
                rcases leaves.stopped some with ⟨stopEq, hidden⟩
                rw [further, stopEq, List.append_assoc]
                exact ⟨rfl, hidden⟩

end Loops

end SymbolSource

end DModem.Hdlc
