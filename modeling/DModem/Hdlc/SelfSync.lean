/-
The receiver finds its place after two flags.

Whatever came before, the receiver either sees the first of two consecutive flags, or it
stands one bit inside it: after a stuffing bit that was none, or after a false flag that
shared its last bit.  From there six ones put it into the error state, in which it looks
at every bit and finds the second flag.
-/

import DModem.Hdlc.RoundTrip

namespace DModem.Hdlc

open DModem.Lib

/-! ### Places on a line -/

/-- The receiver has been fed `fed` of the line and has taken `pos` bits out of its
register. -/
structure Placed (line fed : List Bool) (pos : Nat) (h : HdlcState) : Prop where
  onLine : fed <+: line
  register : h.unpack.bits = fed.drop pos
  length : fed.length = pos + h.unpack.bit

namespace HdlcState

structure Tame (h : HdlcState) : Prop where
  ones : h.rxOnes ≤ 4
  empty : h.rxError ≠ 0 → h.rxFrame.count = 0
  size : h.rxFrame.size = 512
  buffer : h.rxFrame.buf.length = 512

def advance (h : HdlcState) : HdlcState :=
  if h.rxError ≠ 0 then { h with unpack := { h.unpack with bit := h.unpack.bit - 1 } }
  else h.takeBit h.lookAhead

def width (h : HdlcState) : Nat :=
  if h.rxError = 0 ∧ h.lookAhead.getLsbD 7 = true ∧ h.rxOnes + 1 = 5 then 2 else 1

theorem width_le (h : HdlcState) : h.width ≤ 2 := by
  unfold width
  split <;> omega

theorem width_pos (h : HdlcState) : 1 ≤ h.width := by
  unfold width
  split <;> omega

/-- `advance` by cases: an error, a zero, a one, the fifth one, and the fifth one before a
sixth. -/
theorem advance_cases (h : HdlcState) :
    (h.rxError ≠ 0 ∧ h.width = 1 ∧
        h.advance = { h with unpack := { h.unpack with bit := h.unpack.bit - 1 } }) ∨
      (h.rxError = 0 ∧ h.lookAhead.getLsbD 7 = false ∧ h.width = 1 ∧
        h.advance =
          { h with unpack := { h.unpack with bit := h.unpack.bit - 1 }, rxOnes := 0 }) ∨
      (h.rxError = 0 ∧ h.lookAhead.getLsbD 7 = true ∧ h.rxOnes + 1 ≠ 5 ∧ h.width = 1 ∧
        h.advance =
          { h with
            unpack := { h.unpack with bit := h.unpack.bit - 1 }
            rxOnes := h.rxOnes + 1 }) ∨
      (h.rxError = 0 ∧ h.lookAhead.getLsbD 7 = true ∧ h.rxOnes + 1 = 5 ∧
        h.lookAhead.getLsbD 6 = false ∧ h.width = 2 ∧
        h.advance =
          { h with unpack := { h.unpack with bit := h.unpack.bit - 1 - 1 }, rxOnes := 0 }) ∨
      (h.rxError = 0 ∧ h.lookAhead.getLsbD 7 = true ∧ h.rxOnes + 1 = 5 ∧
        h.lookAhead.getLsbD 6 = true ∧ h.width = 2 ∧
        h.advance =
          { h with
            rxError := h.rxError + 1
            rxFrame := { h.rxFrame with count := 0 }
            unpack := { h.unpack with bit := h.unpack.bit - 1 - 1 }
            rxOnes := 0 }) := by
  unfold advance width takeBit
  by_cases error : h.rxError ≠ 0
  · simp [error]
  · have clean : h.rxError = 0 := not_not.mp error
    simp only [clean, ne_eq, not_true_eq_false, if_false, top_bit, second_bit, true_and, false_and,
      false_or]
    cases top : h.lookAhead.getLsbD 7 with
    | false => simp
    | true =>
        by_cases full : h.rxOnes + 1 = 5
        · cases second : h.lookAhead.getLsbD 6 <;> simp [full, clean]
        · simp [full]

theorem advance_tame {h : HdlcState} (tame : h.Tame) : h.advance.Tame := by
  have few := tame.ones
  rcases advance_cases h with
    ⟨_, _, same⟩ | ⟨clean, _, _, same⟩ | ⟨clean, _, short, _, same⟩ |
      ⟨clean, _, _, _, _, same⟩ | ⟨_, _, _, _, _, same⟩
  · rw [same]
    exact { tame with }
  · rw [same]
    exact { tame with ones := Nat.zero_le 4 }
  · rw [same]
    exact { tame with ones := by simp only; omega }
  · rw [same]
    exact { tame with ones := Nat.zero_le 4 }
  · rw [same]
    exact { tame with ones := Nat.zero_le 4, empty := fun _ => rfl }

theorem advance_bit (h : HdlcState) : h.advance.unpack.bit = h.unpack.bit - h.width := by
  rcases advance_cases h with
    ⟨_, one, same⟩ | ⟨_, _, one, same⟩ | ⟨_, _, _, one, same⟩ |
      ⟨_, _, _, _, two, same⟩ | ⟨_, _, _, _, two, same⟩
  · rw [same, one]
  · rw [same, one]
  · rw [same, one]
  · rw [same, two]
    rfl
  · rw [same, two]
    rfl

/-- What is left of a character, with the bits that may be stuffed into it and the look-ahead, still
stands in the register. -/
theorem advance_room {h : HdlcState} (tame : h.Tame) {left : Nat}
    (room : left + 1 + (h.rxOnes + (left + 1)) / 5 + 8 ≤ h.unpack.bit) :
    left + (h.advance.rxOnes + left) / 5 + 8 ≤ h.advance.unpack.bit := by
  have few := tame.ones
  rw [advance_bit]
  rcases advance_cases h with
    ⟨_, one, same⟩ | ⟨_, _, one, same⟩ | ⟨_, _, _, one, same⟩ |
      ⟨_, _, full, _, two, same⟩ | ⟨_, _, full, _, two, same⟩
  · rw [same, one]
    dsimp only
    omega
  · rw [same, one]
    dsimp only
    omega
  · rw [same, one]
    dsimp only
    omega
  · rw [same, two]
    dsimp only
    omega
  · rw [same, two]
    dsimp only
    omega

theorem advance_data (h : HdlcState) : h.advance.unpack.data = h.unpack.data := by
  rcases advance_cases h with
    ⟨_, _, same⟩ | ⟨_, _, _, same⟩ | ⟨_, _, _, _, same⟩ |
      ⟨_, _, _, _, _, same⟩ | ⟨_, _, _, _, _, same⟩
  all_goals rw [same]

theorem advance_unpack (h : HdlcState) :
    h.advance.unpack = { h.unpack with bit := h.unpack.bit - h.width } := by
  have bit := advance_bit h
  have data := advance_data h
  generalize h.advance = h' at bit data
  rcases unpackEq : h'.unpack with ⟨bit', data'⟩
  rw [unpackEq] at bit data
  simp only at bit data
  rw [bit, data]

end HdlcState

section Placed

open HdlcState

variable {line fed : List Bool} {pos : Nat} {h : HdlcState}

theorem Placed.taken (placed : Placed line fed pos h) {h' : HdlcState} (k : Nat)
    (within : k ≤ h.unpack.bit) (same : h'.unpack = { h.unpack with bit := h.unpack.bit - k }) :
    Placed line fed (pos + k) h' := by
  constructor
  · exact placed.onLine
  · rw [same, bits_drop h.unpack k within, placed.register, List.drop_drop]
  · have lengthEq := placed.length
    rw [same]
    simp only
    omega

theorem Placed.advance (placed : Placed line fed pos h) (enough : 8 ≤ h.unpack.bit) :
    Placed line fed (pos + h.width) h.advance :=
  placed.taken h.width (by have := h.width_le; omega) (advance_unpack h)

theorem Placed.finishFrame (placed : Placed line fed pos h) (enough : 8 ≤ h.unpack.bit) :
    Placed line fed (pos + 8) h.finishFrame :=
  placed.taken 8 enough rfl

theorem Placed.finishChar (placed : Placed line fed pos h) (out : UInt8) :
    Placed line fed pos (h.finishChar out) := by
  have same : (h.finishChar out).unpack = h.unpack := by
    unfold HdlcState.finishChar
    split_ifs <;> rfl
  exact ⟨placed.onLine, by rw [same]; exact placed.register, by rw [same]; exact placed.length⟩

theorem Placed.ahead (placed : Placed line fed pos h) : h.unpack.bits <+: line.drop pos := by
  rcases placed.onLine with ⟨rest, whole⟩
  have within : pos ≤ fed.length := by
    have lengthEq := placed.length
    omega
  rw [placed.register, ← whole, List.drop_append_of_le_length within]
  exact List.prefix_append _ _

theorem Placed.flag (placed : Placed line fed pos h) (enough : 8 ≤ h.unpack.bit) :
    h.lookAhead = hdlcFlag ↔ flagBits <+: line.drop pos := by
  rw [lookAhead_flag h enough]
  constructor
  · intro seen
    exact seen.trans placed.ahead
  · intro there
    apply List.prefix_of_prefix_length_le there placed.ahead
    rw [BitsState.bits, window_length]
    exact enough

theorem Placed.top (placed : Placed line fed pos h) (enough : 8 ≤ h.unpack.bit) {bit : Bool}
    {rest : List Bool} (here : line.drop pos = bit :: rest) : h.lookAhead.getLsbD 7 = bit := by
  have ahead := placed.ahead
  cases bitsEq : h.unpack.bits with
  | nil =>
      have lengthEq : h.unpack.bits.length = h.unpack.bit := window_length _ _
      rw [bitsEq] at lengthEq
      simp only [List.length_nil] at lengthEq
      omega
  | cons first others =>
      rw [bitsEq, here, List.cons_prefix_cons] at ahead
      rw [lookAhead_top h enough bitsEq]
      exact ahead.1

theorem Placed.second (placed : Placed line fed pos h) (enough : 8 ≤ h.unpack.bit)
    {first bit : Bool} {rest : List Bool} (here : line.drop pos = first :: bit :: rest) :
    h.lookAhead.getLsbD 6 = bit := by
  have ahead := placed.ahead
  have lengthEq : h.unpack.bits.length = h.unpack.bit := window_length _ _
  rcases bitsEq : h.unpack.bits with _ | ⟨front, _ | ⟨next, others⟩⟩
  · rw [bitsEq] at lengthEq
    simp only [List.length_nil] at lengthEq
    omega
  · rw [bitsEq] at lengthEq
    simp only [List.length_cons, List.length_nil] at lengthEq
    omega
  · rw [bitsEq, here, List.cons_prefix_cons, List.cons_prefix_cons] at ahead
    rw [lookAhead_second h enough bitsEq]
    exact ahead.2.1

end Placed

/-! ### Walking over a character -/

section Walk

open HdlcState

variable {line fed : List Bool} (I : HdlcState → Nat → Prop)

/-- The loop over the bits of a character ends at a flag or after the character, and what
each of its rounds keeps holds there. -/
theorem takeChar_walk
    (step : ∀ h pos, I h pos → Placed line fed pos h → h.Tame → 8 ≤ h.unpack.bit →
      h.lookAhead ≠ hdlcFlag → I h.advance (pos + h.width))
    (left : Nat) (h : HdlcState) (out : BitVec 8) (pos : Nat) (kept : I h pos)
    (placed : Placed line fed pos h) (tame : h.Tame)
    (room : left + (h.rxOnes + left) / 5 + 8 ≤ h.unpack.bit) :
    (∃ h₁ pos₁ i, I h₁ pos₁ ∧ Placed line fed pos₁ h₁ ∧ h₁.Tame ∧ 8 ≤ h₁.unpack.bit ∧
        h₁.unpack.bit ≤ h.unpack.bit ∧ h₁.lookAhead = hdlcFlag ∧
        takeChar left h out = (h₁.finishFrame, .flag (h₁.finishedFrame i))) ∨
      ∃ h₁ pos₁ out₁, I h₁ pos₁ ∧ Placed line fed pos₁ h₁ ∧ h₁.Tame ∧
        h₁.unpack.bit + left ≤ h.unpack.bit ∧ takeChar left h out = (h₁, .char out₁) := by
  induction left generalizing h out pos with
  | zero => exact Or.inr ⟨h, pos, out, kept, placed, tame, Nat.le_refl _, rfl⟩
  | succ left ih =>
      have enough : 8 ≤ h.unpack.bit := by omega
      by_cases flag : h.lookAhead = hdlcFlag
      · apply Or.inl
        refine ⟨h, pos, 8 - (left + 1), kept, placed, tame, enough, Nat.le_refl _, flag, ?_⟩
        rw [takeChar]
        change (if h.lookAhead = hdlcFlag then _ else _) = _
        rw [if_pos flag]
      · have once : ∃ out', takeChar (left + 1) h out = takeChar left h.advance out' := by
          rw [takeChar]
          change ∃ out', (if h.lookAhead = hdlcFlag then _ else _) = _
          rw [if_neg flag]
          unfold HdlcState.advance
          split
          · exact ⟨out, rfl⟩
          · exact ⟨shiftIn out h.lookAhead, rfl⟩
        rcases once with ⟨out', onceEq⟩
        have bit := advance_bit h
        have later := advance_room tame room
        have shrinks : h.advance.unpack.bit + 1 ≤ h.unpack.bit := by
          rw [bit]
          have := h.width_pos
          omega
        rcases ih h.advance out' (pos + h.width) (step h pos kept placed tame enough flag)
            (placed.advance enough) (advance_tame tame) later with
          ⟨h₁, pos₁, i, kept₁, placed₁, tame₁, enough₁, less, flag₁, ended⟩ |
          ⟨h₁, pos₁, out₁, kept₁, placed₁, tame₁, less, ended⟩
        · apply Or.inl
          exact ⟨h₁, pos₁, i, kept₁, placed₁, tame₁, enough₁, by omega, flag₁, onceEq.trans ended⟩
        · apply Or.inr
          exact ⟨h₁, pos₁, out₁, kept₁, placed₁, tame₁, by omega, onceEq.trans ended⟩

end Walk

/-! ### Hunting for the flags -/

/-- Where the receiver can be before it has found one of two flags that begin at `start`. -/
inductive Hunting (start : Nat) (h : HdlcState) (pos : Nat) : Prop where
  | before (early : pos ≤ start)
  | shifted (ones : Nat) (few : ones ≤ 4) (place : pos = start + 1 + ones)
      (clean : h.rxError = 0) (count : h.rxOnes = ones)
  | erring (past : start < pos) (near : pos ≤ start + 8) (error : h.rxError ≠ 0)

section Hunting

open HdlcState

variable {line fed more : List Bool} {start pos : Nat} {h : HdlcState}
  (flags : line.drop start = flagBits ++ (flagBits ++ more))
include flags

theorem flags_drop (k : Nat) : line.drop (start + k) = (flagBits ++ (flagBits ++ more)).drop k := by
  rw [← flags, List.drop_drop]

theorem flags_inside {k : Nat} (some : 1 ≤ k) (few : k ≤ 7) :
    ¬ flagBits <+: line.drop (start + k) := by
  rw [flags_drop flags]
  interval_cases k <;> simp [flagBits]

theorem flags_overlap {k : Nat} (some : 1 ≤ k) (few : k ≤ 7) (place : pos + k = start)
    (flag : flagBits <+: line.drop pos) : k = 7 := by
  have shared := flag.drop k
  rw [List.drop_drop, place, flags] at shared
  interval_cases k <;> simp [flagBits] at shared ⊢

theorem Hunting.advance (hunting : Hunting start h pos) (placed : Placed line fed pos h)
    (enough : 8 ≤ h.unpack.bit) (noFlag : h.lookAhead ≠ hdlcFlag) :
    Hunting start h.advance (pos + h.width) := by
  have unseen : ¬ flagBits <+: line.drop pos := fun flag => noFlag ((placed.flag enough).mpr flag)
  cases hunting with
  | before early =>
      have earlier : pos < start := by
        apply Nat.lt_of_le_of_ne early
        intro here
        apply unseen
        rw [here, flags]
        exact List.prefix_append _ _
      by_cases within : pos + h.width ≤ start
      · exact .before within
      · -- the fifth one is the last bit before the first flag
        have wide := h.width_le
        have two : h.width = 2 := by omega
        have place : pos + 1 = start := by omega
        have first : ∃ bit,
            line.drop pos = bit :: false :: (flagBits ++ (flagBits ++ more)).drop 1 := by
          have inside : pos < line.length := by
            by_contra beyond
            have nothing : line.drop start = [] := List.drop_eq_nil_of_le (by omega)
            rw [flags] at nothing
            simp [flagBits] at nothing
          have here := List.drop_eq_getElem_cons inside
          rw [place, flags] at here
          exact ⟨_, here⟩
        rcases first with ⟨bit, here⟩
        have second := placed.second enough here
        rcases advance_cases h with
          ⟨_, one, _⟩ | ⟨_, _, one, _⟩ | ⟨_, _, _, one, _⟩ |
            ⟨clean, _, _, _, _, same⟩ | ⟨_, _, _, sixth, _⟩
        · omega
        · omega
        · omega
        · apply Hunting.shifted 0 (Nat.zero_le 4)
          · omega
          · rw [same]
            exact clean
          · rw [same]
        · rw [second] at sixth
          cases sixth
  | shifted ones few place clean count =>
      have here : ∃ rest, line.drop pos = true :: (decide (ones ≤ 4)) :: rest := by
        rw [place, Nat.add_assoc, flags_drop flags]
        interval_cases ones <;> exact ⟨_, rfl⟩
      rcases here with ⟨rest, here⟩
      have top := placed.top enough here
      have second := placed.second enough here
      rw [decide_eq_true few] at second
      rcases advance_cases h with
        ⟨error, _⟩ | ⟨_, zero, _⟩ | ⟨_, _, short, one, same⟩ |
          ⟨_, _, _, stuffed, _⟩ | ⟨_, _, full, _, two, same⟩
      · exact absurd clean error
      · rw [top] at zero
        cases zero
      · apply Hunting.shifted (ones + 1)
        · omega
        · omega
        · rw [same]
          exact clean
        · rw [same]
          simp only
          omega
      · rw [second] at stuffed
        cases stuffed
      · apply Hunting.erring
        · omega
        · omega
        · rw [same]
          simp
  | erring past near error =>
      have further : pos < start + 8 := by
        apply Nat.lt_of_le_of_ne near
        intro here
        apply unseen
        rw [here, flags_drop flags]
        exact List.prefix_append _ _
      rcases advance_cases h with
        ⟨_, one, same⟩ | ⟨clean, _⟩ | ⟨clean, _⟩ | ⟨clean, _⟩ | ⟨clean, _⟩
      · apply Hunting.erring
        · omega
        · omega
        · rw [same]
          exact error
      · exact absurd clean error
      · exact absurd clean error
      · exact absurd clean error
      · exact absurd clean error

theorem Hunting.flag (hunting : Hunting start h pos) (flag : flagBits <+: line.drop pos) :
    (pos + 8 ≤ start + 1 ∧ Hunting start h.finishFrame (pos + 8)) ∨ pos = start ∨
      (pos = start + 8 ∧ h.rxError ≠ 0) := by
  cases hunting with
  | before early =>
      by_cases here : pos = start
      · exact Or.inr (Or.inl here)
      · apply Or.inl
        by_cases within : pos + 8 ≤ start
        · exact ⟨by omega, .before within⟩
        · have shared := flags_overlap flags (k := start - pos) (by omega) (by omega) (by omega) flag
          exact ⟨by omega, .shifted 0 (Nat.zero_le 4) (by omega) rfl rfl⟩
  | shifted ones few place clean count =>
      rw [place, Nat.add_assoc] at flag
      exact absurd flag (flags_inside flags (by omega) (by omega))
  | erring past near error =>
      by_cases here : pos = start + 8
      · exact Or.inr (Or.inr ⟨here, error⟩)
      · have place : pos = start + (pos - start) := by omega
        rw [place] at flag
        exact absurd flag (flags_inside flags (by omega) (by omega))

omit flags in
theorem Hunting.finishChar (hunting : Hunting start h pos) (out : UInt8) :
    Hunting start (h.finishChar out) pos := by
  unfold HdlcState.finishChar
  split
  · exact hunting
  · rename_i noError
    split
    · cases hunting with
      | before early => exact .before early
      | shifted ones few place clean count => exact .shifted ones few place clean count
      | erring past near error => exact .erring past near error
    · cases hunting with
      | before early => exact .before early
      | shifted ones few place clean count => exact .erring (by omega) (by omega) (by simp)
      | erring past near error => exact .erring past near (by simp)

end Hunting

theorem HdlcState.Tame.finishFrame {h : HdlcState} (tame : h.Tame) : h.finishFrame.Tame :=
  { ones := Nat.zero_le 4
    empty := fun error => absurd rfl error
    size := tame.size
    buffer := tame.buffer }

theorem HdlcState.Tame.finishChar {h : HdlcState} (tame : h.Tame) (out : UInt8) :
    (h.finishChar out).Tame := by
  unfold HdlcState.finishChar
  split
  · exact tame
  · rename_i noError
    split
    · exact
        { ones := tame.ones
          empty := fun error => absurd error noError
          size := tame.size
          buffer := by simpa using tame.buffer }
    · exact
        { ones := tame.ones
          empty := fun _ => rfl
          size := tame.size
          buffer := tame.buffer }

/-! ### Symbols -/

section Symbols

open HdlcState

variable {line fed : List Bool} {pos : Nat} {h : HdlcState}

theorem Placed.push (placed : Placed line fed pos h) (low : h.unpack.bit ≤ 17) {nbits : Nat}
    (small : nbits ≤ 8) (symbol : UInt8) (onLine : fed ++ symbolBits nbits symbol <+: line) :
    Placed line (fed ++ symbolBits nbits symbol) pos (h.pushSymbol nbits symbol) := by
  have lengthEq := placed.length
  constructor
  · exact onLine
  · rw [pushSymbol_bits h small symbol (by omega), placed.register,
      List.drop_append_of_le_length (by omega)]
  · have bit : (h.pushSymbol nbits symbol).unpack.bit = h.unpack.bit + nbits := rfl
    rw [bit, List.length_append, symbolBits, window_length]
    omega

theorem putSymbol_few {nbits : Nat} (symbol : UInt8)
    (few : (h.pushSymbol nbits symbol).unpack.bit < 18) :
    h.putSymbol nbits symbol = (h.pushSymbol nbits symbol, []) := by
  unfold HdlcState.putSymbol
  exact if_pos few

theorem putSymbol_flag {nbits : Nat} {symbol : UInt8} {h' : HdlcState} {frame : Option Frame}
    (enough : 18 ≤ (h.pushSymbol nbits symbol).unpack.bit)
    (ended : takeChar 8 (h.pushSymbol nbits symbol) 0 = (h', .flag frame)) :
    h.putSymbol nbits symbol = (h', frame.toList) := by
  unfold HdlcState.putSymbol
  simp only
  rw [if_neg (by omega), ended]

theorem putSymbol_char {nbits : Nat} {symbol : UInt8} {h' : HdlcState} {out : BitVec 8}
    (enough : 18 ≤ (h.pushSymbol nbits symbol).unpack.bit)
    (ended : takeChar 8 (h.pushSymbol nbits symbol) 0 = (h', .char out)) :
    h.putSymbol nbits symbol = (h'.finishChar (UInt8.ofBitVec out), []) := by
  unfold HdlcState.putSymbol
  simp only
  rw [if_neg (by omega), ended]

end Symbols

def flanked (answers : List (Option (List UInt8))) : List (Option (List UInt8)) :=
  none :: (answers ++ [none])

theorem lineBits_flanked (answers : List (Option (List UInt8))) :
    lineBits (flanked answers) = flagBits ++ (lineBits answers ++ flagBits) := by
  rw [flanked, lineBits, List.flatMap_cons, List.flatMap_append]
  simp [answerBits, lineBits, stuff, bitsOf]

theorem contents_flanked (answers : List (Option (List UInt8))) :
    contents (flanked answers) = contents answers := by
  rw [flanked, ← List.singleton_append, contents_append, contents_append]
  simp [contents]

/-- The log has the frames `wanted` from flags that end after `second` and not after
`last`, and before them only frames from earlier flags. -/
def Logged (second last : Nat) (log : List (Nat × Frame)) (wanted : List (Nat × List UInt8)) :
    Prop :=
  ∃ early kept, log = early ++ kept ∧ (∀ entry ∈ early, entry.1 ≤ second) ∧
    (∀ entry ∈ kept, second < entry.1 ∧ entry.1 ≤ last) ∧
    kept.map (fun entry => entry.2.content) = wanted

theorem Logged.deliver {second last : Nat} {log : List (Nat × Frame)}
    {wanted : List (Nat × List UInt8)} (logged : Logged second last log wanted) {at_ : Nat}
    (past : second < at_) (within : at_ ≤ last) (frames : List Frame) :
    Logged second last (log ++ frames.map fun f => (at_, f))
      (wanted ++ frames.map Frame.content) := by
  rcases logged with ⟨early, kept, rfl, before, between, same⟩
  refine ⟨early, kept ++ frames.map fun f => (at_, f), List.append_assoc _ _ _, before, ?_, ?_⟩
  · intro entry member
    rcases List.mem_append.mp member with old | new
    · exact between entry old
    · rcases List.mem_map.mp new with ⟨f, _, rfl⟩
      exact ⟨past, within⟩
  · rw [List.map_append, same, List.map_map]
    rfl

section Sync

open HdlcState

variable (garbage tail : List Bool) (answers : List (Option (List UInt8)))

def syncLine : List Bool := garbage ++ (lineBits (flanked answers) ++ tail)

def firstEnd : Nat := garbage.length + 8

def lastEnd : Nat := garbage.length + (lineBits (flanked answers)).length

inductive Syncing (fed : List Bool) (h : HdlcState) (log : List (Nat × Frame)) : Prop where
  | hunting (pos : Nat) (placed : Placed (syncLine garbage tail answers) fed pos h) (tame : h.Tame)
      (hunts : Hunting garbage.length h pos)
      (early : ∀ entry ∈ log, entry.1 ≤ firstEnd garbage)
  | inside (done : List (Option (List UInt8))) (answer : Option (List UInt8))
      (later : List (Option (List UInt8))) (octets left : List UInt8)
      (split : flanked answers = done ++ answer :: later) (more : later ≠ [])
      (cut : answer.elim [] checked = octets ++ left) (holds : h.Holds octets)
      (placed : Placed (syncLine garbage tail answers) fed
        (garbage.length + (lineBits done ++ flagBits ++ stuff 0 (bitsOf octets)).length) h)
      (logged : Logged (firstEnd garbage) (lastEnd garbage answers) log (contents done))
  | beyond (pos : Nat) (placed : Placed (syncLine garbage tail answers) fed pos h) (tame : h.Tame)
      (past : lastEnd garbage answers ≤ pos)
      (logged : ∃ front late, log = front ++ late ∧
        Logged (firstEnd garbage) (lastEnd garbage answers) front (contents answers) ∧
        (∀ entry ∈ late, lastEnd garbage answers < entry.1) ∧
        (¬ flagBits <:+: tail → late = []))

theorem syncLine_drop (k : Nat) :
    (syncLine garbage tail answers).drop (garbage.length + k) =
      (lineBits (flanked answers) ++ tail).drop k := by
  rw [syncLine, ← List.drop_drop, List.drop_left]

theorem syncLine_flags :
    ∃ more, (syncLine garbage tail answers).drop garbage.length =
      flagBits ++ (flagBits ++ more) := by
  have whole := syncLine_drop garbage tail answers 0
  rw [Nat.add_zero, List.drop_zero, lineBits_flanked] at whole
  cases answers with
  | nil => exact ⟨tail, by rw [whole]; simp [lineBits]⟩
  | cons answer rest =>
      refine ⟨stuff 0 (bitsOf (answer.elim [] checked)) ++ (lineBits rest ++ flagBits) ++ tail, ?_⟩
      rw [whole]
      simp [lineBits, answerBits]

variable {garbage tail answers}

theorem HdlcState.Holds.tame {h : HdlcState} {octets : List UInt8} (holds : h.Holds octets) :
    h.Tame :=
  { ones := by
      rw [holds.ones]
      exact onesAfter_le (Nat.zero_le 4) _
    empty := fun error => absurd holds.clean error
    size := holds.size
    buffer := holds.buffer }

theorem Syncing.afterFlag {fed : List Bool} {h : HdlcState} {log : List (Nat × Frame)}
    (done : List (Option (List UInt8))) (answer : Option (List UInt8))
    (later : List (Option (List UInt8))) (split : flanked answers = done ++ answer :: later)
    (holds : h.Holds [])
    (placed : Placed (syncLine garbage tail answers) fed
      (garbage.length + (lineBits done ++ flagBits).length) h)
    (logged : Logged (firstEnd garbage) (lastEnd garbage answers) log (contents done)) :
    Syncing garbage tail answers fed h log := by
  cases later with
  | cons next rest =>
      apply Syncing.inside done answer (next :: rest) [] (answer.elim [] checked) split
        (List.cons_ne_nil _ _) rfl holds
      · simpa [bitsOf, stuff] using placed
      · exact logged
  | nil =>
      have ending : answer = none := by
        have lasts : ((none :: answers) ++ [none]).getLast? = (done ++ [answer]).getLast? :=
          congrArg List.getLast? split
        rw [List.getLast?_concat, List.getLast?_concat] at lasts
        exact (Option.some.inj lasts).symm
      subst ending
      have whole : lineBits (flanked answers) = lineBits done ++ flagBits := by
        rw [split, lineBits_append]
        simp [lineBits, answerBits, stuff, bitsOf]
      apply Syncing.beyond _ placed holds.tame
      · rw [lastEnd, whole]
      · refine ⟨log, [], (List.append_nil _).symm, ?_, ?_, fun _ => rfl⟩
        · have all := contents_flanked answers
          rw [split, contents_append] at all
          rw [← all]
          simpa [contents] using logged
        · intro entry member
          cases member

theorem syncLine_inside {done later : List (Option (List UInt8))} {answer : Option (List UInt8)}
    {octets left : List UInt8} (split : flanked answers = done ++ answer :: later)
    (cut : answer.elim [] checked = octets ++ left) :
    (syncLine garbage tail answers).drop
        (garbage.length + (lineBits done ++ flagBits ++ stuff 0 (bitsOf octets)).length) =
      stuff (onesAfter 0 (bitsOf octets)) (bitsOf left) ++ (lineBits later ++ tail) := by
  have whole : lineBits (flanked answers) ++ tail =
      (lineBits done ++ flagBits ++ stuff 0 (bitsOf octets)) ++
        (stuff (onesAfter 0 (bitsOf octets)) (bitsOf left) ++ (lineBits later ++ tail)) := by
    rw [split, lineBits_append, lineBits, lineBits, List.flatMap_cons, answerBits, cut,
      bitsOf_append, stuff_append]
    simp [lineBits]
  rw [syncLine_drop, whole, List.drop_left]

variable {fed : List Bool} {h : HdlcState} {log : List (Nat × Frame)}

def tagged (fed : List Bool) (next : HdlcState × List Frame) : List (Nat × Frame) :=
  next.2.map fun f => (fed.length - next.1.unpack.bit, f)

theorem Placed.tag {line : List Bool} {pos : Nat} (placed : Placed line fed pos h) :
    fed.length - h.unpack.bit = pos := by
  have lengthEq := placed.length
  omega

theorem Syncing.takeHunting {pos : Nat}
    (placed : Placed (syncLine garbage tail answers) fed pos h) (tame : h.Tame)
    (hunts : Hunting garbage.length h pos) (early : ∀ entry ∈ log, entry.1 ≤ firstEnd garbage)
    (enough : 18 ≤ h.unpack.bit) (bound : h.unpack.bit ≤ 25) :
    (∃ h' frame, takeChar 8 h 0 = (h', .flag frame) ∧
        Syncing garbage tail answers fed h' (log ++ tagged fed (h', frame.toList)) ∧
        h'.unpack.bit ≤ 17) ∨
      ∃ h' out, takeChar 8 h 0 = (h', .char out) ∧
        Syncing garbage tail answers fed (h'.finishChar (UInt8.ofBitVec out)) log ∧
        (h'.finishChar (UInt8.ofBitVec out)).unpack.bit ≤ 17 := by
  rcases syncLine_flags garbage tail answers with ⟨more, flags⟩
  have few := tame.ones
  rcases takeChar_walk (Hunting garbage.length)
      (fun h pos hunts placed _ enough noFlag => hunts.advance flags placed enough noFlag)
      8 h 0 pos hunts placed tame (by omega) with
    ⟨h₁, pos₁, i, hunts₁, placed₁, tame₁, enough₁, less, flag, ended⟩ |
    ⟨h₁, pos₁, out, hunts₁, placed₁, tame₁, less, ended⟩
  · apply Or.inl
    refine ⟨_, _, ended, ?_, ?_⟩
    · have finished := placed₁.finishFrame enough₁
      have tag := finished.tag
      have flagged : ∀ entry ∈ log ++ tagged fed (h₁.finishFrame, (h₁.finishedFrame i).toList),
          pos₁ + 8 ≤ firstEnd garbage → entry.1 ≤ firstEnd garbage := by
        intro entry member near
        rcases List.mem_append.mp member with old | new
        · exact early entry old
        · rcases List.mem_map.mp new with ⟨f, _, rfl⟩
          simp only
          rw [tag]
          exact near
      rcases hunts₁.flag flags ((placed₁.flag enough₁).mp flag) with
        ⟨near, again⟩ | here | ⟨here, error⟩
      · apply Syncing.hunting (pos₁ + 8) finished tame₁.finishFrame again
        intro entry member
        apply flagged entry member
        rw [firstEnd]
        omega
      · subst here
        apply Syncing.afterFlag [] none (answers ++ [none]) rfl
          (finishFrame_holds tame₁.size tame₁.buffer)
        · simpa [lineBits, flagBits] using finished
        · refine ⟨_, [], (List.append_nil _).symm, ?_, ?_, rfl⟩
          · intro entry member
            exact flagged entry member (Nat.le_refl _)
          · intro entry member
            cases member
      · have nothing : h₁.finishedFrame i = none := by
          unfold finishedFrame
          rw [if_pos (tame₁.empty error)]
        rw [nothing]
        have rest : ∃ answer later, answers ++ [none] = answer :: later := by
          cases answers with
          | nil => exact ⟨none, [], rfl⟩
          | cons answer others => exact ⟨answer, others ++ [none], rfl⟩
        rcases rest with ⟨answer, later, restEq⟩
        apply Syncing.afterFlag [none] answer later
        · rw [flanked, restEq]
          rfl
        · exact finishFrame_holds tame₁.size tame₁.buffer
        · subst here
          simpa [lineBits, answerBits, flagBits, stuff, bitsOf, Nat.add_assoc] using finished
        · refine ⟨log, [], ?_, early, ?_, rfl⟩
          · simp [tagged]
          · intro entry member
            cases member
    · simp only [HdlcState.finishFrame]
      omega
  · apply Or.inr
    refine ⟨_, _, ended, ?_, ?_⟩
    · exact Syncing.hunting pos₁ (placed₁.finishChar _) (tame₁.finishChar _)
        (hunts₁.finishChar _) early
    · have finished := placed₁.finishChar (UInt8.ofBitVec out)
      have lengthEq := finished.length
      have before := placed₁.length
      omega

theorem Syncing.takeInside {done later : List (Option (List UInt8))}
    {answer : Option (List UInt8)} {octets left : List UInt8}
    (sized : ∀ text, some text ∈ answers → Sized text)
    (split : flanked answers = done ++ answer :: later) (more : later ≠ [])
    (cut : answer.elim [] checked = octets ++ left) (holds : h.Holds octets)
    (placed : Placed (syncLine garbage tail answers) fed
      (garbage.length + (lineBits done ++ flagBits ++ stuff 0 (bitsOf octets)).length) h)
    (logged : Logged (firstEnd garbage) (lastEnd garbage answers) log (contents done))
    (enough : 18 ≤ h.unpack.bit) (bound : h.unpack.bit ≤ 25) :
    (∃ h' frame, takeChar 8 h 0 = (h', .flag frame) ∧
        Syncing garbage tail answers fed h' (log ++ tagged fed (h', frame.toList)) ∧
        h'.unpack.bit ≤ 17) ∨
      ∃ h' out, takeChar 8 h 0 = (h', .char out) ∧
        Syncing garbage tail answers fed (h'.finishChar (UInt8.ofBitVec out)) log ∧
        (h'.finishChar (UInt8.ofBitVec out)).unpack.bit ≤ 17 := by
  have answerSized : ∀ text, answer = some text → Sized text := by
    intro text same
    apply sized text
    have member : some text ∈ flanked answers := by
      rw [split, same]
      simp
    simpa [flanked] using member
  have ahead := placed.ahead
  rw [syncLine_inside split cut, ← holds.ones] at ahead
  rcases List.exists_cons_of_ne_nil more with ⟨after, rest, laterEq⟩
  have follows : flagBits <+: lineBits later ++ tail := by
    rw [laterEq, lineBits, List.flatMap_cons, answerBits, List.append_assoc, List.append_assoc]
    exact List.prefix_append _ _
  cases left with
  | nil =>
      apply Or.inl
      rw [List.append_nil] at cut
      rw [bitsOf, List.flatMap_nil, stuff, List.nil_append] at ahead
      have flag : flagBits <+: h.unpack.bits := by
        apply List.prefix_of_prefix_length_le follows ahead
        rw [BitsState.bits, window_length]
        exact Nat.le_trans (by decide) enough
      refine ⟨_, _, takeFlag_spec h (by omega) flag 0, ?_, ?_⟩
      · have finished := placed.finishFrame (by omega)
        have tag := finished.tag
        have whole : lineBits (flanked answers) =
            lineBits (done ++ [answer]) ++ flagBits ++ (stuff 0 (bitsOf (after.elim [] checked)) ++
              lineBits rest) := by
          rw [split, laterEq]
          simp [lineBits, answerBits]
        have place : (lineBits done ++ flagBits ++ stuff 0 (bitsOf octets)).length + 8 =
            (lineBits (done ++ [answer]) ++ flagBits).length := by
          rw [lineBits_append, ← cut]
          simp [lineBits, answerBits, flagBits]
          omega
        rw [Nat.add_assoc, place] at finished tag
        rw [← cut] at holds
        apply Syncing.afterFlag (done ++ [answer]) after rest
        · rw [split, laterEq]
          simp
        · exact finishFrame_holds holds.size holds.buffer
        · exact finished
        · rw [contents_append, ← holds.finished answerSized, tagged, tag]
          apply logged.deliver
          · rw [firstEnd, ← place]
            simp [flagBits]
          · rw [lastEnd, whole]
            simp
      · simp only [HdlcState.finishFrame]
        omega
  | cons c left =>
      apply Or.inr
      have few : h.rxOnes ≤ 4 := holds.tame.ones
      have room : octets.length < 512 := by
        have sizes := congrArg List.length cut
        cases answer with
        | none => simp at sizes
        | some text =>
            have bounds := answerSized text rfl
            simp only [Option.elim_some, checked, List.length_append, List.length_cons,
              List.length_nil] at sizes
            have := bounds.2
            omega
      have ends : (lineBits later ++ tail).head? ≠ some true := by
        rcases follows with ⟨others, othersEq⟩
        rw [← othersEq]
        simp [flagBits]
      obtain ⟨h', took, charEq⟩ := takeOctet_spec c (bitsOf left) (lineBits later ++ tail) h
        holds.clean few ends enough ahead
      have sizes := took.length
      have grows := octet_grows h.rxOnes c
      refine ⟨_, _, charEq, ?_, ?_⟩
      · rw [UInt8.ofBitVec_toBitVec]
        apply Syncing.inside done answer later (octets ++ [c]) left split more
        · rw [cut]
          simp
        · exact holds.finishChar took room
        · have shifted : h'.unpack = { h.unpack with
              bit := h.unpack.bit - (stuff h.rxOnes (octetBits c)).length } := by
            rw [took.frame]
            simp only
            congr 1
            omega
          have taken := placed.taken (stuff h.rxOnes (octetBits c)).length (by omega) shifted
          have place : garbage.length +
              (lineBits done ++ flagBits ++ stuff 0 (bitsOf octets)).length +
                (stuff h.rxOnes (octetBits c)).length =
              garbage.length +
                (lineBits done ++ flagBits ++ stuff 0 (bitsOf (octets ++ [c]))).length := by
            rw [bitsOf_append, stuff_append, ← holds.ones]
            simp [bitsOf]
            omega
          rw [place] at taken
          exact taken.finishChar c
        · exact logged
      · have sameUnpack : (h'.finishChar (UInt8.ofBitVec c.toBitVec)).unpack = h'.unpack := by
          unfold HdlcState.finishChar
          split_ifs <;> rfl
        rw [sameUnpack]
        omega

theorem Syncing.takeOver {pos : Nat}
    (placed : Placed (syncLine garbage tail answers) fed pos h) (tame : h.Tame)
    (past : lastEnd garbage answers ≤ pos)
    (logged : ∃ front late, log = front ++ late ∧
      Logged (firstEnd garbage) (lastEnd garbage answers) front (contents answers) ∧
      (∀ entry ∈ late, lastEnd garbage answers < entry.1) ∧ (¬ flagBits <:+: tail → late = []))
    (enough : 18 ≤ h.unpack.bit) (bound : h.unpack.bit ≤ 25) :
    (∃ h' frame, takeChar 8 h 0 = (h', .flag frame) ∧
        Syncing garbage tail answers fed h' (log ++ tagged fed (h', frame.toList)) ∧
        h'.unpack.bit ≤ 17) ∨
      ∃ h' out, takeChar 8 h 0 = (h', .char out) ∧
        Syncing garbage tail answers fed (h'.finishChar (UInt8.ofBitVec out)) log ∧
        (h'.finishChar (UInt8.ofBitVec out)).unpack.bit ≤ 17 := by
  have few := tame.ones
  rcases takeChar_walk (fun _ pos => lastEnd garbage answers ≤ pos)
      (fun h pos past _ _ _ _ => Nat.le_add_right_of_le past) 8 h 0 pos past placed tame
      (by omega) with
    ⟨h₁, pos₁, i, past₁, placed₁, tame₁, enough₁, less, flag, ended⟩ |
    ⟨h₁, pos₁, out, past₁, placed₁, tame₁, less, ended⟩
  · apply Or.inl
    refine ⟨_, _, ended, ?_, ?_⟩
    · have finished := placed₁.finishFrame enough₁
      have tag := finished.tag
      have there := (placed₁.flag enough₁).mp flag
      have inTail : flagBits <:+: tail := by
        have place : pos₁ = garbage.length + ((lineBits (flanked answers)).length +
            (pos₁ - lastEnd garbage answers)) := by
          rw [lastEnd] at past₁ ⊢
          omega
        rw [place, syncLine_drop, ← List.drop_drop, List.drop_left] at there
        exact there.isInfix.trans (List.drop_suffix _ _).isInfix
      rcases logged with ⟨front, late, rfl, wanted, after, flagless⟩
      apply Syncing.beyond (pos₁ + 8) finished tame₁.finishFrame (by omega)
      refine ⟨front, late ++ tagged fed (h₁.finishFrame, (h₁.finishedFrame i).toList),
        List.append_assoc _ _ _, wanted, ?_, fun none => absurd inTail none⟩
      intro entry member
      rcases List.mem_append.mp member with old | new
      · exact after entry old
      · rcases List.mem_map.mp new with ⟨f, _, rfl⟩
        simp only
        rw [tag]
        omega
    · simp only [HdlcState.finishFrame]
      omega
  · apply Or.inr
    refine ⟨_, _, ended, ?_, ?_⟩
    · exact Syncing.beyond pos₁ (placed₁.finishChar _) (tame₁.finishChar _) past₁ logged
    · have finished := placed₁.finishChar (UInt8.ofBitVec out)
      have lengthEq := finished.length
      have before := placed₁.length
      omega

theorem Syncing.putSymbol (syncing : Syncing garbage tail answers fed h log)
    (sized : ∀ text, some text ∈ answers → Sized text) (low : h.unpack.bit ≤ 17) {nbits : Nat}
    (small : nbits ≤ 8) (symbol : UInt8)
    (onLine : fed ++ symbolBits nbits symbol <+: syncLine garbage tail answers) :
    Syncing garbage tail answers (fed ++ symbolBits nbits symbol) (h.putSymbol nbits symbol).1
        (log ++ tagged (fed ++ symbolBits nbits symbol) (h.putSymbol nbits symbol)) ∧
      (h.putSymbol nbits symbol).1.unpack.bit ≤ 17 := by
  have bit : (h.pushSymbol nbits symbol).unpack.bit = h.unpack.bit + nbits := rfl
  have pushed : Syncing garbage tail answers (fed ++ symbolBits nbits symbol)
      (h.pushSymbol nbits symbol) log := by
    cases syncing with
    | hunting pos placed tame hunts early =>
        apply Syncing.hunting pos (placed.push low small symbol onLine) { tame with } _ early
        cases hunts with
        | before near => exact .before near
        | shifted ones few place clean count => exact .shifted ones few place clean count
        | erring past near error => exact .erring past near error
    | inside done answer later octets left split more cut holds placed logged =>
        exact Syncing.inside done answer later octets left split more cut { holds with }
          (placed.push low small symbol onLine) logged
    | beyond pos placed tame past logged =>
        exact Syncing.beyond pos (placed.push low small symbol onLine) { tame with } past logged
  by_cases few : (h.pushSymbol nbits symbol).unpack.bit < 18
  · rw [putSymbol_few symbol few]
    simp only [tagged, List.map_nil, List.append_nil]
    exact ⟨pushed, by omega⟩
  · have enough : 18 ≤ (h.pushSymbol nbits symbol).unpack.bit := by omega
    have bound : (h.pushSymbol nbits symbol).unpack.bit ≤ 25 := by omega
    have taken : (∃ h' frame, takeChar 8 (h.pushSymbol nbits symbol) 0 = (h', .flag frame) ∧
          Syncing garbage tail answers (fed ++ symbolBits nbits symbol) h'
            (log ++ tagged (fed ++ symbolBits nbits symbol) (h', frame.toList)) ∧
          h'.unpack.bit ≤ 17) ∨
        ∃ h' out, takeChar 8 (h.pushSymbol nbits symbol) 0 = (h', .char out) ∧
          Syncing garbage tail answers (fed ++ symbolBits nbits symbol)
            (h'.finishChar (UInt8.ofBitVec out)) log ∧
          (h'.finishChar (UInt8.ofBitVec out)).unpack.bit ≤ 17 := by
      cases pushed with
      | hunting pos placed tame hunts early =>
          exact Syncing.takeHunting placed tame hunts early enough bound
      | inside done answer later octets left split more cut holds placed logged =>
          exact Syncing.takeInside sized split more cut holds placed logged enough bound
      | beyond pos placed tame past logged =>
          exact Syncing.takeOver placed tame past logged enough bound
    rcases taken with ⟨h', frame, ended, synced, less⟩ | ⟨h', out, ended, synced, less⟩
    · rw [putSymbol_flag enough ended]
      exact ⟨synced, less⟩
    · rw [putSymbol_char enough ended]
      simp only [tagged, List.map_nil, List.append_nil]
      exact ⟨synced, less⟩

end Sync

/-! ### Whole runs -/

/-- The frames that calls of `modem_hdlc_put_bits` deliver, each with the number of bits of
the line up to the end of its closing flag, if `fed` bits of it came before. -/
def putBitsAt (nbits : Nat) : List UInt8 → HdlcState → Nat → List (Nat × Frame)
  | [], _, _ => []
  | symbol :: rest, h, fed =>
      let next := h.putSymbol nbits symbol
      next.2.map (fun f => (fed + nbits - next.1.unpack.bit, f)) ++
        putBitsAt nbits rest next.1 (fed + nbits)

def receiveAt : List (Nat × List UInt8) → HdlcState → Nat → List (Nat × Frame)
  | [], _, _ => []
  | call :: rest, h, fed =>
      putBitsAt call.1 call.2 h fed ++
        receiveAt rest (HdlcState.modemHdlcPutBits call.1 call.2 h).1
          (fed + call.2.length * call.1)

theorem putBitsAt_frames (nbits : Nat) (symbols : List UInt8) (h : HdlcState) (fed : Nat) :
    (putBitsAt nbits symbols h fed).map Prod.snd =
      (HdlcState.modemHdlcPutBits nbits symbols h).2 := by
  induction symbols generalizing h fed with
  | nil => rfl
  | cons symbol rest ih =>
      rw [putBitsAt, HdlcState.modemHdlcPutBits]
      simp only [List.map_append, List.map_map, ih]
      congr 1
      exact List.map_id _

theorem receiveAt_frames (calls : List (Nat × List UInt8)) (h : HdlcState) (fed : Nat) :
    (receiveAt calls h fed).map Prod.snd = (receive calls h).2 := by
  induction calls generalizing h fed with
  | nil => rfl
  | cons call rest ih =>
      rw [receiveAt, receive, List.map_append, putBitsAt_frames, ih]

section Runs

variable {garbage tail fed : List Bool} {answers : List (Option (List UInt8))} {h : HdlcState}
  {log : List (Nat × Frame)}

theorem Syncing.putBits (sized : ∀ text, some text ∈ answers → Sized text) {nbits : Nat}
    (small : nbits ≤ 8) (symbols : List UInt8) (syncing : Syncing garbage tail answers fed h log)
    (low : h.unpack.bit ≤ 17)
    (onLine : fed ++ symbols.flatMap (symbolBits nbits) <+: syncLine garbage tail answers) :
    Syncing garbage tail answers (fed ++ symbols.flatMap (symbolBits nbits))
        (HdlcState.modemHdlcPutBits nbits symbols h).1
        (log ++ putBitsAt nbits symbols h fed.length) ∧
      (HdlcState.modemHdlcPutBits nbits symbols h).1.unpack.bit ≤ 17 := by
  induction symbols generalizing fed h log with
  | nil => simpa [HdlcState.modemHdlcPutBits, putBitsAt] using ⟨syncing, low⟩
  | cons symbol rest ih =>
      rw [List.flatMap_cons, ← List.append_assoc] at onLine
      have once := syncing.putSymbol sized low small symbol
        ((List.prefix_append _ _).trans onLine)
      have later := ih once.1 once.2 onLine
      have length : (fed ++ symbolBits nbits symbol).length = fed.length + nbits := by
        rw [List.length_append, symbolBits, window_length]
      rw [tagged, length] at later
      simpa [HdlcState.modemHdlcPutBits, putBitsAt, List.append_assoc] using later

theorem Syncing.receive (sized : ∀ text, some text ∈ answers → Sized text)
    (cuts : List (Nat × List UInt8)) (symbols : ∀ cut ∈ cuts, 1 ≤ cut.1 ∧ cut.1 ≤ 8)
    (syncing : Syncing garbage tail answers fed h log) (low : h.unpack.bit ≤ 17)
    (onLine : fed ++ fedBits cuts <+: syncLine garbage tail answers) :
    Syncing garbage tail answers (fed ++ fedBits cuts) (Hdlc.receive cuts h).1
        (log ++ receiveAt cuts h fed.length) ∧
      (Hdlc.receive cuts h).1.unpack.bit ≤ 17 := by
  induction cuts generalizing fed h log with
  | nil => simpa [Hdlc.receive, receiveAt, fedBits] using ⟨syncing, low⟩
  | cons cut rest ih =>
      rw [fedBits, List.flatMap_cons, ← List.append_assoc] at onLine
      have size := symbols cut List.mem_cons_self
      have once := Syncing.putBits sized size.2 cut.2 syncing low
        ((List.prefix_append _ _).trans onLine)
      have later := ih (fun other member => symbols other (List.mem_cons_of_mem cut member))
        once.1 once.2 onLine
      have length : (fed ++ cut.2.flatMap (symbolBits cut.1)).length =
          fed.length + cut.2.length * cut.1 := by
        rw [List.length_append, List.length_flatMap]
        simp [symbolBits, window_length]
      rw [length] at later
      simpa [Hdlc.receive, receiveAt, fedBits, List.append_assoc] using later

theorem Syncing.start (garbage tail : List Bool) (answers : List (Option (List UInt8))) :
    Syncing garbage tail answers [] modemHdlcStart [] := by
  apply Syncing.hunting 0
  · exact ⟨List.nil_prefix, rfl, rfl⟩
  · exact
      { ones := Nat.zero_le 4
        empty := fun _ => rfl
        size := rfl
        buffer := List.length_replicate }
  · exact .before (Nat.zero_le _)
  · intro entry member
    cases member

theorem Syncing.passed (syncing : Syncing garbage tail answers fed h log)
    (low : h.unpack.bit ≤ 17) (far : lastEnd garbage answers + 18 ≤ fed.length) :
    ∃ front late, log = front ++ late ∧
      Logged (firstEnd garbage) (lastEnd garbage answers) front (contents answers) ∧
      (∀ entry ∈ late, lastEnd garbage answers < entry.1) ∧
      (¬ flagBits <:+: tail → late = []) := by
  have flags : (lineBits (flanked answers)).length = (lineBits answers).length + 16 := by
    rw [lineBits_flanked]
    simp [flagBits]
  cases syncing with
  | hunting pos placed tame hunts early =>
      have lengthEq := placed.length
      rw [lastEnd] at far
      have near : pos ≤ garbage.length + 8 := by
        cases hunts with
        | before early => omega
        | shifted ones few place clean count => omega
        | erring past near error => exact near
      omega
  | inside done answer later octets left split more cut holds placed logged =>
      have lengthEq := placed.length
      have whole : (lineBits (flanked answers)).length =
          (lineBits done ++ flagBits ++ stuff 0 (bitsOf octets)).length +
            ((stuff (onesAfter 0 (bitsOf octets)) (bitsOf left)).length +
              (lineBits later).length) := by
        rw [split, lineBits_append, lineBits, lineBits, List.flatMap_cons, answerBits, cut,
          bitsOf_append, stuff_append]
        simp [lineBits]
        omega
      rw [lastEnd] at far
      omega
  | beyond pos placed tame past logged => exact logged

/-- Garbage, two flags and any frames with flags between them and after, fed in any cut
with 18 more bits: the frames of the flags from the second to the last are exactly these
frames in order, and no other frame follows as long as no flag does. -/
theorem hdlc_self_synchronises (garbage tail : List Bool)
    (answers : List (Option (List UInt8)))
    (sized : ∀ text, some text ∈ answers → 1 ≤ text.length ∧ text.length ≤ 510)
    (cuts : List (Nat × List UInt8)) (symbols : ∀ cut ∈ cuts, 1 ≤ cut.1 ∧ cut.1 ≤ 8)
    (fed : fedBits cuts = garbage ++ (flagBits ++ (lineBits answers ++ flagBits) ++ tail))
    (enough : 18 ≤ tail.length) :
    let log := receiveAt cuts modemHdlcStart 0
    let second := (garbage ++ flagBits).length
    let last := (garbage ++ flagBits ++ (lineBits answers ++ flagBits)).length
    log.map Prod.snd = (receive cuts modemHdlcStart).2 ∧
      (log.filter fun entry => second < entry.1 ∧ entry.1 ≤ last).map
        (fun entry => entry.2.content) = contents answers ∧
      (¬ flagBits <:+: tail →
        (log.filter fun entry => second < entry.1).map (fun entry => entry.2.content) =
          contents answers) := by
  have onLine : fedBits cuts = syncLine garbage tail answers := by
    rw [fed, syncLine, lineBits_flanked]
  have received := Syncing.receive sized cuts symbols (Syncing.start garbage tail answers)
    (Nat.zero_le 17) (by rw [List.nil_append, onLine])
  have whole : lastEnd garbage answers + tail.length = (fedBits cuts).length := by
    rw [onLine, lastEnd, syncLine]
    simp
    omega
  have passed := received.1.passed received.2 (by rw [List.nil_append]; omega)
  rw [List.nil_append, List.length_nil] at passed
  intro log second last
  have secondEq : second = firstEnd garbage := by simp [second, firstEnd, flagBits]
  have lastEq : last = lastEnd garbage answers := by
    simp [last, lastEnd, lineBits_flanked, Nat.add_assoc]
  rcases passed with ⟨front, late, logEq, ⟨early, kept, frontEq, before, between, wanted⟩, after,
    flagless⟩
  have logged : log = early ++ kept ++ late := by rw [← frontEq]; exact logEq
  refine ⟨receiveAt_frames cuts modemHdlcStart 0, ?_, ?_⟩
  · have none : early.filter (fun entry => second < entry.1 ∧ entry.1 ≤ last) = [] := by
      rw [List.filter_eq_nil_iff]
      intro entry member
      have := before entry member
      simp only [decide_eq_true_eq]
      omega
    have all : kept.filter (fun entry => second < entry.1 ∧ entry.1 ≤ last) = kept := by
      rw [List.filter_eq_self]
      intro entry member
      have := between entry member
      simp only [decide_eq_true_eq]
      omega
    have rest : late.filter (fun entry => second < entry.1 ∧ entry.1 ≤ last) = [] := by
      rw [List.filter_eq_nil_iff]
      intro entry member
      have := after entry member
      simp only [decide_eq_true_eq]
      omega
    rw [logged, List.filter_append, List.filter_append, none, all, rest, List.nil_append,
      List.append_nil, wanted]
  · intro quiet
    have none : early.filter (fun entry => second < entry.1) = [] := by
      rw [List.filter_eq_nil_iff]
      intro entry member
      have := before entry member
      simp only [decide_eq_true_eq]
      omega
    have all : kept.filter (fun entry => second < entry.1) = kept := by
      rw [List.filter_eq_self]
      intro entry member
      have := between entry member
      simp only [decide_eq_true_eq]
      omega
    rw [logged, flagless quiet, List.append_nil, List.filter_append, none, all, List.nil_append,
      wanted]

def shiftedGarbage : List Bool :=
  flagBits ++ [false, false, false, true, true, true, true, true]

def bitSymbols (bits : List Bool) : List UInt8 := bits.map fun bit => if bit then 1 else 0

theorem hdlc_self_synchronises_shifted :
    let line := shiftedGarbage ++
      (flagBits ++ (lineBits [some [0x41]] ++ flagBits) ++ List.replicate 18 false)
    let log := receiveAt [(1, bitSymbols line)] modemHdlcStart 0
    (log.filter fun entry => 24 < entry.1).map (fun entry => entry.2.content) =
      [(1, [0x41])] := by
  intro line log
  have sized : ∀ text : List UInt8, some text ∈ [some [0x41]] →
      1 ≤ text.length ∧ text.length ≤ 510 := by
    intro text member
    rw [List.mem_singleton] at member
    cases member
    decide
  have synced := hdlc_self_synchronises shiftedGarbage (List.replicate 18 false) [some [0x41]]
    sized [(1, bitSymbols line)] (by decide) (by decide +kernel) (by decide)
  exact synced.2.2 (by decide +kernel)

end Runs

end DModem.Hdlc
