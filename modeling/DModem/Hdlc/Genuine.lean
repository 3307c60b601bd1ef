/-
Every frame that is delivered stands on the line.

Whatever is received, the octets of the receive frame are those that were stuffed into the bits
since the flag that was recognised last, as long as there has been no error.  A frame that is
delivered is what stands between that flag and the next one.
-/

import DModem.Hdlc.SelfSync

namespace DModem.Hdlc

open DModem.Lib

/-! ### Flags and frames of a line -/

def FlagAt (line : List Bool) (place : Nat) : Prop :=
  8 ≤ place ∧ (line.take place).drop (place - 8) = flagBits

def between (line : List Bool) (start stop : Nat) : List Bool := (line.take stop).drop start

/-- A frame is made of what stands between two flags that are recognised one after the other, the
second of which ends at `closing`. -/
structure Genuine (line : List Bool) (flags : List Nat) (closing : Nat) (frame : Frame) :
    Prop where
  opening : ∃ front back opening octets, flags = front ++ opening :: closing :: back ∧
    FlagAt line opening ∧ FlagAt line closing ∧ opening + 8 ≤ closing ∧
    between line opening (closing - 8) = stuff 0 (bitsOf octets) ∧
    unstuff 0 (between line opening (closing - 8)) = bitsOf octets ∧
    ¬ List.replicate 6 true <:+: between line opening (closing - 8) ∧
    octets = frame.buf.take (frame.count + 2) ∧ octets.length = frame.count + 2 ∧
    fcsOf octets = goodFcs
  few : 1 ≤ frame.count
  many : frame.count ≤ 510

/-- The number of bits of the line up to the end of the flag that a symbol makes the receiver
recognise. -/
def flagHeard (nbits : Nat) (symbol : UInt8) (h : HdlcState) (fed : Nat) : Option Nat :=
  if (h.pushSymbol nbits symbol).unpack.bit < 8 + 8 + 2 then none
  else
    match HdlcState.takeChar 8 (h.pushSymbol nbits symbol) 0 with
    | (h, .flag _) => some (fed + nbits - h.unpack.bit)
    | (_, .char _) => none

def flagsOfCall (nbits : Nat) : List UInt8 → HdlcState → Nat → List Nat
  | [], _, _ => []
  | symbol :: rest, h, fed =>
      (flagHeard nbits symbol h fed).toList ++
        flagsOfCall nbits rest (h.putSymbol nbits symbol).1 (fed + nbits)

/-- The flags that calls of `modem_hdlc_put_bits` recognise. -/
def flagsHeard : List (Nat × List UInt8) → HdlcState → Nat → List Nat
  | [], _, _ => []
  | call :: rest, h, fed =>
      flagsOfCall call.1 call.2 h fed ++
        flagsHeard rest (HdlcState.modemHdlcPutBits call.1 call.2 h).1
          (fed + call.2.length * call.1)

theorem Genuine.later {line : List Bool} {flags : List Nat} {closing : Nat} {frame : Frame}
    (genuine : Genuine line flags closing frame) (more : List Nat) :
    Genuine line (flags ++ more) closing frame := by
  obtain ⟨front, back, opening, octets, split, rest⟩ := genuine.opening
  refine ⟨⟨front, back ++ more, opening, octets, ?_, rest⟩, genuine.few, genuine.many⟩
  rw [split, List.append_assoc]
  rfl

/-! ### Bits since the last flag -/

/-- The octets and the bits of the next one that have been taken since the flag that ends at
`start`. -/
structure Gathered (line : List Bool) (start : Nat) (octets : List UInt8) (bits : List Bool)
    (h : HdlcState) (pos : Nat) : Prop where
  clean : h.rxError = 0
  behind : start ≤ pos
  gap : between line start pos = stuff 0 (bitsOf octets ++ bits)
  ones : h.rxOnes = onesAfter 0 (bitsOf octets ++ bits)
  count : h.rxFrame.count = octets.length
  stored : h.rxFrame.buf.take octets.length = octets
  fcs : h.rxFrame.fcs = fcsOf octets

section Gathering

open HdlcState

variable {line fed : List Bool} {start pos : Nat} {octets : List UInt8} {bits : List Bool}
  {h : HdlcState}

theorem between_more (k : Nat) (behind : start ≤ pos) (inside : pos ≤ line.length) :
    between line start (pos + k) = between line start pos ++ (line.drop pos).take k := by
  have enough : start ≤ (line.take pos).length := by
    rw [List.length_take]
    omega
  rw [between, between, List.take_add, List.drop_append_of_le_length enough]

theorem Placed.inside (placed : Placed line fed pos h) : pos + h.unpack.bit ≤ line.length := by
  have lengthEq := placed.length
  have within := placed.onLine.length_le
  omega

theorem Placed.two (placed : Placed line fed pos h) (enough : 8 ≤ h.unpack.bit) :
    ∃ first second rest, line.drop pos = first :: second :: rest := by
  have inside := placed.inside
  rcases ahead : line.drop pos with _ | ⟨first, _ | ⟨second, rest⟩⟩
  · have lengths := congrArg List.length ahead
    rw [List.length_drop, List.length_nil] at lengths
    omega
  · have lengths := congrArg List.length ahead
    rw [List.length_drop, List.length_singleton] at lengths
    omega
  · exact ⟨first, second, rest, rfl⟩

theorem Gathered.bit {bit : Bool} {h' : HdlcState}
    (gathered : Gathered line start octets bits h pos) (k : Nat) (inside : pos ≤ line.length)
    (taken : (line.drop pos).take k = stuff h.rxOnes [bit])
    (clean : h'.rxError = h.rxError) (frame : h'.rxFrame = h.rxFrame)
    (ones : h'.rxOnes = onesAfter h.rxOnes [bit]) :
    Gathered line start octets (bits ++ [bit]) h' (pos + k) := by
  constructor
  · exact clean.trans gathered.clean
  · exact Nat.le_add_right_of_le gathered.behind
  · rw [between_more k gathered.behind inside, gathered.gap, taken, gathered.ones,
      ← List.append_assoc, stuff_append 0 (bitsOf octets ++ bits)]
  · rw [ones, gathered.ones, ← List.append_assoc, onesAfter_append 0 (bitsOf octets ++ bits)]
  · rw [frame, gathered.count]
  · rw [frame, gathered.stored]
  · rw [frame, gathered.fcs]

theorem Gathered.advance (gathered : Gathered line start octets bits h pos)
    (placed : Placed line fed pos h) (enough : 8 ≤ h.unpack.bit) :
    h.advance.rxError ≠ 0 ∨
      ∃ bit, Gathered line start octets (bits ++ [bit]) h.advance (pos + h.width) ∧
        ∀ out, shiftIn out h.lookAhead = shiftBit out bit := by
  have inside := placed.inside
  obtain ⟨first, second, rest, ahead⟩ := placed.two enough
  have top := placed.top enough ahead
  have next := placed.second enough ahead
  have shows : ∀ out, shiftIn out h.lookAhead = shiftBit out first := by
    intro out
    unfold shiftIn shiftBit
    simp only [top_bit, top]
  rcases advance_cases h with
    ⟨error, _, _⟩ | ⟨_, low, width, same⟩ | ⟨_, high, few, width, same⟩ |
      ⟨_, high, full, zero, width, same⟩ | ⟨clean, _, _, _, _, same⟩
  · exact absurd gathered.clean error
  · rw [top] at low
    subst low
    refine Or.inr ⟨false, ?_, shows⟩
    rw [width]
    apply gathered.bit 1 (by omega)
    · rw [ahead]
      rfl
    · rw [same]
    · rw [same]
    · rw [same]
      rfl
  · rw [top] at high
    subst high
    refine Or.inr ⟨true, ?_, shows⟩
    rw [width]
    apply gathered.bit 1 (by omega)
    · rw [ahead]
      simp [stuff, few]
    · rw [same]
    · rw [same]
    · rw [same]
      simp [onesAfter, few]
  · rw [top] at high
    rw [next] at zero
    subst high zero
    refine Or.inr ⟨true, ?_, shows⟩
    rw [width]
    apply gathered.bit 2 (by omega)
    · rw [ahead]
      simp [stuff, full]
    · rw [same]
    · rw [same]
    · rw [same]
      simp [onesAfter, full]
  · left
    rw [same]
    simp

/-! ### A character -/

inductive Lost (line fed : List Bool) (result : HdlcState × Taken) : Prop where
  | flag (h : HdlcState) (pos i : Nat) (error : h.rxError ≠ 0)
      (placed : Placed line fed pos h) (tame : h.Tame) (enough : 8 ≤ h.unpack.bit)
      (seen : h.lookAhead = hdlcFlag)
      (same : result = (h.finishFrame, .flag (h.finishedFrame i)))
  | char (h : HdlcState) (pos : Nat) (out : BitVec 8) (error : h.rxError ≠ 0)
      (placed : Placed line fed pos h) (tame : h.Tame) (same : result = (h, .char out))

inductive Ended (line fed : List Bool) (start : Nat) (octets : List UInt8)
    (result : HdlcState × Taken) : Prop where
  | flag (h : HdlcState) (pos : Nat) (bits : List Bool)
      (gathered : Gathered line start octets bits h pos) (placed : Placed line fed pos h)
      (tame : h.Tame) (enough : 8 ≤ h.unpack.bit) (seen : h.lookAhead = hdlcFlag)
      (same : result = (h.finishFrame, .flag (h.finishedFrame bits.length)))
  | octet (h : HdlcState) (pos : Nat) (bits : List Bool)
      (gathered : Gathered line start octets bits h pos) (placed : Placed line fed pos h)
      (tame : h.Tame) (whole : bits.length = 8)
      (same : result = (h, .char (bits.foldl shiftBit 0)))
  | lost (lost : Lost line fed result)

theorem ended_lost (error : h.rxError ≠ 0) (left : Nat) (out : BitVec 8)
    (placed : Placed line fed pos h) (tame : h.Tame)
    (room : left + (h.rxOnes + left) / 5 + 8 ≤ h.unpack.bit) :
    Lost line fed (takeChar left h out) := by
  have stays : ∀ (h : HdlcState) (pos : Nat), h.rxError ≠ 0 → Placed line fed pos h → h.Tame →
      8 ≤ h.unpack.bit → h.lookAhead ≠ hdlcFlag → h.advance.rxError ≠ 0 := by
    intro h pos error _ _ _ _
    unfold HdlcState.advance
    rw [if_pos error]
    exact error
  rcases takeChar_walk (fun h _ => h.rxError ≠ 0) stays left h out pos error placed tame room with
    ⟨h₁, pos₁, i, error₁, placed₁, tame₁, enough₁, _, flag, ended⟩ |
    ⟨h₁, pos₁, out₁, error₁, placed₁, tame₁, _, ended⟩
  · exact .flag h₁ pos₁ i error₁ placed₁ tame₁ enough₁ flag ended
  · exact .char h₁ pos₁ out₁ error₁ placed₁ tame₁ ended

theorem Gathered.takeChar (gathered : Gathered line start octets bits h pos)
    (placed : Placed line fed pos h) (tame : h.Tame) (left : Nat)
    (total : bits.length + left = 8)
    (room : left + (h.rxOnes + left) / 5 + 8 ≤ h.unpack.bit) :
    Ended line fed start octets (takeChar left h (bits.foldl shiftBit 0)) := by
  induction left generalizing h pos bits with
  | zero => exact .octet h pos bits gathered placed tame total rfl
  | succ left ih =>
      have enough : 8 ≤ h.unpack.bit := by omega
      rw [HdlcState.takeChar]
      change Ended line fed start octets (if h.lookAhead = hdlcFlag then _ else _)
      by_cases flag : h.lookAhead = hdlcFlag
      · rw [if_pos flag]
        have taken : 8 - (left + 1) = bits.length := by omega
        rw [taken]
        exact .flag h pos bits gathered placed tame enough flag rfl
      · have next : h.advance = h.takeBit h.lookAhead := by
          unfold HdlcState.advance
          rw [if_neg (not_not_intro gathered.clean)]
        rw [if_neg flag, if_neg (not_not_intro gathered.clean)]
        change Ended line fed start octets
          (HdlcState.takeChar left (h.takeBit h.lookAhead) (shiftIn _ h.lookAhead))
        rw [← next]
        have further := placed.advance enough
        have later := advance_room tame room
        cases gathered.advance placed enough with
        | inl error => exact .lost (ended_lost error left _ further (advance_tame tame) later)
        | inr more =>
            obtain ⟨bit, grown, shows⟩ := more
            have again := ih grown further (advance_tame tame)
              (by rw [List.length_append, List.length_singleton]; omega) later
            rw [List.foldl_append] at again
            rw [shows]
            exact again

theorem octetBits_foldl (whole : bits.length = 8) :
    octetBits (UInt8.ofBitVec (bits.foldl shiftBit 0)) = bits := by
  have all : ∀ a b c d e f g i : Bool,
      bitsUp 8 ([a, b, c, d, e, f, g, i].foldl shiftBit 0) = [a, b, c, d, e, f, g, i] := by
    decide +kernel
  rcases bits with _ | ⟨a, _ | ⟨b, _ | ⟨c, _ | ⟨d, _ | ⟨e, _ | ⟨f, _ | ⟨g, _ | ⟨i, rest⟩⟩⟩⟩⟩⟩⟩⟩
  all_goals simp only [List.length_nil, List.length_cons] at whole
  all_goals try omega
  have none : rest = [] := List.eq_nil_of_length_eq_zero (by omega)
  subst none
  exact all a b c d e f g i

theorem Gathered.finishChar (gathered : Gathered line start octets bits h pos) (tame : h.Tame)
    (whole : bits.length = 8) :
    let c := UInt8.ofBitVec (bits.foldl shiftBit 0)
    (h.finishChar c).rxError ≠ 0 ∨
      Gathered line start (octets ++ [c]) [] (h.finishChar c) pos := by
  intro c
  have octet : octetBits c = bits := octetBits_foldl whole
  have all : bitsOf (octets ++ [c]) ++ [] = bitsOf octets ++ bits := by
    rw [List.append_nil, bitsOf_append, ← octet]
    simp [bitsOf]
  unfold HdlcState.finishChar
  rw [if_neg (not_not_intro gathered.clean)]
  by_cases room : h.rxFrame.count < h.rxFrame.size
  · rw [if_pos room]
    right
    have stored : octets.length < h.rxFrame.buf.length := by
      rw [tame.buffer, ← tame.size, ← gathered.count]
      exact room
    constructor
    · exact gathered.clean
    · exact gathered.behind
    · rw [all]
      exact gathered.gap
    · rw [all]
      exact gathered.ones
    · simp [gathered.count]
    · simp only [List.length_append, List.length_cons, List.length_nil, gathered.count]
      rw [List.take_succ_eq_append_getElem (by simpa using stored),
        List.take_set_of_le (Nat.le_refl _), gathered.stored, List.getElem_set_self]
    · simp only [gathered.fcs, fcsOf, List.foldl_append, List.foldl_cons, List.foldl_nil]
  · rw [if_neg room]
    left
    simp

/-! ### Flags -/

theorem Placed.flagAt (placed : Placed line fed pos h) (enough : 8 ≤ h.unpack.bit)
    (seen : h.lookAhead = hdlcFlag) : FlagAt line (pos + 8) := by
  have flag := (placed.flag enough).mp seen
  have inside := placed.inside
  constructor
  · omega
  · rw [Nat.add_sub_cancel, List.take_add, List.drop_append_of_le_length (by
      rw [List.length_take]; omega), List.drop_eq_nil_of_le (by rw [List.length_take]; omega),
      List.nil_append]
    exact (List.prefix_iff_eq_take.mp flag).symm

theorem gathered_start (line : List Bool) (start : Nat) (h : HdlcState) :
    Gathered line start [] [] h.finishFrame start := by
  constructor
  · rfl
  · exact Nat.le_refl start
  · rw [between, List.drop_eq_nil_of_le (by rw [List.length_take]; omega)]
    rfl
  · rfl
  · rfl
  · rfl
  · rfl

theorem finishedFrame_eq {i : Nat} {frame : Frame} (finished : h.finishedFrame i = some frame) :
    i = 0 ∧ h.rxError = 0 ∧ 3 ≤ h.rxFrame.count ∧ h.rxFrame.fcs = goodFcs ∧
      frame = { h.rxFrame with count := h.rxFrame.count - 2 } := by
  unfold finishedFrame at finished
  split_ifs at finished with empty error partial_ short fcs
  cases finished
  exact ⟨not_not.mp partial_, not_not.mp error, by omega, not_not.mp fcs, rfl⟩

theorem Gathered.genuine {frame : Frame} {front : List Nat}
    (gathered : Gathered line start octets bits h pos) (tame : h.Tame)
    (placed : Placed line fed pos h) (enough : 8 ≤ h.unpack.bit)
    (seen : h.lookAhead = hdlcFlag) (opened : FlagAt line start)
    (finished : h.finishedFrame bits.length = some frame) :
    Genuine line (front ++ [start] ++ [pos + 8]) (pos + 8) frame := by
  obtain ⟨none, -, some_, good, frameEq⟩ := finishedFrame_eq finished
  obtain rfl : bits = [] := List.eq_nil_of_length_eq_zero none
  have behind := gathered.behind
  have count := gathered.count
  have gap := gathered.gap
  rw [List.append_nil] at gap
  have limit : h.rxFrame.count ≤ 512 := by
    have held := congrArg List.length gathered.stored
    rw [List.length_take, tame.buffer] at held
    omega
  have length : frame.count + 2 = octets.length := by
    rw [frameEq]
    dsimp only
    omega
  have stored : frame.buf.take (frame.count + 2) = octets := by
    rw [length, frameEq]
    exact gathered.stored
  constructor
  · refine ⟨front, [], start, octets, by simp, opened, placed.flagAt enough seen, by omega, ?_, ?_,
      ?_, stored.symm, length.symm, ?_⟩
    · rw [Nat.add_sub_cancel]
      exact gap
    · rw [Nat.add_sub_cancel, gap]
      exact unstuff_stuff (Nat.zero_le 4) (bitsOf octets)
    · rw [Nat.add_sub_cancel, gap]
      exact stuff_never_six (Nat.zero_le 4) (bitsOf octets)
    · rw [← gathered.fcs]
      exact good
  · omega
  · omega

end Gathering

/-! ### Runs -/

/-- The receiver has been fed `fed` of the line and has recognised `flags`. -/
structure Heard (line fed : List Bool) (flags : List Nat) (h : HdlcState) : Prop where
  place : ∃ pos, Placed line fed pos h ∧
    (h.rxError = 0 → ∃ front start octets, flags = front ++ [start] ∧ FlagAt line start ∧
      Gathered line start octets [] h pos)
  tame : h.Tame
  low : h.unpack.bit ≤ 17

section Runs

open HdlcState

variable {line fed : List Bool} {flags : List Nat} {pos nbits : Nat} {symbol : UInt8}
  {h h' : HdlcState} {frame : Option Frame}

theorem flagHeard_few (few : (h.pushSymbol nbits symbol).unpack.bit < 18) (count : Nat) :
    flagHeard nbits symbol h count = none := if_pos few

theorem flagHeard_flag (enough : 18 ≤ (h.pushSymbol nbits symbol).unpack.bit)
    (ended : takeChar 8 (h.pushSymbol nbits symbol) 0 = (h', .flag frame)) (count : Nat) :
    flagHeard nbits symbol h count = some (count + nbits - h'.unpack.bit) := by
  unfold flagHeard
  rw [if_neg (by omega), ended]

theorem flagHeard_char {out : BitVec 8} (enough : 18 ≤ (h.pushSymbol nbits symbol).unpack.bit)
    (ended : takeChar 8 (h.pushSymbol nbits symbol) 0 = (h', .char out)) (count : Nat) :
    flagHeard nbits symbol h count = none := by
  unfold flagHeard
  rw [if_neg (by omega), ended]

theorem takeChar_low (placed : Placed line fed pos h) (tame : h.Tame)
    (enough : 18 ≤ h.unpack.bit) (bound : h.unpack.bit ≤ 25) :
    (takeChar 8 h 0).1.unpack.bit ≤ 17 := by
  have few := tame.ones
  rcases takeChar_walk (fun _ _ => True) (fun _ _ _ _ _ _ _ => trivial) 8 h 0 pos trivial placed
      tame (by omega) with
    ⟨h₁, pos₁, i, -, -, -, enough₁, less, -, ended⟩ | ⟨h₁, pos₁, out, -, -, -, less, ended⟩
  · rw [ended]
    simp only [HdlcState.finishFrame]
    omega
  · rw [ended]
    dsimp only
    omega

theorem finishChar_unpack (h : HdlcState) (out : UInt8) : (h.finishChar out).unpack = h.unpack := by
  unfold HdlcState.finishChar
  split_ifs
  · rfl
  · rfl
  · rfl

/-- What a symbol comes to: the receiver behind it, the flag if one is recognised, and the frames
that are delivered. -/
def Step (line fed : List Bool) (flags : List Nat) (nbits : Nat) (symbol : UInt8)
    (h : HdlcState) (count : Nat) : Prop :=
  Heard line fed (flags ++ (flagHeard nbits symbol h count).toList) (h.putSymbol nbits symbol).1 ∧
    ∀ frame ∈ (h.putSymbol nbits symbol).2,
      Genuine line (flags ++ (flagHeard nbits symbol h count).toList)
        (count + nbits - (h.putSymbol nbits symbol).1.unpack.bit) frame

theorem step_flag {count i : Nat} {h₁ : HdlcState} (counted : fed.length = count + nbits)
    (enough : 18 ≤ (h.pushSymbol nbits symbol).unpack.bit) (placed : Placed line fed pos h₁)
    (tame : h₁.Tame) (ahead : 8 ≤ h₁.unpack.bit) (seen : h₁.lookAhead = hdlcFlag)
    (ended : takeChar 8 (h.pushSymbol nbits symbol) 0 =
      (h₁.finishFrame, .flag (h₁.finishedFrame i)))
    (low : h₁.finishFrame.unpack.bit ≤ 17)
    (genuine : ∀ frame, h₁.finishedFrame i = some frame →
      Genuine line (flags ++ [pos + 8]) (pos + 8) frame) :
    Step line fed flags nbits symbol h count := by
  have finished := placed.finishFrame ahead
  have tag : count + nbits - h₁.finishFrame.unpack.bit = pos + 8 := by
    rw [← counted]
    exact finished.tag
  unfold Step
  rw [flagHeard_flag enough ended, putSymbol_flag enough ended, tag]
  constructor
  · constructor
    · exact ⟨pos + 8, finished, fun _ => ⟨flags, pos + 8, [], rfl, placed.flagAt ahead seen,
        gathered_start line (pos + 8) h₁⟩⟩
    · exact tame.finishFrame
    · exact low
  · intro frame member
    exact genuine frame (Option.mem_toList.mp member)

theorem step_char {count : Nat} {h₁ : HdlcState} {out : BitVec 8}
    (enough : 18 ≤ (h.pushSymbol nbits symbol).unpack.bit) (placed : Placed line fed pos h₁)
    (tame : h₁.Tame) (ended : takeChar 8 (h.pushSymbol nbits symbol) 0 = (h₁, .char out))
    (low : h₁.unpack.bit ≤ 17)
    (gathering : (h₁.finishChar (UInt8.ofBitVec out)).rxError = 0 → ∃ front start octets,
      flags = front ++ [start] ∧ FlagAt line start ∧
        Gathered line start octets [] (h₁.finishChar (UInt8.ofBitVec out)) pos) :
    Step line fed flags nbits symbol h count := by
  unfold Step
  rw [flagHeard_char enough ended, putSymbol_char enough ended]
  simp only [Option.toList_none, List.append_nil]
  constructor
  · constructor
    · exact ⟨pos, placed.finishChar _, gathering⟩
    · exact tame.finishChar _
    · rw [finishChar_unpack]
      exact low
  · intro frame absent
    cases absent

theorem step_lost {count : Nat} (counted : fed.length = count + nbits)
    (enough : 18 ≤ (h.pushSymbol nbits symbol).unpack.bit)
    (low : (takeChar 8 (h.pushSymbol nbits symbol) 0).1.unpack.bit ≤ 17)
    (lost : Lost line fed (takeChar 8 (h.pushSymbol nbits symbol) 0)) :
    Step line fed flags nbits symbol h count := by
  cases lost with
  | flag h₁ pos i error placed tame ahead seen same =>
      rw [same] at low
      apply step_flag counted enough placed tame ahead seen same low
      intro frame finished
      exact absurd (finishedFrame_eq finished).2.1 error
  | char h₁ pos out error placed tame same =>
      rw [same] at low
      apply step_char enough placed tame same low
      intro clean
      have still : (h₁.finishChar (UInt8.ofBitVec out)) = h₁ := by
        unfold HdlcState.finishChar
        rw [if_pos error]
      rw [still] at clean
      exact absurd clean error

theorem step_taken {count : Nat} (counted : fed.length = count + nbits)
    (placed : Placed line fed pos (h.pushSymbol nbits symbol))
    (tame : (h.pushSymbol nbits symbol).Tame)
    (enough : 18 ≤ (h.pushSymbol nbits symbol).unpack.bit)
    (bound : (h.pushSymbol nbits symbol).unpack.bit ≤ 25)
    (gathering : (h.pushSymbol nbits symbol).rxError = 0 → ∃ front start octets,
      flags = front ++ [start] ∧ FlagAt line start ∧
        Gathered line start octets [] (h.pushSymbol nbits symbol) pos) :
    Step line fed flags nbits symbol h count := by
  have few := tame.ones
  have low := takeChar_low placed tame enough bound
  by_cases clean : (h.pushSymbol nbits symbol).rxError = 0
  · obtain ⟨front, start, octets, split, opened, gathered⟩ := gathering clean
    cases gathered.takeChar placed tame 8 rfl (by omega) with
    | flag h₁ pos₁ bits gathered₁ placed₁ tame₁ ahead seen same =>
        rw [List.foldl_nil] at same
        rw [same] at low
        apply step_flag counted enough placed₁ tame₁ ahead seen same low
        intro frame finished
        rw [split]
        exact gathered₁.genuine tame₁ placed₁ ahead seen opened finished
    | octet h₁ pos₁ bits gathered₁ placed₁ tame₁ whole same =>
        rw [List.foldl_nil] at same
        rw [same] at low
        apply step_char enough placed₁ tame₁ same low
        intro stillClean
        cases gathered₁.finishChar tame₁ whole with
        | inl error => exact absurd stillClean error
        | inr grown => exact ⟨front, start, _, split, opened, grown⟩
    | lost lost => exact step_lost counted enough low lost
  · exact step_lost counted enough low (ended_lost clean 8 0 placed tame (by omega))

theorem Heard.putSymbol (heard : Heard line fed flags h) (small : nbits ≤ 8) (symbol : UInt8)
    (onLine : fed ++ symbolBits nbits symbol <+: line) :
    Step line (fed ++ symbolBits nbits symbol) flags nbits symbol h fed.length := by
  obtain ⟨pos, placed, gathering⟩ := heard.place
  have low := heard.low
  have pushed := placed.push low small symbol onLine
  have bit : (h.pushSymbol nbits symbol).unpack.bit = h.unpack.bit + nbits := rfl
  have tame : (h.pushSymbol nbits symbol).Tame := { heard.tame with }
  have stays : (h.pushSymbol nbits symbol).rxError = 0 → ∃ front start octets,
      flags = front ++ [start] ∧ FlagAt line start ∧
        Gathered line start octets [] (h.pushSymbol nbits symbol) pos := by
    intro clean
    obtain ⟨front, start, octets, split, opened, gathered⟩ := gathering clean
    exact ⟨front, start, octets, split, opened, { gathered with }⟩
  by_cases enough : 18 ≤ (h.pushSymbol nbits symbol).unpack.bit
  · apply step_taken _ pushed tame enough (by omega) stays
    rw [List.length_append, symbolBits, window_length]
  · have few : (h.pushSymbol nbits symbol).unpack.bit < 18 := by omega
    unfold Step
    rw [flagHeard_few few, putSymbol_few symbol few]
    simp only [Option.toList_none, List.append_nil]
    constructor
    · constructor
      · exact ⟨pos, pushed, stays⟩
      · exact tame
      · omega
    · intro frame absent
      cases absent

theorem Heard.putBits (heard : Heard line fed flags h) (small : nbits ≤ 8) (symbols : List UInt8)
    (onLine : fed ++ symbols.flatMap (symbolBits nbits) <+: line) :
    Heard line (fed ++ symbols.flatMap (symbolBits nbits))
        (flags ++ flagsOfCall nbits symbols h fed.length)
        (modemHdlcPutBits nbits symbols h).1 ∧
      ∀ entry ∈ putBitsAt nbits symbols h fed.length,
        Genuine line (flags ++ flagsOfCall nbits symbols h fed.length) entry.1 entry.2 := by
  induction symbols generalizing fed flags h with
  | nil =>
      simp only [List.flatMap_nil, List.append_nil, flagsOfCall, modemHdlcPutBits, putBitsAt]
      constructor
      · exact heard
      · intro entry absent
        cases absent
  | cons symbol rest ih =>
      rw [List.flatMap_cons, ← List.append_assoc] at onLine
      obtain ⟨next, delivered⟩ :=
        heard.putSymbol small symbol ((List.prefix_append _ _).trans onLine)
      obtain ⟨last, later⟩ := ih next onLine
      have length : (fed ++ symbolBits nbits symbol).length = fed.length + nbits := by
        rw [List.length_append, symbolBits, window_length]
      rw [length, List.append_assoc, List.append_assoc, ← List.flatMap_cons] at last
      rw [length, List.append_assoc] at later
      constructor
      · exact last
      · intro entry member
        rw [putBitsAt] at member
        cases List.mem_append.mp member with
        | inl now =>
            obtain ⟨frame, delivers, rfl⟩ := List.mem_map.mp now
            have genuine := (delivered frame delivers).later
              (flagsOfCall nbits rest (h.putSymbol nbits symbol).1 (fed.length + nbits))
            rw [List.append_assoc] at genuine
            exact genuine
        | inr after => exact later entry after

theorem Heard.receive (heard : Heard line fed flags h) (calls : List (Nat × List UInt8))
    (sizes : ∀ call ∈ calls, 1 ≤ call.1 ∧ call.1 ≤ 8) (onLine : fed ++ fedBits calls <+: line) :
    ∀ entry ∈ receiveAt calls h fed.length,
      Genuine line (flags ++ flagsHeard calls h fed.length) entry.1 entry.2 := by
  induction calls generalizing fed flags h with
  | nil =>
      intro entry absent
      cases absent
  | cons call rest ih =>
      rw [fedBits, List.flatMap_cons, ← List.append_assoc] at onLine
      have size := sizes call List.mem_cons_self
      obtain ⟨next, delivered⟩ :=
        heard.putBits size.2 call.2 ((List.prefix_append _ _).trans onLine)
      have later := ih next (fun other member => sizes other (List.mem_cons_of_mem call member))
        onLine
      have length : (fed ++ call.2.flatMap (symbolBits call.1)).length =
          fed.length + call.2.length * call.1 := by
        rw [List.length_append, List.length_flatMap]
        simp [symbolBits, window_length]
      rw [length, List.append_assoc] at later
      intro entry member
      rw [receiveAt] at member
      cases List.mem_append.mp member with
      | inl now =>
          have genuine := (delivered entry now).later (flagsHeard rest
            (modemHdlcPutBits call.1 call.2 h).1 (fed.length + call.2.length * call.1))
          rw [List.append_assoc] at genuine
          exact genuine
      | inr after => exact later entry after

theorem heard_start (line : List Bool) : Heard line [] [] modemHdlcStart := by
  constructor
  · refine ⟨0, ⟨List.nil_prefix, rfl, rfl⟩, fun clean => ?_⟩
    cases clean
  · exact
      { ones := Nat.zero_le 4
        empty := fun _ => rfl
        size := rfl
        buffer := List.length_replicate }
  · exact Nat.zero_le 17

end Runs

/-- **Genuine frames.** Whatever bits are received, in calls with any symbol sizes, each frame
that is delivered has 1 to 510 octets, and it and the two octets behind it pass the check and are
what stands stuffed between two flags that were recognised one after the other. -/
theorem hdlc_frames_genuine (calls : List (Nat × List UInt8))
    (sizes : ∀ call ∈ calls, 1 ≤ call.1 ∧ call.1 ≤ 8) :
    (receiveAt calls modemHdlcStart 0).map Prod.snd = (receive calls modemHdlcStart).2 ∧
      ∀ entry ∈ receiveAt calls modemHdlcStart 0,
        Genuine (fedBits calls) (flagsHeard calls modemHdlcStart 0) entry.1 entry.2 := by
  constructor
  · exact receiveAt_frames calls modemHdlcStart 0
  · exact (heard_start (fedBits calls)).receive calls sizes (List.prefix_refl _)

/-- A flag, the frame of one octet with its check sequence, a flag and what delays the delivery,
in symbols of one bit. -/
def genuineLine : List Bool :=
  flagBits ++ (lineBits [some [0x41]] ++ flagBits) ++ List.replicate 18 false

theorem hdlc_frames_genuine_one :
    ∃ entry, receiveAt [(1, bitSymbols genuineLine)] modemHdlcStart 0 = [entry] ∧
      entry.2.content = (1, [0x41]) ∧
      Genuine (fedBits [(1, bitSymbols genuineLine)])
        (flagsHeard [(1, bitSymbols genuineLine)] modemHdlcStart 0) entry.1 entry.2 := by
  have genuine := hdlc_frames_genuine [(1, bitSymbols genuineLine)] (by decide)
  have one : (receiveAt [(1, bitSymbols genuineLine)] modemHdlcStart 0).map
      (fun entry => entry.2.content) = [(1, [0x41])] := by
    decide +kernel
  obtain ⟨entry, only, content⟩ := List.map_eq_singleton_iff.mp one
  refine ⟨entry, only, content, genuine.2 entry ?_⟩
  rw [only]
  exact List.mem_singleton_self entry

end DModem.Hdlc
