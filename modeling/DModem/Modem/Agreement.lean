/-
The detection phase of two modems that are connected.

A pattern is a start bit and eight bits, and the marks behind it are its stop bit.  The
originator is answered only when its pattern was heard, and each end recognises the other with
the third pattern that it hears: the first is the second half of a pair.
-/

import DModem.Async.RoundTrip
import DModem.Modem.Detect

namespace DModem

open Lib
open Hdlc (BitsState symbolBits)
open Async (Receiving asyncLine asyncLine_append asyncLine_stops charsOf charsOf_append
  charsOf_stops symbolOf)

namespace Modem

/-! ### Characters of the detector -/

def mirror (c : UInt8) : UInt8 := UInt8.ofBitVec (Async.reverseBits c.toBitVec)

theorem mirror_mirror (c : UInt8) : mirror (mirror c) = c := by
  unfold mirror
  rw [UInt8.toBitVec_ofBitVec, Async.reverseBits_reverseBits, UInt8.ofBitVec_toBitVec]

theorem skipMarks_eq (data : BitVec 32) (bit : Nat) :
    skipMarks data bit = Async.dropStops data bit := by
  induction bit with
  | zero => rfl
  | succ bit ih =>
      rw [skipMarks, Async.dropStops, ih]
      by_cases within : bit < 32
      · simp only [Async.top_set data within]
      · have beyond : data.getLsbD bit = false := BitVec.getLsbD_of_ge data bit (by omega)
        have gone : 0x1#32 <<< bit = 0 := BitVec.shiftLeft_eq_zero (by omega)
        simp [beyond, gone]

theorem masked_eq {nbits : Nat} (small : nbits ≤ 8) (symbol : BitVec 8) :
    symbol.setWidth 32 &&& BitVec.ofNat 32 (2 ^ nbits - 1) =
      (symbol &&& BitVec.ofNat 8 (2 ^ nbits - 1)).setWidth 32 := by
  have every : ∀ n : Fin 9, ∀ b : BitVec 8,
      b.setWidth 32 &&& BitVec.ofNat 32 (2 ^ n.val - 1) =
        (b &&& BitVec.ofNat 8 (2 ^ n.val - 1)).setWidth 32 := by
    decide +kernel
  exact every ⟨nbits, by omega⟩ symbol

def hear (m : Modem) (chars : List UInt8) : Modem :=
  chars.foldl (fun m c => m.detectorChar (mirror c)) m

theorem detectorChars_eq (rounds : Nat) (m : Modem) (s : BitsState) :
    detectorChars rounds m s =
      (m.hear (Async.takeChars rounds s).2, (Async.takeChars rounds s).1) := by
  induction rounds generalizing m s with
  | zero => rfl
  | succ rounds ih =>
      rw [detectorChars, Async.takeChars]
      by_cases enough : 10 ≤ s.bit
      · rw [if_pos enough, if_pos (show Async.charSize ≤ s.bit from enough)]
        simp only [ih, hear, List.foldl_cons]
        have same : mirror (UInt8.ofBitVec (Async.reverseBits
            ((s.data >>> (s.bit - (Async.charSize - Async.stopBits))).setWidth 8))) =
            UInt8.ofBitVec ((s.data >>> (s.bit - 9)).setWidth 8) := by
          unfold mirror
          rw [UInt8.toBitVec_ofBitVec, Async.reverseBits_reverseBits]
          rfl
        rw [same]
        rfl
      · rw [if_neg enough, if_neg (show ¬ Async.charSize ≤ s.bit from enough)]
        rfl

theorem putBits_hear {nbits : Nat} (small : nbits ≤ 8) (m : Modem) (s : BitsState)
    (symbols : List UInt8) :
    modemDetectorPutBits nbits m s symbols =
      (m.hear (Async.modemAsyncPutBits nbits symbols s).2,
        (Async.modemAsyncPutBits nbits symbols s).1) := by
  induction symbols generalizing m s with
  | nil => rfl
  | cons symbol rest ih =>
      have once : detectorSymbol nbits m s symbol =
          (m.hear (Async.putSymbol s nbits symbol).2, (Async.putSymbol s nbits symbol).1) := by
        unfold detectorSymbol Async.putSymbol
        simp only [skipMarks_eq, masked_eq small, detectorChars_eq, Async.pushSymbol]
      rw [modemDetectorPutBits, once, ih, Async.modemAsyncPutBits]
      simp only [hear, List.foldl_append]

/-! ### What is sent -/

/-- The first `n` patterns of a transmitter. -/
def patterns (pair : UInt8 × UInt8) (n : Nat) : List UInt8 :=
  (List.range n).map fun i => mirror (if i % 2 = 0 then pair.2 else pair.1)

theorem patterns_succ (pair : UInt8 × UInt8) (n : Nat) :
    patterns pair (n + 1) =
      patterns pair n ++ [mirror (if n % 2 = 0 then pair.2 else pair.1)] := by
  unfold patterns
  rw [List.range_succ, List.map_append]
  rfl

theorem patterns_length (pair : UInt8 × UInt8) (n : Nat) : (patterns pair n).length = n := by
  unfold patterns
  rw [List.length_map, List.length_range]

theorem patterns_take (pair : UInt8 × UInt8) {k n : Nat} (within : k ≤ n) :
    (patterns pair n).take k = patterns pair k := by
  unfold patterns
  rw [← List.map_take, List.take_range, Nat.min_eq_left within]

/-- The stop bit of the last pattern is the first of the marks that follow. -/
structure Sounding (tokens : List (Option UInt8)) (sent : List Bool) (d : DetectState)
    (s : BitsState) : Prop where
  line : sent ++ s.bits ++ [true] = asyncLine tokens
  chars : charsOf tokens = patterns d.txPattern (d.txCount - 1)

section Transmitter

variable {tokens : List (Option UInt8)} {sent : List Bool} {d : DetectState} {s : BitsState}

theorem marks_bits (room : s.bit ≤ 14) :
    BitsState.bits { bit := s.bit + 9, data := s.data <<< 9 ||| 0x1ff } =
      s.bits ++ List.replicate 9 true := by
  have marks : window (0x1ff : BitVec 32) 9 = List.replicate 9 true := by decide
  have small : ∀ i, 9 ≤ i → (0x1ff : BitVec 32).getLsbD i = false := by
    intro i high
    exact Async.onesMask_small (n := 9) high
  rw [BitsState.bits, window_push s.bit 9 (by omega) small, marks]
  rfl

theorem pattern_bits (pattern : UInt8) (room : s.bit ≤ 23) :
    BitsState.bits
        { bit := s.bit + 9, data := s.data <<< 9 ||| pattern.toBitVec.setWidth 32 } ++ [true] =
      s.bits ++ Async.tokenBits (some (mirror pattern)) := by
  have small : ∀ i, 9 ≤ i → (pattern.toBitVec.setWidth 32).getLsbD i = false := by
    intro i high
    rw [BitVec.getLsbD_setWidth, BitVec.getLsbD_of_ge _ i (by omega), Bool.and_false]
  have every : ∀ p : BitVec 8, window (p.setWidth 32) 9 ++ [true] =
      false :: (Hdlc.bitsUp 8 (Async.reverseBits p) ++ [true]) := by
    decide +kernel
  rw [BitsState.bits, window_push s.bit 9 (by omega) small, List.append_assoc,
    every pattern.toBitVec]
  rfl

theorem Sounding.fill (sounding : Sounding tokens sent d s) (room : s.bit ≤ 14) :
    ∃ more, Sounding (tokens ++ more) sent (detectorFill d s).1 (detectorFill d s).2 := by
  have marked : sent ++ (s.bits ++ List.replicate 9 true) =
      asyncLine tokens ++ List.replicate 8 true := by
    rw [← sounding.line]
    simp only [List.append_assoc]
    rfl
  unfold detectorFill
  simp only
  by_cases loud : 0 < d.txCount
  · rw [if_pos loud]
    refine ⟨List.replicate 8 none ++ [some (mirror (txChar d))], ?_, ?_⟩
    · have pushed := pattern_bits
        (s := { bit := s.bit + 9, data := s.data <<< 9 ||| 0x1ff }) (txChar d)
        (show s.bit + 9 ≤ 23 by omega)
      simp only
      rw [List.append_assoc, pushed, marks_bits room, ← List.append_assoc, marked,
        asyncLine_append, asyncLine_append, asyncLine_stops, List.append_assoc]
      simp [asyncLine]
    · have next : d.txCount + 1 - 1 = (d.txCount - 1) + 1 := by omega
      have turn : txChar d =
          if (d.txCount - 1) % 2 = 0 then d.txPattern.2 else d.txPattern.1 := by
        unfold txChar
        split_ifs <;> first | rfl | omega
      simp only
      rw [charsOf_append, charsOf_append, charsOf_stops, sounding.chars, next, patterns_succ,
        turn]
      rfl
  · rw [if_neg loud]
    refine ⟨List.replicate 9 none, ?_, ?_⟩
    · simp only
      rw [marks_bits room, marked, asyncLine_append, asyncLine_stops, List.append_assoc]
      rfl
    · simp only
      rw [charsOf_append, charsOf_stops, List.append_nil, sounding.chars]

theorem detectorFill_bit (d : DetectState) (s : BitsState) :
    s.bit + 9 ≤ (detectorFill d s).2.bit ∧ (detectorFill d s).2.bit ≤ s.bit + 18 := by
  unfold detectorFill
  simp only
  split
  · simp only
    omega
  · simp only
    omega

theorem detectorFills_eq {nbits : Nat} (some : 1 ≤ nbits) (small : nbits ≤ 8) (d : DetectState)
    (s : BitsState) :
    detectorFills nbits nbits d s = if nbits ≤ s.bit then (d, s) else detectorFill d s := by
  obtain ⟨rounds, rfl⟩ : ∃ rounds, nbits = rounds + 1 := ⟨nbits - 1, by omega⟩
  rw [detectorFills]
  split
  · rfl
  · have filled := detectorFill_bit d s
    simp only
    cases rounds with
    | zero => rfl
    | succ rounds =>
        rw [detectorFills, if_pos (by omega)]

theorem Sounding.takeSymbol (sounding : Sounding tokens sent d s) {nbits : Nat}
    (small : nbits ≤ 8) (full : nbits ≤ s.bit) :
    Sounding tokens (sent ++ symbolBits nbits (symbolOf (s.data >>> (s.bit - nbits)))) d
      { s with bit := s.bit - nbits } := by
  obtain ⟨left, leftEq⟩ : ∃ left, s.bit = left + nbits := ⟨s.bit - nbits, by omega⟩
  constructor
  · have cut : s.bits = window (s.data >>> left) nbits ++ window s.data left := by
      rw [BitsState.bits, leftEq, ← window_take, ← window_drop s.data left nbits,
        List.take_append_drop]
    rw [← sounding.line, Async.symbolOf_bits small, cut, leftEq, Nat.add_sub_cancel,
      List.append_assoc sent]
    rfl
  · exact sounding.chars

theorem Sounding.getBits {nbits : Nat} (some : 1 ≤ nbits) (small : nbits ≤ 8) (bitCnt : Nat)
    (sounding : Sounding tokens sent d s) (low : s.bit ≤ 25) :
    let next := modemDetectorGetBits nbits bitCnt d s
    (∃ more, Sounding (tokens ++ more) (sent ++ next.1.flatMap (symbolBits nbits)) next.2.1
      next.2.2) ∧ next.2.2.bit ≤ 25 := by
  induction bitCnt generalizing tokens sent d s with
  | zero =>
      constructor
      · exact ⟨[], by simpa [modemDetectorGetBits] using sounding⟩
      · exact low
  | succ bitCnt ih =>
      have ready : (∃ more, Sounding (tokens ++ more) sent (detectorFills nbits nbits d s).1
          (detectorFills nbits nbits d s).2) ∧ nbits ≤ (detectorFills nbits nbits d s).2.bit ∧
            (detectorFills nbits nbits d s).2.bit ≤ 25 := by
        rw [detectorFills_eq some small]
        by_cases full : nbits ≤ s.bit
        · rw [if_pos full]
          exact ⟨⟨[], by simpa using sounding⟩, full, low⟩
        · rw [if_neg full]
          have filled := detectorFill_bit d s
          exact ⟨sounding.fill (by omega), by omega, by omega⟩
      simp only [modemDetectorGetBits]
      generalize detectorFills nbits nbits d s = next at ready ⊢
      rcases ready with ⟨⟨first, sounding'⟩, full, low'⟩
      rcases ih (sounding'.takeSymbol small full) (show next.2.bit - nbits ≤ 25 by omega) with
        ⟨⟨more, later⟩, bound⟩
      constructor
      · refine ⟨first ++ more, ?_⟩
        rw [List.append_assoc tokens, List.append_assoc sent] at later
        rw [List.flatMap_cons]
        exact later
      · exact bound

theorem getBits_fields (nbits bitCnt : Nat) (d : DetectState) (s : BitsState) :
    ∃ n, (modemDetectorGetBits nbits bitCnt d s).2.1 = { d with txCount := n } ∧
      (n = 0 ↔ d.txCount = 0) := by
  have fill (d : DetectState) (s : BitsState) :
      ∃ n, (detectorFill d s).1 = { d with txCount := n } ∧ (n = 0 ↔ d.txCount = 0) := by
    unfold detectorFill
    simp only
    split
    · exact ⟨d.txCount + 1, rfl, by omega⟩
    · exact ⟨d.txCount, rfl, Iff.rfl⟩
  have fills (rounds : Nat) : ∀ (d : DetectState) (s : BitsState),
      ∃ n, (detectorFills nbits rounds d s).1 = { d with txCount := n } ∧
        (n = 0 ↔ d.txCount = 0) := by
    induction rounds with
    | zero => exact fun d s => ⟨d.txCount, rfl, Iff.rfl⟩
    | succ rounds ih =>
        intro d s
        rw [detectorFills]
        split
        · exact ⟨d.txCount, rfl, Iff.rfl⟩
        · rcases fill d s with ⟨n, once, same⟩
          rcases ih (detectorFill d s).1 (detectorFill d s).2 with ⟨n', later, same'⟩
          rw [once] at same'
          refine ⟨n', ?_, same'.trans same⟩
          change (detectorFills nbits rounds (detectorFill d s).1 (detectorFill d s).2).1 = _
          rw [later, once]
  induction bitCnt generalizing d s with
  | zero => exact ⟨d.txCount, rfl, Iff.rfl⟩
  | succ bitCnt ih =>
      rw [modemDetectorGetBits]
      simp only
      rcases fills nbits d s with ⟨n, once, same⟩
      rcases ih (detectorFills nbits nbits d s).1 _ with ⟨n', later, same'⟩
      rw [once] at same'
      refine ⟨n', ?_, same'.trans same⟩
      rw [later, once]

end Transmitter

/-! ### What is heard -/

/-- The modem after it has heard `k` patterns of its peer. -/
structure Tuned (m : Modem) (k : Nat) : Prop where
  rx : m.detector.rxPattern = if m.caller then adp else odp
  count : m.detector.rxCount = if k < 2 then 0 else if k = 2 then 1 else 2
  enable : m.detector.ecEnable = decide (3 ≤ k)
  mute : m.caller = false → (m.detector.txCount = 0 ↔ k < 3)
  timer : m.Detecting →
    (m.caller = true ∧ m.bitTimerFunc = some .detectorStart ∧
        (m.bitTimer ≠ 0 → m.detector.txCount = 0)) ∨
      (m.bitTimerFunc = some .detectorFinish ∧ (m.caller = true → 3 ≤ k))
  gone : ¬ m.Detecting → m.caller = true → 3 ≤ k
  outcome : ¬ m.Detecting →
    m.getBits = some (if m.detector.ecEnable then .hdlc else .async)

structure Steady (m m' : Modem) : Prop where
  caller : m'.caller = m.caller
  tx : m'.detector.txPattern = m.detector.txPattern
  rx : m'.detector.rxPattern = m.detector.rxPattern
  sent : m'.detector.txCount - 1 = m.detector.txCount - 1

theorem Steady.refl (m : Modem) : Steady m m :=
  { caller := rfl, tx := rfl, rx := rfl, sent := rfl }

theorem Steady.trans {m m' m'' : Modem} (first : Steady m m') (later : Steady m' m'') :
    Steady m m'' :=
  { caller := later.caller.trans first.caller
    tx := later.tx.trans first.tx
    rx := later.rx.trans first.rx
    sent := later.sent.trans first.sent }

section Receiver

variable {m : Modem} {k : Nat}

/-- The pattern that the peer sends after `k` others. -/
def nextPattern (m : Modem) (k : Nat) : UInt8 :=
  if k % 2 = 0 then m.detector.rxPattern.2 else m.detector.rxPattern.1

theorem nextPattern_not_flag (rx : m.detector.rxPattern = if m.caller then adp else odp)
    (k : Nat) : (m.nextPattern k).toBitVec ≠ Hdlc.hdlcFlag := by
  unfold nextPattern
  rw [rx]
  cases m.caller with
  | true =>
      by_cases even : k % 2 = 0
      · rw [if_pos even]
        decide
      · rw [if_neg even]
        decide
  | false =>
      by_cases even : k % 2 = 0
      · rw [if_pos even]
        decide
      · rw [if_neg even]
        decide

theorem detectorChar_known {ch : UInt8} (other : ch.toBitVec ≠ Hdlc.hdlcFlag)
    (known : m.detector.rxCount = 2) : m.detectorChar ch = m := by
  unfold detectorChar
  rw [if_neg other, if_neg (by rw [known]; decide), if_pos (by rw [known])]

theorem detectorChar_unknown {ch : UInt8} (other : ch.toBitVec ≠ Hdlc.hdlcFlag)
    (unknown : m.detector.rxCount = 0) :
    m.detectorChar ch =
      { m with
        detector :=
          { m.detector with rxCount := if ch = m.detector.rxPattern.1 then 1 else 0 } } := by
  unfold detectorChar
  rw [if_neg other, if_pos unknown]

theorem detectorChar_adp (half : m.detector.rxCount = 1) :
    m.detectorChar adp1V42 =
      { m with
        cfg := { m.cfg with ec := true }
        detector := { m.detector with rxCount := 2, ecEnable := true }
        bitTimerFunc := some .detectorFinish
        bitTimer := patternSize } := by
  unfold detectorChar
  rw [if_neg (by decide), if_neg (by rw [half]; decide), if_neg (by rw [half]; decide),
    if_neg (by decide), if_neg (by decide), if_pos rfl]

theorem detectorChar_odp (half : m.detector.rxCount = 1) (answers : m.caller = false) :
    m.detectorChar odp1 =
      { m with
        detector := { m.detector with txCount := 1, rxCount := 2, ecEnable := true }
        bitTimerFunc := some .detectorFinish
        bitTimer := 16 * patternSize } := by
  unfold detectorChar
  rw [if_neg (by decide), if_neg (by rw [half]; decide), if_neg (by rw [half]; decide),
    if_pos rfl, if_pos (by rw [answers]; rfl)]

theorem detectorChar_first (rx : m.detector.rxPattern = if m.caller then adp else odp)
    (unknown : m.detector.rxCount = 0) : m.detectorChar (m.nextPattern 0) = m := by
  have differs : m.nextPattern 0 ≠ m.detector.rxPattern.1 := by
    unfold nextPattern
    rw [rx]
    cases m.caller with
    | true => decide
    | false => decide
  rw [detectorChar_unknown (nextPattern_not_flag rx 0) unknown, if_neg differs, ← unknown]

theorem detectorChar_second (rx : m.detector.rxPattern = if m.caller then adp else odp)
    (unknown : m.detector.rxCount = 0) :
    m.detectorChar (m.nextPattern 1) =
      { m with detector := { m.detector with rxCount := 1 } } := by
  have same : m.nextPattern 1 = m.detector.rxPattern.1 := rfl
  rw [detectorChar_unknown (nextPattern_not_flag rx 1) unknown, if_pos same]

theorem Tuned.early (tuned : m.Tuned k) (few : k < 2) :
    (m.detectorChar (m.nextPattern k)).Tuned (k + 1) ∧
      Steady m (m.detectorChar (m.nextPattern k)) := by
  have unknown : m.detector.rxCount = 0 := by
    rw [tuned.count, if_pos few]
  have disabled : m.detector.ecEnable = decide (3 ≤ k + 1) := by
    rw [tuned.enable]
    apply decide_eq_decide.mpr
    omega
  have finishing (detecting : m.Detecting) :
      (m.caller = true ∧ m.bitTimerFunc = some .detectorStart ∧
          (m.bitTimer ≠ 0 → m.detector.txCount = 0)) ∨
        (m.bitTimerFunc = some .detectorFinish ∧ (m.caller = true → 3 ≤ k + 1)) :=
    (tuned.timer detecting).imp_right fun finish =>
      ⟨finish.1, fun caller => Nat.le_succ_of_le (finish.2 caller)⟩
  have ended (gone : ¬ m.Detecting) (caller : m.caller = true) : 3 ≤ k + 1 :=
    Nat.le_succ_of_le (tuned.gone gone caller)
  rcases (show k = 0 ∨ k = 1 by omega) with rfl | rfl
  · rw [detectorChar_first tuned.rx unknown]
    constructor
    · exact
        { rx := tuned.rx
          count := unknown
          enable := disabled
          mute := fun answers => (tuned.mute answers).trans (by omega)
          timer := finishing
          gone := ended
          outcome := tuned.outcome }
    · exact Steady.refl m
  · rw [detectorChar_second tuned.rx unknown]
    constructor
    · exact
        { rx := tuned.rx
          count := rfl
          enable := disabled
          mute := fun answers => (tuned.mute answers).trans (by omega)
          timer := finishing
          gone := ended
          outcome := tuned.outcome }
    · exact { caller := rfl, tx := rfl, rx := rfl, sent := rfl }

theorem Tuned.third (tuned : m.Tuned 2) (detecting : m.Detecting) :
    (m.detectorChar (m.nextPattern 2)).Tuned 3 ∧
      Steady m (m.detectorChar (m.nextPattern 2)) := by
  have half : m.detector.rxCount = 1 := tuned.count
  cases caller : m.caller with
  | true =>
      have third : m.nextPattern 2 = adp1V42 := by
        unfold nextPattern
        rw [tuned.rx, caller]
        rfl
      rw [third, detectorChar_adp half]
      constructor
      · exact
          { rx := tuned.rx
            count := rfl
            enable := rfl
            mute := fun answers => absurd (caller.symm.trans answers) (by decide)
            timer := fun _ => Or.inr ⟨rfl, fun _ => Nat.le_refl 3⟩
            gone := fun _ _ => Nat.le_refl 3
            outcome := fun left => absurd detecting left }
      · exact { caller := rfl, tx := rfl, rx := rfl, sent := rfl }
  | false =>
      have third : m.nextPattern 2 = odp1 := by
        unfold nextPattern
        rw [tuned.rx, caller]
        rfl
      have silent := (tuned.mute caller).mpr (Nat.lt_succ_self 2)
      rw [third, detectorChar_odp half caller]
      constructor
      · exact
          { rx := tuned.rx
            count := rfl
            enable := rfl
            mute := fun _ =>
              ⟨fun zero => absurd zero Nat.one_ne_zero, fun few => absurd few (Nat.lt_irrefl 3)⟩
            timer := fun _ => Or.inr ⟨rfl, fun _ => Nat.le_refl 3⟩
            gone := fun _ _ => Nat.le_refl 3
            outcome := fun left => absurd detecting left }
      · exact
          { caller := rfl
            tx := rfl
            rx := rfl
            sent := by
              rw [silent]
              rfl }

theorem Tuned.later (tuned : m.Tuned k) (many : 2 < k) :
    (m.detectorChar (m.nextPattern k)).Tuned (k + 1) ∧
      Steady m (m.detectorChar (m.nextPattern k)) := by
  have known : m.detector.rxCount = 2 := by
    rw [tuned.count, if_neg (by omega), if_neg (by omega)]
  rw [detectorChar_known (nextPattern_not_flag tuned.rx k) known]
  constructor
  · exact
      { rx := tuned.rx
        count := by rw [known, if_neg (by omega), if_neg (by omega)]
        enable := by
          rw [tuned.enable]
          apply decide_eq_decide.mpr
          omega
        mute := fun answers => (tuned.mute answers).trans (by omega)
        timer := fun detecting => (tuned.timer detecting).imp_right fun finish =>
          ⟨finish.1, fun _ => by omega⟩
        gone := fun _ _ => by omega
        outcome := tuned.outcome }
  · exact Steady.refl m

theorem Tuned.detectorChar (tuned : m.Tuned k) (detecting : m.Detecting) :
    (m.detectorChar (m.nextPattern k)).Tuned (k + 1) ∧
      Steady m (m.detectorChar (m.nextPattern k)) := by
  rcases Nat.lt_trichotomy k 2 with few | two | many
  · exact tuned.early few
  · subst two
    exact tuned.third detecting
  · exact tuned.later many

theorem Tuned.hear (tuned : m.Tuned k) (detecting : m.Detecting) (chars : List UInt8)
    (follow : patterns m.detector.rxPattern k ++ chars =
      patterns m.detector.rxPattern (k + chars.length)) :
    (m.hear chars).Tuned (k + chars.length) ∧ Steady m (m.hear chars) := by
  induction chars generalizing m k with
  | nil => exact ⟨tuned, Steady.refl m⟩
  | cons c rest ih =>
      have sum : k + (c :: rest).length = k + 1 + rest.length := by
        rw [List.length_cons]
        omega
      rw [sum] at follow ⊢
      have upTo := congrArg (List.take (k + 1)) follow
      have chunk : (patterns m.detector.rxPattern k ++ c :: rest).take (k + 1) =
          patterns m.detector.rxPattern k ++ [c] := by
        rw [List.take_append, patterns_length, List.take_of_length_le (by
          rw [patterns_length]
          omega), Nat.add_sub_cancel_left]
        rfl
      rw [chunk, patterns_take _ (Nat.le_add_right _ _), patterns_succ] at upTo
      have here : c = mirror (m.nextPattern k) := by
        have last := List.append_cancel_left upTo
        simpa [nextPattern] using last
      rcases tuned.detectorChar detecting with ⟨tuned', steady⟩
      have still := (BitLine.detectorChar_rearms m (m.nextPattern k)).1.mpr detecting
      have step : m.hear (c :: rest) = (m.detectorChar (m.nextPattern k)).hear rest := by
        rw [hear, List.foldl_cons, here, mirror_mirror]
        rfl
      rw [step]
      have follow' : patterns m.detector.rxPattern (k + 1) ++ rest =
          patterns m.detector.rxPattern (k + 1 + rest.length) := by
        rw [← follow, patterns_succ, ← upTo, List.append_assoc]
        rfl
      rw [← steady.rx] at follow'
      rcases ih tuned' still follow' with ⟨tunedRest, steadyRest⟩
      exact ⟨tunedRest, steady.trans steadyRest⟩

/-! ### The timer -/

theorem packLink_fields (m : Modem) :
    m.packLink.detector = m.detector ∧ m.packLink.caller = m.caller ∧
      m.packLink.getBits = some (if m.cfg.ec then .hdlc else .async) := by
  unfold packLink modemEcStart ecLink
  split_ifs
  · exact ⟨rfl, rfl, rfl⟩
  · exact ⟨rfl, rfl, rfl⟩
  · have ready : ∀ m' : Modem, (m'.modemSetState .modemOnline).detector = m'.detector ∧
        (m'.modemSetState .modemOnline).caller = m'.caller ∧
        (m'.modemSetState .modemOnline).getBits = m'.getBits := by
      intro m'
      unfold modemSetState
      split
      · exact ⟨rfl, rfl, rfl⟩
      · exact ⟨rfl, rfl, rfl⟩
    rw [report_eq]
    exact ready _

theorem Tuned.sent (tuned : m.Tuned k) {n : Nat} (same : n = 0 ↔ m.detector.txCount = 0) :
    Tuned { m with detector := { m.detector with txCount := n } } k :=
  { rx := tuned.rx
    count := tuned.count
    enable := tuned.enable
    mute := fun answers => same.trans (tuned.mute answers)
    timer := fun detecting => (tuned.timer detecting).imp_left fun start =>
      ⟨start.1, start.2.1, fun running => same.mpr (start.2.2 running)⟩
    gone := tuned.gone
    outcome := tuned.outcome }

theorem Tuned.tickBits (tuned : m.Tuned k) (detecting : m.Detecting) (bits : Nat) :
    (m.tickBits bits).Tuned k ∧ Steady m (m.tickBits bits) := by
  unfold Modem.tickBits
  by_cases expires : m.bitsExpire bits = true
  · rw [if_pos expires]
    have running : m.bitTimer ≠ 0 := by
      unfold bitsExpire at expires
      simp only [Bool.and_eq_true, bne_iff_ne] at expires
      exact expires.1
    unfold runBitTimer
    rcases tuned.timer detecting with ⟨caller, start, silent⟩ | ⟨finish, heard⟩
    · simp only [start]
      constructor
      · exact
          { rx := tuned.rx
            count := tuned.count
            enable := tuned.enable
            mute := fun answers => absurd (caller.symm.trans answers) (by decide)
            timer := fun _ => Or.inl ⟨caller, rfl, fun stopped => absurd rfl stopped⟩
            gone := tuned.gone
            outcome := tuned.outcome }
      · exact
          { caller := rfl
            tx := rfl
            rx := rfl
            sent := by
              rw [silent running]
              rfl }
    · simp only [finish]
      have fields := packLink_fields
        { m with bitTimer := 0, cfg := { m.cfg with ec := m.detector.ecEnable } }
      have ended := BitLine.detectorFinish_over { m with bitTimer := 0 }
      change ¬ (packLink { m with
        bitTimer := 0
        cfg := { m.cfg with ec := m.detector.ecEnable } }).Detecting at ended
      change (packLink
        { m with bitTimer := 0, cfg := { m.cfg with ec := m.detector.ecEnable } }).Tuned k ∧
        Steady m (packLink
          { m with bitTimer := 0, cfg := { m.cfg with ec := m.detector.ecEnable } })
      generalize packLink _ = linked at fields ended
      rcases fields with ⟨detector, caller, routine⟩
      constructor
      · exact
          { rx := by rw [detector, caller]; exact tuned.rx
            count := by rw [detector]; exact tuned.count
            enable := by rw [detector]; exact tuned.enable
            mute := by rw [detector, caller]; exact tuned.mute
            timer := fun still => absurd still ended
            gone := fun _ isCaller => heard (caller.symm.trans isCaller)
            outcome := fun _ => by rw [detector]; exact routine }
      · exact
          { caller := caller
            tx := by rw [detector]
            rx := by rw [detector]
            sent := by rw [detector] }
  · rw [if_neg expires]
    split
    · rename_i running
      constructor
      · exact
          { tuned with
            timer := fun still => (tuned.timer still).imp_left fun start =>
              ⟨start.1, start.2.1, fun _ => start.2.2 running⟩ }
      · exact { caller := rfl, tx := rfl, rx := rfl, sent := rfl }
    · exact ⟨tuned, Steady.refl m⟩

end Receiver

end Modem

namespace BitLine

open Modem

/-- The bits that a call of `modem_detector_get_bits` puts on the line. -/
def sends (l : BitLine) (nbits bitCnt : Nat) : List Bool :=
  (modemDetectorGetBits nbits bitCnt l.modem.detector l.pack).1.flatMap (symbolBits nbits)

/-! ### One direction -/

/-- `receiver` has heard `k` patterns of `sender`; `pipe` is on the way, and `done` are the
tokens that were taken off the line. -/
structure Hears (sender receiver : BitLine) (pipe : List Bool) (k : Nat)
    (done left : List (Option UInt8)) (sent fed : List Bool) : Prop where
  pair : sender.modem.detector.txPattern = receiver.modem.detector.rxPattern
  sounding : Sounding (done ++ left) sent sender.modem.detector sender.pack
  packLow : sender.pack.bit ≤ 25
  receiving : Receiving done left fed receiver.unpack (charsOf done)
  unpackLow : receiver.unpack.bit ≤ 9
  line : sent = fed ++ pipe
  count : (charsOf done).length = k

section Direction

variable {l peer : BitLine} {pipe : List Bool} {k : Nat} {done left : List (Option UInt8)}
  {sent fed : List Bool}

theorem sounding_of_steady {m m' : Modem} {tokens : List (Option UInt8)} {s : BitsState}
    (steady : Steady m m') (sounding : Sounding tokens sent m.detector s) :
    Sounding tokens sent m'.detector s :=
  { line := sounding.line
    chars := by rw [steady.tx, steady.sent, sounding.chars] }

theorem Hears.heard (hears : Hears l peer pipe k done left sent fed) :
    charsOf done = patterns peer.modem.detector.rxPattern k ∧
      k ≤ l.modem.detector.txCount - 1 := by
  have all := hears.sounding.chars
  rw [charsOf_append, hears.pair] at all
  have sum := congrArg List.length all
  rw [List.length_append, patterns_length, hears.count] at sum
  have front := congrArg (List.take k) all
  rw [← hears.count, List.take_left, hears.count] at front
  constructor
  · rw [front, patterns_take _ (by omega)]
  · omega

theorem Hears.get (hears : Hears l peer pipe k done left sent fed) {heard : Nat}
    (tuned : l.modem.Tuned heard) (detecting : l.modem.Detecting) {nbits : Nat}
    (some : 1 ≤ nbits) (small : nbits ≤ 8) (bitCnt : Nat) :
    (∃ left' sent', Hears (l.step (.get nbits bitCnt)) peer (pipe ++ l.sends nbits bitCnt) k done
      left' sent' fed) ∧ (l.step (.get nbits bitCnt)).modem.Tuned heard ∧
      (l.step (.get nbits bitCnt)).modem.detector.rxPattern = l.modem.detector.rxPattern ∧
      (l.step (.get nbits bitCnt)).modem.caller = l.modem.caller ∧
      (l.step (.get nbits bitCnt)).unpack = l.unpack := by
  rcases hears.sounding.getBits some small bitCnt hears.packLow with ⟨⟨more, sounding⟩, low⟩
  rcases getBits_fields nbits bitCnt l.modem.detector l.pack with ⟨n, fields, same⟩
  have tuned' := tuned.sent same
  rcases tuned'.tickBits detecting (nbits * bitCnt) with ⟨ticked, steady⟩
  rw [fields] at sounding
  have step : l.step (.get nbits bitCnt) =
      { l with
        modem := tickBits { l.modem with detector := { l.modem.detector with txCount := n } }
          (nbits * bitCnt)
        pack := (modemDetectorGetBits nbits bitCnt l.modem.detector l.pack).2.2 } := by
    rw [← fields]
    exact if_pos detecting
  rw [step]
  constructor
  · refine ⟨left ++ more, sent ++ l.sends nbits bitCnt, ?_⟩
    constructor
    · exact steady.tx.trans hears.pair
    · rw [← List.append_assoc]
      exact sounding_of_steady steady sounding
    · exact low
    · have ahead := hears.receiving.ahead
      exact
        { hears.receiving with
          ahead := by
            rw [asyncLine_append]
            exact ahead.trans (List.prefix_append _ _) }
    · exact hears.unpackLow
    · rw [hears.line, List.append_assoc]
    · exact hears.count
  · exact ⟨ticked, steady.rx, steady.caller, rfl⟩

theorem Hears.put (hears : Hears l peer pipe k done left sent fed)
    (tuned : peer.modem.Tuned k) (detecting : peer.modem.Detecting) {nbits : Nat}
    (small : nbits ≤ 8) {symbols : List UInt8} {rest : List Bool}
    (arrives : pipe = symbols.flatMap (symbolBits nbits) ++ rest) :
    (∃ k' done' left' fed', Hears l (peer.step (.put nbits symbols)) rest k' done' left' sent fed' ∧
      (peer.step (.put nbits symbols)).modem.Tuned k') ∧
      Steady peer.modem (peer.step (.put nbits symbols)).modem ∧
      (peer.step (.put nbits symbols)).pack = peer.pack := by
  have onLine : fed ++ symbols.flatMap (symbolBits nbits) <+: asyncLine (done ++ left) := by
    rw [← hears.sounding.line, hears.line, arrives]
    simp only [List.append_assoc]
    exact (List.prefix_append_right_inj _).mpr (List.prefix_append _ _)
  rcases hears.receiving.putBits small symbols hears.unpackLow onLine with
    ⟨front, back, split, received, low⟩
  have log : (Async.modemAsyncPutBits nbits symbols peer.unpack).2 = charsOf front := by
    have delivered := received.delivered
    rw [charsOf_append] at delivered
    exact List.append_cancel_left delivered
  have step : peer.step (.put nbits symbols) =
      { peer with
        modem := peer.modem.hear (charsOf front)
        unpack := (Async.modemAsyncPutBits nbits symbols peer.unpack).1 } := by
    rw [← log]
    have taken : peer.step (.put nbits symbols) =
        { peer with
          modem := (modemDetectorPutBits nbits peer.modem peer.unpack symbols).1
          unpack := (modemDetectorPutBits nbits peer.modem peer.unpack symbols).2 } :=
      if_pos detecting
    rw [taken, putBits_hear small]
  have sounding := hears.sounding
  rw [split, ← List.append_assoc] at sounding
  have all := sounding.chars
  rw [charsOf_append, hears.pair] at all
  have bound := congrArg List.length all
  rw [List.length_append, patterns_length, charsOf_append, List.length_append, hears.count]
    at bound
  have follow : patterns peer.modem.detector.rxPattern k ++ charsOf front =
      patterns peer.modem.detector.rxPattern (k + (charsOf front).length) := by
    have cut := congrArg (List.take (k + (charsOf front).length)) all
    rw [charsOf_append, List.take_left' (by rw [List.length_append, hears.count])] at cut
    rw [← hears.heard.1, cut, patterns_take _ (by omega)]
  rcases tuned.hear detecting (charsOf front) follow with ⟨tuned', steady⟩
  rw [step]
  constructor
  · refine ⟨k + (charsOf front).length, done ++ front, back,
      fed ++ symbols.flatMap (symbolBits nbits), ?_, tuned'⟩
    constructor
    · exact hears.pair.trans steady.rx.symm
    · exact sounding
    · exact hears.packLow
    · rw [charsOf_append, ← log]
      exact received
    · exact low
    · rw [hears.line, arrives, List.append_assoc]
    · rw [charsOf_append, List.length_append, hears.count]
  · exact ⟨steady, rfl⟩

end Direction

end BitLine

/-! ### Both directions -/

/-- Two modems; `forth` is on the way to the answerer, `back` to the originator. -/
structure Connection where
  originator : BitLine
  answerer : BitLine
  forth : List Bool
  back : List Bool

inductive ConnectionEvent where
  | originator (event : DetectEvent)
  | answerer (event : DetectEvent)

def DetectEvent.Sized : DetectEvent → Prop
  | .get nbits _ | .put nbits _ => 1 ≤ nbits ∧ nbits ≤ 8

def ConnectionEvent.Sized : ConnectionEvent → Prop
  | .originator event | .answerer event => event.Sized

namespace BitLine

open Modem

/-- A side of the pair with what it has on the way and what is on the way to it.  Only bits on
the way are received, and the end of the phase at this side is the end of its part. -/
def exchange (l : BitLine) (out into : List Bool) :
    DetectEvent → BitLine × List Bool × List Bool
  | .get nbits bitCnt =>
      if l.modem.Detecting then
        (l.step (.get nbits bitCnt), out ++ l.sends nbits bitCnt, into)
      else (l, out, into)
  | .put nbits symbols =>
      if l.modem.Detecting ∧ symbols.flatMap (symbolBits nbits) <+: into then
        (l.step (.put nbits symbols), out,
          into.drop (symbols.flatMap (symbolBits nbits)).length)
      else (l, out, into)

def Linked (l peer : BitLine) (out into : List Bool) : Prop :=
  ∃ k heard : Nat,
    (∃ done left sent fed, Hears l peer out k done left sent fed) ∧
      (∃ done left sent fed, Hears peer l into heard done left sent fed) ∧
      l.modem.Tuned heard ∧ peer.modem.Tuned k

section Exchange

variable {l peer : BitLine} {out into : List Bool}

theorem Linked.swap (linked : Linked l peer out into) : Linked peer l into out := by
  rcases linked with ⟨k, heard, forth, back, tuned, tuned'⟩
  exact ⟨heard, k, back, forth, tuned', tuned⟩

theorem Linked.exchange (linked : Linked l peer out into) {event : DetectEvent}
    (sized : event.Sized) :
    Linked (l.exchange out into event).1 peer (l.exchange out into event).2.1
        (l.exchange out into event).2.2 ∧
      (l.exchange out into event).1.modem.caller = l.modem.caller := by
  rcases linked with ⟨k, heard, ⟨done, left, sent, fed, forth⟩,
    ⟨done', left', sent', fed', back⟩, tuned, tuned'⟩
  have unchanged : Linked l peer out into :=
    ⟨k, heard, ⟨done, left, sent, fed, forth⟩, ⟨done', left', sent', fed', back⟩, tuned, tuned'⟩
  cases event with
  | get nbits bitCnt =>
      simp only [BitLine.exchange]
      by_cases detecting : l.modem.Detecting
      · rw [if_pos detecting]
        rcases forth.get tuned detecting sized.1 sized.2 bitCnt with
          ⟨⟨left₁, sent₁, forth₁⟩, tuned₁, rx, caller, unpack⟩
        refine ⟨⟨k, heard, ⟨done, left₁, sent₁, fed, forth₁⟩, ⟨done', left', sent', fed', ?_⟩,
          tuned₁, tuned'⟩, caller⟩
        exact
          { back with
            pair := back.pair.trans rx.symm
            receiving := by
              rw [unpack]
              exact back.receiving
            unpackLow := by
              rw [unpack]
              exact back.unpackLow }
      · rw [if_neg detecting]
        exact ⟨unchanged, rfl⟩
  | put nbits symbols =>
      simp only [BitLine.exchange]
      by_cases ready : l.modem.Detecting ∧ symbols.flatMap (symbolBits nbits) <+: into
      · rw [if_pos ready]
        rcases ready with ⟨detecting, rest, arrives⟩
        have dropped : into.drop (symbols.flatMap (symbolBits nbits)).length = rest := by
          rw [← arrives, List.drop_left]
        rcases back.put tuned detecting sized.2 arrives.symm with
          ⟨⟨heard₁, done₁, left₁, fed₁, back₁, tuned₁⟩, steady, pack⟩
        rw [dropped]
        refine ⟨⟨k, heard₁, ⟨done, left, sent, fed, ?_⟩, ⟨done₁, left₁, sent', fed₁, back₁⟩,
          tuned₁, tuned'⟩, steady.caller⟩
        exact
          { forth with
            pair := steady.tx.trans forth.pair
            sounding := by
              rw [pack]
              exact sounding_of_steady steady forth.sounding
            packLow := by
              rw [pack]
              exact forth.packLow }
      · rw [if_neg ready]
        exact ⟨unchanged, rfl⟩

end Exchange

end BitLine

namespace Connection

open Modem BitLine

def start (originator answerer : Modem) : Connection :=
  { originator := BitLine.start originator
    answerer := BitLine.start answerer
    forth := []
    back := [] }

def step (c : Connection) : ConnectionEvent → Connection
  | .originator event =>
      let next := c.originator.exchange c.forth c.back event
      { c with originator := next.1, forth := next.2.1, back := next.2.2 }
  | .answerer event =>
      let next := c.answerer.exchange c.back c.forth event
      { c with answerer := next.1, back := next.2.1, forth := next.2.2 }

def run (c : Connection) : List ConnectionEvent → Connection
  | [] => c
  | event :: rest => (c.step event).run rest

structure Inv (c : Connection) : Prop where
  originates : c.originator.modem.caller = true
  answers : c.answerer.modem.caller = false
  linked : Linked c.originator c.answerer c.forth c.back

theorem Inv.step {c : Connection} (inv : c.Inv) {event : ConnectionEvent} (sized : event.Sized) :
    (c.step event).Inv := by
  cases event with
  | originator event =>
      rcases inv.linked.exchange sized with ⟨linked, caller⟩
      exact
        { originates := caller.trans inv.originates
          answers := inv.answers
          linked := linked }
  | answerer event =>
      rcases inv.linked.swap.exchange sized with ⟨linked, caller⟩
      exact
        { originates := inv.originates
          answers := caller.trans inv.answers
          linked := linked.swap }

theorem Inv.run {c : Connection} (inv : c.Inv) (events : List ConnectionEvent)
    (sized : ∀ event ∈ events, event.Sized) : (c.run events).Inv := by
  induction events generalizing c with
  | nil => exact inv
  | cons event rest ih =>
      rcases List.forall_mem_cons.mp sized with ⟨now, later⟩
      exact ih (inv.step now) later

/-! ### The start -/

theorem start_fields (m : Modem) :
    (BitLine.start m).modem.caller = m.caller ∧
      (BitLine.start m).modem.detector =
        { txCount := 0
          txPattern := if m.caller then odp else adp
          rxCount := 0
          rxPattern := if m.caller then adp else odp
          ecEnable := false } := by
  unfold BitLine.start modemDetectorStart
  cases caller : m.caller with
  | true => simp
  | false => simp

theorem start_tuned (m : Modem) : (BitLine.start m).modem.Tuned 0 := by
  rcases start_fields m with ⟨caller, detector⟩
  rcases start_timer m with ⟨-, func⟩
  have detecting : (BitLine.start m).modem.Detecting := by
    unfold BitLine.start modemDetectorStart
    split
    · exact ⟨rfl, rfl, rfl⟩
    · exact ⟨rfl, rfl, rfl⟩
  constructor
  · rw [detector, caller]
  · rw [detector]
    rfl
  · rw [detector]
    rfl
  · intro _
    rw [detector]
    exact ⟨fun _ => Nat.succ_pos 2, fun _ => rfl⟩
  · intro _
    rw [caller, func, detector]
    cases m.caller with
    | true => exact Or.inl ⟨rfl, rfl, fun _ => rfl⟩
    | false => exact Or.inr ⟨rfl, fun originates => by cases originates⟩
  · intro gone
    exact absurd detecting gone
  · intro gone
    exact absurd detecting gone

theorem start_hears {sender receiver : Modem} (apart : sender.caller = !receiver.caller) :
    Hears (BitLine.start sender) (BitLine.start receiver) [] 0 [] [none] [] [] := by
  rcases start_fields sender with ⟨-, detector⟩
  rcases start_fields receiver with ⟨-, detector'⟩
  constructor
  · rw [detector, detector', apart]
    cases receiver.caller with
    | true => rfl
    | false => rfl
  · constructor
    · rfl
    · rw [detector]
      rfl
  · exact Nat.zero_le 25
  · exact { place := rfl, delivered := rfl, ahead := List.nil_prefix }
  · exact Nat.zero_le 9
  · rfl
  · rfl

theorem start_inv {originator answerer : Modem} (originates : originator.caller = true)
    (answers : answerer.caller = false) : (start originator answerer).Inv := by
  constructor
  · exact (start_fields originator).1.trans originates
  · exact (start_fields answerer).1.trans answers
  · refine ⟨0, 0, ⟨[], [none], [], [], start_hears ?_⟩, ⟨[], [none], [], [], start_hears ?_⟩,
      start_tuned originator, start_tuned answerer⟩
    · rw [originates, answers]
      rfl
    · rw [originates, answers]
      rfl

/-! ### What is still unheard -/

/-- Up to `10 * n` bits at the end of the line hold `n` characters at most. -/
theorem charsOf_behind (tokens : List (Option UInt8)) (bits n : Nat) (few : bits ≤ 10 * n) :
    ∃ i, (asyncLine (tokens.take i)).length ≤ (asyncLine tokens).length - bits ∧
      (charsOf tokens).length ≤ (charsOf (tokens.take i)).length + n := by
  induction tokens using List.reverseRecOn generalizing bits n with
  | nil => exact ⟨0, Nat.zero_le _, Nat.zero_le _⟩
  | append_singleton tokens token ih =>
      by_cases none : bits = 0
      · refine ⟨(tokens ++ [token]).length, ?_, ?_⟩
        · rw [List.take_length, none, Nat.sub_zero]
        · rw [List.take_length]
          exact Nat.le_add_right _ _
      · have lineLength : (asyncLine (tokens ++ [token])).length =
            (asyncLine tokens).length + (Async.tokenBits token).length := by
          rw [asyncLine_append, List.length_append]
          simp [asyncLine]
        have shorter (i : Nat) : ∃ j, (tokens ++ [token]).take j = tokens.take i := by
          refine ⟨min i tokens.length, ?_⟩
          rw [List.take_append_of_le_length (Nat.min_le_right _ _)]
          rcases Nat.le_total i tokens.length with within | beyond
          · rw [Nat.min_eq_left within]
          · rw [Nat.min_eq_right beyond, List.take_length, List.take_of_length_le beyond]
        cases token with
        | none =>
            rcases ih (bits - 1) n (by omega) with ⟨i, early, most⟩
            rcases shorter i with ⟨j, same⟩
            refine ⟨j, ?_, ?_⟩
            · rw [same, lineLength]
              change _ ≤ _ + 1 - _
              omega
            · rw [same, charsOf_append]
              simpa [charsOf] using most
        | some ch =>
            rcases ih (bits - 10) (n - 1) (by omega) with ⟨i, early, most⟩
            rcases shorter i with ⟨j, same⟩
            refine ⟨j, ?_, ?_⟩
            · rw [same, lineLength, Async.tokenBits_length]
              omega
            · rw [same, charsOf_append, List.length_append]
              have one : (charsOf [some ch]).length = 1 := rfl
              omega

theorem heard_of_empty {l peer : BitLine} {k : Nat} {done left : List (Option UInt8)}
    {sent fed : List Bool} (hears : Hears l peer [] k done left sent fed) :
    l.modem.detector.txCount - 1 ≤ k + 3 := by
  have low := hears.packLow
  have sizes : l.pack.bits.length = l.pack.bit := window_length _ _
  rcases charsOf_behind (done ++ left) (l.pack.bit + 1) 3 (by omega) with ⟨i, early, most⟩
  have lengths := congrArg List.length hears.sounding.line
  rw [hears.line, List.append_nil, List.length_append, List.length_append, sizes,
    List.length_singleton] at lengths
  have prompt := hears.receiving.prompt hears.unpackLow (n := i) (by omega)
  have fits := prompt.length_le
  rw [hears.count] at fits
  rw [hears.sounding.chars, patterns_length] at most
  omega

theorem Inv.recognised {c : Connection} (inv : c.Inv)
    (known : c.originator.modem.detector.ecEnable = true) :
    c.answerer.modem.detector.ecEnable = true := by
  rcases inv.linked with ⟨k, heard, -, ⟨done, left, sent, fed, back⟩, tuned, tuned'⟩
  rw [tuned.enable, decide_eq_true_eq] at known
  rw [tuned'.enable, decide_eq_true_eq]
  have sentBack := back.heard.2
  by_contra few
  have silent := (tuned'.mute inv.answers).mpr (by omega)
  omega

theorem Inv.left {c : Connection} (inv : c.Inv) (gone : ¬ c.originator.modem.Detecting) :
    c.originator.modem.detector.ecEnable = true := by
  rcases inv.linked with ⟨k, heard, -, -, tuned, -⟩
  rw [tuned.enable, decide_eq_true_eq]
  exact tuned.gone gone inv.originates

/-- Over a line that loses nothing, in any order of any sizes: the originator recognises its peer
only after the answerer has recognised it, the answerer only when three patterns were sent to it,
and the originator ends the phase only with error correction.  No pattern is missed: with six
patterns sent and nothing on the way, the other end has recognised the sender. -/
theorem detection_agrees (originator answerer : Modem) (originates : originator.caller = true)
    (answers : answerer.caller = false) (events : List ConnectionEvent)
    (sized : ∀ event ∈ events, event.Sized) :
    let c := (start originator answerer).run events
    (c.originator.modem.detector.ecEnable = true →
        c.answerer.modem.detector.ecEnable = true) ∧
      (c.answerer.modem.detector.ecEnable = true → 3 < c.originator.modem.detector.txCount) ∧
      (¬ c.originator.modem.Detecting → c.originator.modem.detector.ecEnable = true) ∧
      (6 < c.originator.modem.detector.txCount → c.forth = [] →
        c.answerer.modem.detector.ecEnable = true) ∧
      (6 < c.answerer.modem.detector.txCount → c.back = [] →
        c.originator.modem.detector.ecEnable = true) := by
  have inv := (start_inv originates answers).run events sized
  generalize (start originator answerer).run events = c at inv
  rcases inv.linked with ⟨k, heard, ⟨done, left, sent, fed, forth⟩,
    ⟨done', left', sent', fed', back⟩, tuned, tuned'⟩
  refine ⟨inv.recognised, ?_, inv.left, ?_, ?_⟩
  · intro recognised
    rw [tuned'.enable, decide_eq_true_eq] at recognised
    have sentForth := forth.heard.2
    omega
  · intro many empty
    rw [empty] at forth
    have missing := heard_of_empty forth
    rw [tuned'.enable, decide_eq_true_eq]
    omega
  · intro many empty
    rw [empty] at back
    have missing := heard_of_empty back
    rw [tuned.enable, decide_eq_true_eq]
    omega

def exchangeEvents : List ConnectionEvent :=
  [.originator (.get 8 64), .originator (.get 8 18),
    .answerer (.put 8 (List.replicate 64 255 ++
      [255, 209, 63, 244, 71, 253, 19, 255, 68, 127, 209, 63, 244, 71, 253, 19, 255, 68])),
    .answerer (.get 6 25),
    .originator (.put 6
      [63, 251, 194, 191, 250, 162, 191, 251, 194, 191, 250, 162, 191, 251, 194, 191, 250, 162,
        191, 251, 194, 191, 250, 162, 191])]

theorem detection_agrees_exchange :
    ((start BitLine.originator modemCreate).run exchangeEvents).originator.modem.detector.ecEnable =
        true ∧
      ((start BitLine.originator modemCreate).run
        exchangeEvents).answerer.modem.detector.ecEnable = true := by
  have sized : ∀ event ∈ exchangeEvents, event.Sized := by
    simp [exchangeEvents, ConnectionEvent.Sized, DetectEvent.Sized]
  rcases detection_agrees BitLine.originator modemCreate rfl rfl exchangeEvents sized with
    ⟨agrees, -, -, -, known⟩
  have recognised : ((start BitLine.originator modemCreate).run
      exchangeEvents).originator.modem.detector.ecEnable = true := by
    apply known
    · decide +kernel
    · decide +kernel
  exact ⟨recognised, agrees recognised⟩

/-- Ends that have both left the phase go on with the same protocol: the originator leaves it
for HDLC only, and then the answerer cannot have left it for the bare line. -/
theorem detection_same_protocol (originator answerer : Modem)
    (originates : originator.caller = true) (answers : answerer.caller = false)
    (events : List ConnectionEvent) (sized : ∀ event ∈ events, event.Sized) :
    let c := (start originator answerer).run events
    ¬ c.originator.modem.Detecting →
      c.originator.modem.getBits = some .hdlc ∧
        (¬ c.answerer.modem.Detecting → c.answerer.modem.getBits = some .hdlc) := by
  have inv := (start_inv originates answers).run events sized
  intro c gone
  change c.Inv at inv
  have known := inv.left gone
  have known' := inv.recognised known
  rcases inv.linked with ⟨k, heard, -, -, tuned, tuned'⟩
  constructor
  · rw [tuned.outcome gone, known]
    rfl
  · intro gone'
    rw [tuned'.outcome gone', known']
    rfl

def leavingEvents : List ConnectionEvent :=
  exchangeEvents ++ [.originator (.get 8 5), .answerer (.get 8 60)]

theorem detection_same_protocol_exchange :
    ((start BitLine.originator modemCreate).run leavingEvents).originator.modem.getBits =
        some .hdlc ∧
      ((start BitLine.originator modemCreate).run leavingEvents).answerer.modem.getBits =
        some .hdlc := by
  have sized : ∀ event ∈ leavingEvents, event.Sized := by
    simp [leavingEvents, exchangeEvents, ConnectionEvent.Sized, DetectEvent.Sized]
  have gone : ¬ ((start BitLine.originator modemCreate).run
      leavingEvents).originator.modem.Detecting := by
    decide +kernel
  have gone' : ¬ ((start BitLine.originator modemCreate).run
      leavingEvents).answerer.modem.Detecting := by
    decide +kernel
  rcases detection_same_protocol BitLine.originator modemCreate rfl rfl leavingEvents sized gone
    with ⟨hdlc, both⟩
  exact ⟨hdlc, both gone'⟩

end Connection

end DModem
