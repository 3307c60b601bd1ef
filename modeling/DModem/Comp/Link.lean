/-
The encoder's side of the byte stream.

`Link start sent e v` says that everything the encoder `e` has put out so far is
readable from `start`, and that the bits it still keeps back would take the
decoder to `v`.
-/

import DModem.Comp.Codeword

namespace DModem.Comp

open View

structure Link (start : View) (sent : List UInt8) (e : CompState) (v : View) : Prop where
  short : e.bitLen < 8
  small : e.bitData < 2 ^ e.bitLen
  reads : ∃ w, Reads start (sent ++ e.obuf) w ∧ Owed false w e.bitData e.bitLen v

namespace CompState

/-- The same encoder with other output. -/
def putting (e : CompState) (obuf : List UInt8) (bitData bitLen : Nat) : CompState :=
  { e with
    obuf := obuf
    bitData := bitData
    bitLen := bitLen }

theorem sendBytes_owed {closed : Bool} {v : View} (count : Nat) (e : CompState) {w : View}
    (owed : Owed closed w e.bitData e.bitLen v) (enough : 8 * count ≤ e.bitLen) :
    ∃ bytes w', Reads w bytes w' ∧
      sendBytes count e =
        e.putting (e.obuf ++ bytes) (e.bitData / 2 ^ (8 * count)) (e.bitLen - 8 * count) ∧
      Owed closed w' (e.bitData / 2 ^ (8 * count)) (e.bitLen - 8 * count) v := by
  induction count generalizing e w with
  | zero =>
      refine ⟨[], w, .nil w, ?_, by simpa using owed⟩
      simp [sendBytes, putting]
  | succ count ih =>
      obtain ⟨w₁, byte, owed₁⟩ := owed.feed (by omega)
      have halves : e.bitData / 256 / 2 ^ (8 * count) = e.bitData / 2 ^ (8 * (count + 1)) := by
        rw [Nat.div_div_eq_div_mul, Nat.mul_succ, Nat.pow_add, Nat.mul_comm]
      obtain ⟨bytes, w', reads, sent, owed'⟩ := ih
        (e.putting (e.obuf ++ [UInt8.ofNat (e.bitData % 256)]) (e.bitData / 256) (e.bitLen - 8))
        owed₁ (by change 8 * count ≤ e.bitLen - 8; omega)
      have lenEq : e.bitLen - 8 - 8 * count = e.bitLen - 8 * (count + 1) := by omega
      refine ⟨UInt8.ofNat (e.bitData % 256) :: bytes, w', .cons owed.settled byte reads, ?_, ?_⟩
      · rw [sendBytes, Nat.shiftRight_eq_div_pow]
        refine sent.trans ?_
        simp only [putting, halves, lenEq, List.append_assoc, List.singleton_append]
      · simp only [putting, halves, lenEq] at owed'
        exact owed'

end CompState

section Sending

variable {start v v' : View} {sent : List UInt8} {e : CompState}

theorem sendCw_eq {cw : Nat} (link : Link start sent e v) (narrow : e.cwSize ≤ 11)
    (smallCw : cw < 2 ^ e.cwSize) :
    e.sendCw cw = e.putting e.obuf (e.bitData + 2 ^ e.bitLen * cw) (e.bitLen + e.cwSize) := by
  have bounded : cw < 2 ^ 11 :=
    Nat.lt_of_lt_of_le smallCw (Nat.pow_le_pow_right (by decide) narrow)
  have bits := join_bits link.small (by have := link.short; omega) bounded
  unfold CompState.sendCw CompState.putting
  rw [bits]

theorem joined_lt {data len width cw : Nat} (small : data < 2 ^ len) (smallCw : cw < 2 ^ width) :
    data + 2 ^ len * cw < 2 ^ (len + width) := by
  calc data + 2 ^ len * cw < 2 ^ len * (cw + 1) := by
        rw [Nat.mul_succ]
        omega
    _ ≤ 2 ^ len * 2 ^ width := Nat.mul_le_mul_left _ smallCw
    _ = 2 ^ (len + width) := (Nat.pow_add 2 _ _).symm

/-- `SEND_CW` and `SEND_BITS` of a codeword that the decoder takes. -/
theorem Link.word {cw : Nat} (link : Link start sent e v) (wide : 9 ≤ v.cwSize)
    (narrow : v.cwSize ≤ 11) (widthEq : v.cwSize = e.cwSize) (smallCw : cw < 2 ^ v.cwSize)
    (takes : Takes v cw v') :
    ∃ obuf bitData bitLen, (e.sendCw cw).sendBits = e.putting obuf bitData bitLen ∧
      Link start sent (e.putting obuf bitData bitLen) v' := by
  obtain ⟨w, reads, owed⟩ := link.reads
  have owed₁ : Owed false w (e.bitData + 2 ^ e.bitLen * cw) (e.bitLen + e.cwSize) v' := by
    refine ⟨owed.settled, owed.small, ?_, fun isClosed => by cases isClosed⟩
    have longer := owed.drains.snoc wide narrow smallCw takes
    have bitsEq : w.bitData + 2 ^ w.bitLen * e.bitData + 2 ^ (w.bitLen + e.bitLen) * cw =
        w.bitData + 2 ^ w.bitLen * (e.bitData + 2 ^ e.bitLen * cw) := by
      rw [Nat.pow_add]
      ring
    rw [bitsEq, widthEq, Nat.add_assoc] at longer
    exact longer
  rw [widthEq] at narrow smallCw
  have below := joined_lt link.small smallCw
  have sentEq := sendCw_eq link narrow smallCw
  obtain ⟨bytes, w', reads', sentBits, owed'⟩ := CompState.sendBytes_owed
    ((e.bitLen + e.cwSize) / 8)
    (e.putting e.obuf (e.bitData + 2 ^ e.bitLen * cw) (e.bitLen + e.cwSize)) owed₁
    (Nat.mul_div_le _ 8)
  refine ⟨e.obuf ++ bytes,
    (e.bitData + 2 ^ e.bitLen * cw) / 2 ^ (8 * ((e.bitLen + e.cwSize) / 8)),
    e.bitLen + e.cwSize - 8 * ((e.bitLen + e.cwSize) / 8), ?_, ?_⟩
  · unfold CompState.sendBits
    rw [sentEq]
    exact sentBits
  · refine ⟨?_, ?_, w', ?_, owed'⟩
    · change e.bitLen + e.cwSize - 8 * ((e.bitLen + e.cwSize) / 8) < 8
      omega
    · change (e.bitData + 2 ^ e.bitLen * cw) / 2 ^ (8 * ((e.bitLen + e.cwSize) / 8)) <
        2 ^ (e.bitLen + e.cwSize - 8 * ((e.bitLen + e.cwSize) / 8))
      apply Nat.div_lt_of_lt_mul
      rw [← Nat.pow_add]
      have sumEq : 8 * ((e.bitLen + e.cwSize) / 8) +
          (e.bitLen + e.cwSize - 8 * ((e.bitLen + e.cwSize) / 8)) = e.bitLen + e.cwSize := by
        omega
      rwa [sumEq]
    · have joined := reads.append reads'
      rwa [List.append_assoc] at joined

theorem alignBits_eq (c : CompState) :
    ∃ pad, pad < 8 ∧ (c.bitLen + pad) % 8 = 0 ∧
      c.alignBits = c.putting c.obuf c.bitData (c.bitLen + pad) := by
  unfold CompState.alignBits
  by_cases ragged : c.bitLen % 8 ≠ 0
  · rw [if_pos ragged]
    exact ⟨8 - c.bitLen % 8, by omega, by omega, rfl⟩
  · rw [if_neg ragged]
    exact ⟨0, by omega, by omega, rfl⟩

theorem Link.align {cw : Nat} (link : Link start sent e v) (wide : 9 ≤ v.cwSize)
    (narrow : v.cwSize ≤ 11) (widthEq : v.cwSize = e.cwSize) (smallCw : cw < 2 ^ v.cwSize)
    (aligns : Aligns v cw v') :
    ∃ obuf, ((e.sendCw cw).alignBits).sendBits = e.putting obuf 0 0 ∧
      Link start sent (e.putting obuf 0 0) v' := by
  obtain ⟨w, reads, owed⟩ := link.reads
  have narrowE := narrow
  have smallE := smallCw
  rw [widthEq] at narrowE smallE
  have below := joined_lt link.small smallE
  have sentEq := sendCw_eq link narrowE smallE
  obtain ⟨pad, padShort, whole, aligned⟩ :=
    alignBits_eq (e.putting e.obuf (e.bitData + 2 ^ e.bitLen * cw) (e.bitLen + e.cwSize))
  change (e.bitLen + e.cwSize + pad) % 8 = 0 at whole
  have owed₁ : Owed true w (e.bitData + 2 ^ e.bitLen * cw) (e.bitLen + e.cwSize + pad) v' := by
    refine ⟨owed.settled, owed.small, ?_, fun _ => whole⟩
    have longer := owed.drains.close wide narrow smallCw padShort aligns
    have bitsEq : w.bitData + 2 ^ w.bitLen * e.bitData + 2 ^ (w.bitLen + e.bitLen) * cw =
        w.bitData + 2 ^ w.bitLen * (e.bitData + 2 ^ e.bitLen * cw) := by
      rw [Nat.pow_add]
      ring
    rw [bitsEq, widthEq, Nat.add_assoc, Nat.add_assoc, ← Nat.add_assoc e.bitLen] at longer
    exact longer
  obtain ⟨bytes, w', reads', sentBits, owed'⟩ := CompState.sendBytes_owed
    ((e.bitLen + e.cwSize + pad) / 8)
    (e.putting e.obuf (e.bitData + 2 ^ e.bitLen * cw) (e.bitLen + e.cwSize + pad)) owed₁
    (Nat.mul_div_le _ 8)
  have lenZero : e.bitLen + e.cwSize + pad - 8 * ((e.bitLen + e.cwSize + pad) / 8) = 0 := by omega
  have dataZero : (e.bitData + 2 ^ e.bitLen * cw) /
      2 ^ (8 * ((e.bitLen + e.cwSize + pad) / 8)) = 0 := by
    apply Nat.div_eq_of_lt
    exact Nat.lt_of_lt_of_le below (Nat.pow_le_pow_right (by decide) (by omega))
  simp only [CompState.putting, lenZero, dataZero] at owed' sentBits
  have ended := owed'.done
  subst ended
  have wider := aligns.width
  refine ⟨e.obuf ++ bytes, ?_, by change 0 < 8; omega, by change 0 < 2 ^ 0; decide, v', ?_, ?_⟩
  · unfold CompState.sendBits
    rw [sentEq, aligned]
    exact sentBits
  · have joined := reads.append reads'
    rwa [List.append_assoc] at joined
  · exact Owed.refl aligns.blank (by omega)

theorem Link.bytes {chars : List UInt8} (link : Link start sent e v) (aligned : e.bitLen = 0)
    (blank : v'.Blank) (wide : 9 ≤ v'.cwSize) (reads : Reads v chars v') :
    e.bitData = 0 ∧ Link start sent { e with obuf := e.obuf ++ chars } v' := by
  have dataZero : e.bitData = 0 := by
    have small := link.small
    rw [aligned] at small
    omega
  obtain ⟨w, earlier, owed⟩ := link.reads
  rw [aligned, dataZero] at owed
  have same := owed.done
  subst same
  refine ⟨dataZero, link.short, link.small, v', ?_, ?_⟩
  · have joined := earlier.append reads
    rwa [List.append_assoc] at joined
  · change Owed false v' e.bitData e.bitLen v'
    rw [aligned, dataZero]
    exact Owed.refl blank wide

end Sending

/-! ### Sending a string -/

structure Channel (start : View) (sent : List UInt8) (e : CompState) (v : View) : Prop where
  mode : v.mode = e.mode
  idle : v.escape = false
  width : v.cwSize = e.cwSize
  wide : 9 ≤ e.cwSize
  narrow : e.cwSize ≤ 11
  threshold : e.threshold = 2 ^ e.cwSize
  blank : v.Blank
  aligned : e.mode = .transparent → e.bitLen = 0
  link : Link start sent e v

structure Framed (start : View) (sent : List UInt8) (e : CompState) (v : View) : Prop
    extends Channel start sent e v where
  escapeChar : v.escapeChar = e.escapeChar

/-- What `send_data` leaves of an encoder. -/
structure CompState.Emptied (e e' : CompState) : Prop where
  mode : e'.mode = e.mode
  updateAt : e'.updateAt = e.updateAt
  lastMatched : e'.lastMatched = e.lastMatched
  lastAdded : e'.lastAdded = e.lastAdded
  maxString : e'.maxString = e.maxString
  dict : e'.dict = e.dict
  strData : e'.strData = []
  flushedLen : e'.flushedLen = 0

theorem CompState.Emptied.matcher_eq {e e' : CompState} (emptied : e.Emptied e') :
    e'.matcher = { e.matcher with total := 0 } := by
  unfold CompState.matcher
  rw [emptied.updateAt, emptied.lastMatched, emptied.lastAdded, emptied.maxString, emptied.dict,
    emptied.strData, emptied.flushedLen]
  rfl

theorem CompState.emitString_transparent {c : CompState} (cw : Nat)
    (mode : c.mode = .transparent) :
    c.emitString cw =
      .ok { c with
            obuf := c.obuf ++ escapeBytes c.escapeChar c.strData
            escapeChar := cycleEscape c.escapeChar c.strData } := by
  simp only [emitString, mode]

theorem CompState.emitString_compressed {c : CompState} (cw : Nat)
    (mode : c.mode = .compressed) :
    c.emitString cw = (do
      let c ← stepUp cw 16 { c with escapeChar := cycleEscape c.escapeChar c.strData }
      .ok (c.sendCw cw).sendBits) := by
  simp only [emitString, mode]

section Strings

variable {start v : View} {sent : List UInt8} {e : CompState}

theorem Channel.congr {e' : CompState} (channel : Channel start sent e v)
    (mode : e'.mode = e.mode) (width : e'.cwSize = e.cwSize)
    (threshold : e'.threshold = e.threshold) (bitLen : e'.bitLen = e.bitLen)
    (bitData : e'.bitData = e.bitData) (obuf : e'.obuf = e.obuf) :
    Channel start sent e' v := by
  obtain ⟨short, small, reads⟩ := channel.link
  constructor
  · rw [mode, channel.mode]
  · exact channel.idle
  · rw [width, channel.width]
  · rw [width]
    exact channel.wide
  · rw [width]
    exact channel.narrow
  · rw [threshold, width, channel.threshold]
  · exact channel.blank
  · rw [mode, bitLen]
    exact channel.aligned
  · constructor
    · rw [bitLen]
      exact short
    · rw [bitData, bitLen]
      exact small
    · rw [bitData, bitLen, obuf]
      exact reads

theorem Framed.congr {e' : CompState} (framed : Framed start sent e v) (mode : e'.mode = e.mode)
    (escapeChar : e'.escapeChar = e.escapeChar) (width : e'.cwSize = e.cwSize)
    (threshold : e'.threshold = e.threshold) (bitLen : e'.bitLen = e.bitLen)
    (bitData : e'.bitData = e.bitData) (obuf : e'.obuf = e.obuf) :
    Framed start sent e' v :=
  { toChannel := framed.toChannel.congr mode width threshold bitLen bitData obuf
    escapeChar := by rw [escapeChar, framed.escapeChar] }

theorem Channel.wideView (channel : Channel start sent e v) : 9 ≤ v.cwSize := by
  rw [channel.width]
  exact channel.wide

theorem Channel.narrowView (channel : Channel start sent e v) : v.cwSize ≤ 11 := by
  rw [channel.width]
  exact channel.narrow

theorem Framed.clear (framed : Framed start sent e v) (mode : e.mode = .transparent)
    (ok : v.matcher.Ok) (fits : v.matcher.maxString ≤ compMaxString) : v.Clear := by
  exact ⟨framed.mode.trans mode, ok, fits, framed.wideView, framed.blank.1⟩

theorem Framed.sendData_transparent (framed : Framed start sent e v) (cw : Nat)
    (mode : e.mode = .transparent) (ok : v.matcher.Ok)
    (fits : v.matcher.maxString ≤ compMaxString) {m : Matcher}
    (ran : v.matcher.run e.strData = .ok m) :
    ∃ e' v', e.sendData cw = .ok e' ∧ e.Emptied e' ∧ Framed start sent e' v' ∧
      v'.matcher = m ∧ v'.text = v.text ++ e.strData := by
  have reads := (framed.clear mode ok fits).reads_escapeBytes framed.idle e.strData m ran
  have wide := framed.wideView
  obtain ⟨_, link⟩ := framed.link.bytes (framed.aligned mode) (by exact framed.blank)
    (by exact wide) reads
  rw [framed.escapeChar] at link
  refine ⟨{ e.countBits with
      obuf := e.obuf ++ CompState.escapeBytes e.escapeChar e.strData
      escapeChar := cycleEscape e.escapeChar e.strData
      strData := []
      flushedLen := 0 },
    { v.typed m e.strData with escapeChar := cycleEscape e.escapeChar e.strData },
    ?_, ?_, ?_, rfl, rfl⟩
  · unfold CompState.sendData
    rw [CompState.emitString_transparent cw (show e.countBits.mode = .transparent from mode)]
    rfl
  · exact ⟨rfl, rfl, rfl, rfl, rfl, rfl, rfl, rfl⟩
  · exact ⟨⟨framed.mode, framed.idle, framed.width, framed.wide, framed.narrow,
      framed.threshold, framed.blank, framed.aligned, link.short, link.small, link.reads⟩, rfl⟩

/-- The `STEPUP` loop makes room for a codeword below 2048. -/
theorem Channel.stepUp_spec (channel : Channel start sent e v) (cw fuel : Nat)
    (mode : e.mode = .compressed) (bounded : cw < 2 ^ 11) (enough : 11 ≤ e.cwSize + fuel)
    (allowed : 11 ≤ v.matcher.dict.dictSize / 8) :
    ∃ obuf bitData bitLen cwSize,
      CompState.stepUp cw fuel e =
        .ok { e.putting obuf bitData bitLen with cwSize := cwSize, threshold := 2 ^ cwSize } ∧
      cw < 2 ^ cwSize ∧
      Channel start sent
        { e.putting obuf bitData bitLen with cwSize := cwSize, threshold := 2 ^ cwSize }
        { v with cwSize := cwSize } := by
  induction fuel generalizing e v with
  | zero =>
      have widthEq : e.cwSize = 11 := by
        have := channel.narrow
        omega
      have below : ¬cw ≥ e.threshold := by
        rw [channel.threshold, widthEq]
        omega
      refine ⟨e.obuf, e.bitData, e.bitLen, e.cwSize, ?_, ?_, ?_⟩
      · rw [CompState.stepUp, if_neg below, ← channel.threshold]
        rfl
      · rw [widthEq]
        exact bounded
      · rw [← channel.threshold, ← channel.width]
        exact channel.congr rfl channel.width rfl rfl rfl rfl
  | succ fuel ih =>
      by_cases above : cw ≥ e.threshold
      · rw [channel.threshold] at above
        have narrower : e.cwSize < 11 := by
          by_contra wide
          have : 2 ^ 11 ≤ 2 ^ e.cwSize := Nat.pow_le_pow_right (by decide) (by omega)
          omega
        have takes : Takes v ccwStepup { v with cwSize := v.cwSize + 1 } := by
          apply takes_stepup (channel.mode.trans mode) channel.blank
          rw [channel.width]
          omega
        have smallCw : ccwStepup < 2 ^ v.cwSize :=
          calc ccwStepup < 2 ^ 9 := by decide
            _ ≤ 2 ^ v.cwSize := Nat.pow_le_pow_right (by decide) channel.wideView
        obtain ⟨obuf, bitData, bitLen, sentEq, link⟩ := channel.link.word channel.wideView
          channel.narrowView channel.width smallCw takes
        have doubled : e.threshold * 2 % 2 ^ 16 = 2 ^ (e.cwSize + 1) := by
          rw [channel.threshold, ← Nat.pow_succ]
          apply Nat.mod_eq_of_lt
          exact Nat.pow_lt_pow_right (by decide) (by omega)
        have channel₁ : Channel start sent
            { e.putting obuf bitData bitLen with
              cwSize := e.cwSize + 1, threshold := 2 ^ (e.cwSize + 1) }
            { v with cwSize := v.cwSize + 1 } := by
          refine ⟨channel.mode, channel.idle, ?_, ?_, ?_, rfl, channel.blank, ?_,
            link.short, link.small, link.reads⟩
          · exact congrArg (· + 1) channel.width
          · exact Nat.le_succ_of_le channel.wide
          · exact narrower
          · intro transparent
            exact absurd (mode.symm.trans transparent) (by decide)
        obtain ⟨obuf', bitData', bitLen', cwSize, stepped, fits, channel'⟩ := ih channel₁ mode
          (by change 11 ≤ e.cwSize + 1 + fuel; omega) allowed
        refine ⟨obuf', bitData', bitLen', cwSize, ?_, fits, ?_⟩
        · rw [CompState.stepUp, if_pos (by rw [channel.threshold]; exact above), sentEq]
          refine Eq.trans ?_ stepped
          simp only [CompState.putting, doubled]
        · exact channel'
      · refine ⟨e.obuf, e.bitData, e.bitLen, e.cwSize, ?_, ?_, ?_⟩
        · rw [CompState.stepUp, if_neg above, ← channel.threshold]
          rfl
        · rw [channel.threshold] at above
          omega
        · rw [← channel.threshold, ← channel.width]
          exact channel.congr rfl channel.width rfl rfl rfl rfl

theorem Framed.sendData_compressed (framed : Framed start sent e v) (cw : Nat)
    (mode : e.mode = .compressed) (bounded : cw < 2 ^ 11)
    (allowed : 11 ≤ v.matcher.dict.dictSize / 8) (m : Matcher)
    (takes : ∀ width, Takes { v with cwSize := width } cw
      { v with
        cwSize := width
        escapeChar := cycleEscape v.escapeChar e.strData
        matcher := m
        text := v.text ++ e.strData }) :
    ∃ e' v', e.sendData cw = .ok e' ∧ e.Emptied e' ∧ Framed start sent e' v' ∧
      v'.matcher = m ∧ v'.text = v.text ++ e.strData := by
  have cycled : Channel start sent
      { e.countBits with escapeChar := cycleEscape e.escapeChar e.strData } v :=
    framed.toChannel.congr rfl rfl rfl rfl rfl rfl
  obtain ⟨obuf, bitData, bitLen, cwSize, stepped, fits, channel⟩ := cycled.stepUp_spec cw 16 mode
    bounded (by have := framed.wide; change 11 ≤ e.cwSize + 16; omega) allowed
  obtain ⟨obuf', bitData', bitLen', sentEq, link⟩ := channel.link.word channel.wideView
    channel.narrowView channel.width fits (takes cwSize)
  refine ⟨{ ({ e.countBits with
      escapeChar := cycleEscape e.escapeChar e.strData } : CompState).putting
        obuf' bitData' bitLen' with
      cwSize := cwSize
      threshold := 2 ^ cwSize
      strData := []
      flushedLen := 0 },
    { v with
      cwSize := cwSize
      escapeChar := cycleEscape v.escapeChar e.strData
      matcher := m
      text := v.text ++ e.strData }, ?_, ?_, ?_, rfl, rfl⟩
  · unfold CompState.sendData
    rw [CompState.emitString_compressed cw (show e.countBits.mode = .compressed from mode)]
    change (do
      let c ← (do
        let c ← CompState.stepUp cw 16
          { e.countBits with escapeChar := cycleEscape e.escapeChar e.strData }
        Except.ok (c.sendCw cw).sendBits)
      Except.ok { c with strData := [], flushedLen := 0 }) = _
    rw [stepped, ok_bind, ok_bind, sentEq]
    rfl
  · exact ⟨rfl, rfl, rfl, rfl, rfl, rfl, rfl, rfl⟩
  · refine ⟨⟨framed.mode, framed.idle, rfl, channel.wide, channel.narrow, rfl, framed.blank, ?_,
      link.short, link.small, link.reads⟩, ?_⟩
    · intro transparent
      exact absurd (mode.symm.trans transparent) (by decide)
    · exact congrArg (fun char => cycleEscape char e.strData) framed.escapeChar

end Strings

end DModem.Comp
