/-
Polling an idle encoder.

`comp_flush_encoder` infers from the mode, `update_at` and `last_matched` whether there is
something to flush.  A transparent encoder keeps the string open, so that every further flush
counts a codeword that is not sent; a compressed encoder without an open string sends a
`CCW_FLUSH` every time.
-/

import DModem.Comp.Tree

namespace DModem.Comp

namespace CompState

/-- A second flush does nothing: nothing is emitted, and the state stays as it is. -/
def FlushesOnce (e : CompState) : Prop :=
  ∀ e₁, e.compFlushEncoder = .ok e₁ → e₁.compFlushEncoder = .ok e₁

/-- A flush has nothing to do, or leaves an update point behind. -/
def Pollable (e : CompState) : Prop :=
  e.updateAt ≠ 0 ∨ (e.mode = .transparent ∧ e.lastMatched = 0) ∨
    (e.mode = .compressed ∧ e.lastMatched ≠ 0)

/-- The codeword size follows the threshold, which is a 16-bit number. -/
structure Sized (e : CompState) : Prop where
  wide : 9 ≤ e.cwSize
  threshold : e.threshold = 2 ^ e.cwSize % 2 ^ 16
  positive : 0 < e.threshold

section Size

variable {e e' : CompState}

theorem Sized.congr (sized : Sized e) (threshold : e'.threshold = e.threshold)
    (cwSize : e'.cwSize = e.cwSize) : Sized e' := by
  constructor
  · rw [cwSize]
    exact sized.wide
  · rw [threshold, cwSize]
    exact sized.threshold
  · rw [threshold]
    exact sized.positive

theorem Sized.narrow (sized : Sized e) : e.cwSize < 16 := by
  by_contra wide
  have divides : (2 : Nat) ^ 16 ∣ 2 ^ e.cwSize := Nat.pow_dvd_pow 2 (by omega)
  have zero := Nat.mod_eq_zero_of_dvd divides
  have positive := sized.positive
  rw [sized.threshold, zero] at positive
  omega

theorem alignCw_sized (sized : Sized e) (cw : Nat) :
    Sized ((e.sendCw cw).alignBits).sendBits := by
  obtain ⟨-, thresholdEq, cwSizeEq⟩ := sendBits_kept (e.sendCw cw).alignBits
  obtain ⟨pad, -, -, aligned⟩ := alignBits_eq (e.sendCw cw)
  rw [aligned] at thresholdEq cwSizeEq ⊢
  exact sized.congr thresholdEq cwSizeEq

theorem stepUp_sized {cw fuel : Nat} (wide : 9 ≤ e.cwSize)
    (threshold : e.threshold = 2 ^ e.cwSize % 2 ^ 16) (stepped : stepUp cw fuel e = .ok e') :
    Sized e' := by
  induction fuel generalizing e with
  | zero =>
      rw [stepUp] at stepped
      split at stepped
      · cases stepped
      · rename_i above
        obtain rfl := Except.ok.inj stepped
        exact ⟨wide, threshold, by omega⟩
  | succ fuel ih =>
      rw [stepUp] at stepped
      split at stepped
      · obtain ⟨-, thresholdEq, cwSizeEq⟩ := sendBits_kept (e.sendCw ccwStepup)
        have thresholdEq : (e.sendCw ccwStepup).sendBits.threshold = e.threshold := thresholdEq
        have cwSizeEq : (e.sendCw ccwStepup).sendBits.cwSize = e.cwSize := cwSizeEq
        refine ih ?_ ?_ stepped
        · simp only [cwSizeEq]
          omega
        · simp only [thresholdEq, cwSizeEq, threshold, pow_succ]
          rw [Nat.mod_mul_mod]
      · rename_i above
        obtain rfl := Except.ok.inj stepped
        exact ⟨wide, threshold, by omega⟩

theorem sendData_sized {cw : Nat} (sized : Sized e) (sent : e.sendData cw = .ok e') :
    Sized e' := by
  unfold CompState.sendData at sent
  obtain ⟨e₁, emitted, sent⟩ := bind_eq_ok.mp sent
  obtain rfl := Except.ok.inj sent
  unfold emitString at emitted
  split at emitted
  · obtain rfl := Except.ok.inj emitted
    exact sized.congr rfl rfl
  · obtain ⟨e₂, stepped, emitted⟩ := bind_eq_ok.mp emitted
    obtain rfl := Except.ok.inj emitted
    have counted : Sized
        { e.countBits with escapeChar := cycleEscape e.escapeChar e.strData } :=
      sized.congr rfl rfl
    have grown : Sized e₂ := stepUp_sized counted.wide counted.threshold stepped
    obtain ⟨-, thresholdEq, cwSizeEq⟩ := sendBits_kept (e₂.sendCw cw)
    exact grown.congr thresholdEq cwSizeEq

theorem sendPending_sized (sized : Sized e) (sent : e.sendPending = .ok e') : Sized e' := by
  unfold CompState.sendPending at sent
  split at sent
  · obtain ⟨e₁, closed, sent⟩ := bind_eq_ok.mp sent
    obtain rfl := Except.ok.inj sent
    have begun : Sized { e with updateAt := e.lastMatched } := sized.congr rfl rfl
    exact (sendData_sized begun closed).congr rfl rfl
  · obtain rfl := Except.ok.inj sent
    exact sized

theorem testMode_sized (sized : Sized e) (tested : e.testMode = .ok e') : Sized e' := by
  unfold CompState.testMode at tested
  split at tested
  · split at tested
    · obtain ⟨e₁, sent, tested⟩ := bind_eq_ok.mp tested
      obtain rfl := Except.ok.inj tested
      exact (sendPending_sized sized sent).congr rfl rfl
    · obtain rfl := Except.ok.inj tested
      exact sized
  · split at tested
    · obtain ⟨e₁, sent, tested⟩ := bind_eq_ok.mp tested
      obtain rfl := Except.ok.inj tested
      have cleared : Sized { e₁ with lastAdded := 0 } :=
        (sendPending_sized sized sent).congr rfl rfl
      exact (alignCw_sized cleared ccwEtm).congr rfl rfl
    · obtain rfl := Except.ok.inj tested
      exact sized

theorem updateDict_sized {ch : UInt8} (sized : Sized e) (updated : e.updateDict ch = .ok e') :
    Sized e' := by
  unfold CompState.updateDict at updated
  split at updated
  · obtain ⟨found, _, updated⟩ := bind_eq_ok.mp updated
    split at updated
    · obtain ⟨⟨dict, new⟩, _, updated⟩ := bind_eq_ok.mp updated
      obtain rfl := Except.ok.inj updated
      exact sized.congr rfl rfl
    · obtain rfl := Except.ok.inj updated
      exact sized.congr rfl rfl
  · obtain rfl := Except.ok.inj updated
    exact sized

theorem matchString_sized (sized : Sized e) (input : List UInt8) {left : List UInt8}
    (matched : e.matchString input = .ok (e', left)) : Sized e' := by
  induction input generalizing e with
  | nil =>
      obtain ⟨rfl, _⟩ := Prod.mk.inj (Except.ok.inj matched)
      exact sized
  | cons ch rest ih =>
      rw [CompState.matchString] at matched
      obtain ⟨cw, _, matched⟩ := bind_eq_ok.mp matched
      split at matched
      · obtain ⟨e₁, sent, matched⟩ := bind_eq_ok.mp matched
        obtain ⟨rfl, _⟩ := Prod.mk.inj (Except.ok.inj matched)
        have begun : Sized { e with updateAt := e.lastMatched } := sized.congr rfl rfl
        exact (sendData_sized begun sent).congr rfl rfl
      · split at matched
        · obtain ⟨e₁, sent, matched⟩ := bind_eq_ok.mp matched
          obtain ⟨rfl, _⟩ := Prod.mk.inj (Except.ok.inj matched)
          have begun : Sized { e with lastAdded := 0 } := sized.congr rfl rfl
          exact (sendData_sized begun sent).congr rfl rfl
        · obtain ⟨e₁, pushed, matched⟩ := bind_eq_ok.mp matched
          have joined : Sized e₁ := by
            unfold CompState.pushChar at pushed
            split at pushed
            · obtain rfl := Except.ok.inj pushed
              exact sized.congr rfl rfl
            · cases pushed
          split at matched
          · obtain ⟨e₂, sent, matched⟩ := bind_eq_ok.mp matched
            obtain ⟨rfl, _⟩ := Prod.mk.inj (Except.ok.inj matched)
            exact (sendData_sized joined sent).congr rfl rfl
          · exact ih joined matched

theorem encodeLoop_sized (sized : Sized e) (fuel : Nat) {input : List UInt8}
    (encoded : CompState.encodeLoop fuel e input = .ok e') : Sized e' := by
  induction fuel generalizing e input with
  | zero =>
      cases input with
      | nil =>
          obtain rfl := Except.ok.inj encoded
          exact sized
      | cons ch rest => cases encoded
  | succ fuel ih =>
      cases input with
      | nil =>
          obtain rfl := Except.ok.inj encoded
          exact sized
      | cons ch rest =>
          rw [CompState.encodeLoop] at encoded
          obtain ⟨e₁, updated, encoded⟩ := bind_eq_ok.mp encoded
          obtain ⟨⟨e₂, left⟩, matched, encoded⟩ := bind_eq_ok.mp encoded
          obtain ⟨e₃, tested, encoded⟩ := bind_eq_ok.mp encoded
          have grown := updateDict_sized sized updated
          exact ih (testMode_sized (matchString_sized grown _ matched) tested) encoded

theorem flushCodeword_sized (sized : Sized e) : Sized e.flushCodeword := by
  unfold CompState.flushCodeword
  split
  · exact sized
  · have begun : Sized { e with updateAt := e.lastMatched, lastMatched := 0, flushedLen := 0 } :=
      sized.congr rfl rfl
    exact alignCw_sized begun ccwFlush

theorem compFlushEncoder_sized (sized : Sized e) (flushed : e.compFlushEncoder = .ok e') :
    Sized e' := by
  unfold CompState.compFlushEncoder at flushed
  split at flushed
  · obtain rfl := Except.ok.inj flushed
    exact sized
  · split at flushed
    · obtain ⟨e₁, sent, flushed⟩ := bind_eq_ok.mp flushed
      obtain rfl := Except.ok.inj flushed
      have counted : Sized { e₁ with flushedLen := e.flushedLen + e.strData.length } :=
        (sendData_sized sized sent).congr rfl rfl
      exact flushCodeword_sized counted
    · obtain rfl := Except.ok.inj flushed
      exact flushCodeword_sized sized

theorem encoderStep_sized (sized : Sized e) {call : EncoderCall}
    (stepped : e.encoderStep call = .ok e') : Sized e' := by
  cases call with
  | encode input =>
      rw [CompState.encoderStep] at stepped
      obtain ⟨e₁, encoded, stepped⟩ := bind_eq_ok.mp stepped
      obtain rfl := Except.ok.inj stepped
      exact (encodeLoop_sized sized _ encoded).congr rfl rfl
  | flush =>
      rw [CompState.encoderStep] at stepped
      obtain ⟨e₁, flushed, stepped⟩ := bind_eq_ok.mp stepped
      obtain rfl := Except.ok.inj stepped
      exact (compFlushEncoder_sized sized flushed).congr rfl rfl

theorem encoderRun_sized (sized : Sized e) (calls : List EncoderCall)
    (ran : e.encoderRun calls = .ok e') : Sized e' := by
  induction calls generalizing e with
  | nil =>
      obtain rfl := Except.ok.inj ran
      exact sized
  | cons call rest ih =>
      rw [CompState.encoderRun] at ran
      obtain ⟨e₁, stepped, ran⟩ := bind_eq_ok.mp ran
      exact ih (encoderStep_sized sized stepped) ran

theorem compInit_sized {dictSize maxStr : Int} {c : CompState}
    (initialised : compInit dictSize maxStr = some c) : Sized c := by
  unfold compInit at initialised
  split at initialised
  · cases initialised
  · obtain rfl := Option.some.inj initialised
    have fresh : Sized (dictInit (compAlloc minDictSize.toNat 34)) :=
      ⟨by decide, by decide, by decide⟩
    exact fresh.congr rfl rfl

end Size

section Flush

variable {e : CompState}

theorem sendBytes_putting (count : Nat) (e : CompState) :
    ∃ bytes bitData, bytes.length = count ∧
      sendBytes count e = e.putting (e.obuf ++ bytes) bitData (e.bitLen - 8 * count) := by
  induction count generalizing e with
  | zero =>
      refine ⟨[], e.bitData, rfl, ?_⟩
      rw [List.append_nil]
      rfl
  | succ count ih =>
      obtain ⟨bytes, bitData, length, sent⟩ := ih
        (e.putting (e.obuf ++ [UInt8.ofNat (e.bitData % 256)]) (e.bitData >>> 8) (e.bitLen - 8))
      refine ⟨UInt8.ofNat (e.bitData % 256) :: bytes, bitData, congrArg (· + 1) length, ?_⟩
      refine sent.trans ?_
      have lenEq : e.bitLen - 8 - 8 * count = e.bitLen - 8 * (count + 1) := by omega
      simp only [putting, lenEq, List.append_assoc, List.singleton_append]

theorem sendBits_putting (e : CompState) :
    ∃ bytes bitData, bytes.length = e.bitLen / 8 ∧
      e.sendBits = e.putting (e.obuf ++ bytes) bitData (e.bitLen % 8) := by
  obtain ⟨bytes, bitData, length, sent⟩ := sendBytes_putting (e.bitLen / 8) e
  refine ⟨bytes, bitData, length, sent.trans ?_⟩
  have lenEq : e.bitLen - 8 * (e.bitLen / 8) = e.bitLen % 8 := by omega
  rw [lenEq]

theorem alignCw_putting (e : CompState) (cw : Nat) :
    ∃ bytes bitData, bytes.length = (e.bitLen + e.cwSize + 7) / 8 ∧
      ((e.sendCw cw).alignBits).sendBits = e.putting (e.obuf ++ bytes) bitData 0 := by
  obtain ⟨pad, padShort, whole, aligned⟩ := alignBits_eq (e.sendCw cw)
  change (e.bitLen + e.cwSize + pad) % 8 = 0 at whole
  obtain ⟨bytes, bitData, length, sent⟩ := sendBits_putting (e.sendCw cw).alignBits
  rw [aligned] at length sent ⊢
  change bytes.length = (e.bitLen + e.cwSize + pad) / 8 at length
  refine ⟨bytes, bitData, by omega, sent.trans ?_⟩
  have none : ((e.sendCw cw).putting (e.sendCw cw).obuf (e.sendCw cw).bitData
      ((e.sendCw cw).bitLen + pad)).bitLen % 8 = 0 := whole
  rw [none]
  rfl

theorem flush_settled (settled : e.updateAt ≠ 0) : e.compFlushEncoder = .ok e := if_pos settled

theorem flush_closed (settled : e.updateAt = 0) (idle : e.lastMatched = 0) :
    e.compFlushEncoder = .ok e.flushCodeword := by
  unfold compFlushEncoder
  rw [if_neg (not_not_intro settled), if_neg (not_not_intro idle)]

theorem flush_open (settled : e.updateAt = 0) (pending : e.lastMatched ≠ 0) {sent : CompState}
    (sentEq : e.sendData e.lastMatched = .ok sent) :
    e.compFlushEncoder = .ok
      ({ sent with flushedLen := e.flushedLen + e.strData.length } : CompState).flushCodeword := by
  unfold compFlushEncoder
  rw [if_neg (not_not_intro settled), if_pos pending, sentEq, ok_bind]

theorem stepUp_point {cw fuel : Nat} {e' : CompState} (stepped : stepUp cw fuel e = .ok e') :
    e'.mode = e.mode ∧ e'.lastMatched = e.lastMatched := by
  induction fuel generalizing e with
  | zero =>
      rw [stepUp] at stepped
      split at stepped
      · cases stepped
      · obtain rfl := Except.ok.inj stepped
        exact ⟨rfl, rfl⟩
  | succ fuel ih =>
      rw [stepUp] at stepped
      split at stepped
      · obtain ⟨modeEq, matchedEq⟩ := ih stepped
        obtain ⟨bytes, bitData, -, sent⟩ := sendBits_putting (e.sendCw ccwStepup)
        rw [sent] at modeEq matchedEq
        exact ⟨modeEq, matchedEq⟩
      · obtain rfl := Except.ok.inj stepped
        exact ⟨rfl, rfl⟩

theorem sendData_point {cw : Nat} {sent : CompState} (sentEq : e.sendData cw = .ok sent) :
    sent.mode = e.mode ∧ sent.lastMatched = e.lastMatched := by
  unfold sendData at sentEq
  obtain ⟨e₁, emitted, sentEq⟩ := bind_eq_ok.mp sentEq
  obtain rfl := Except.ok.inj sentEq
  unfold emitString at emitted
  split at emitted
  · rename_i mode
    obtain rfl := Except.ok.inj emitted
    exact ⟨rfl, rfl⟩
  · obtain ⟨e₂, stepped, emitted⟩ := bind_eq_ok.mp emitted
    obtain rfl := Except.ok.inj emitted
    obtain ⟨modeEq, matchedEq⟩ := stepUp_point stepped
    obtain ⟨bytes, bitData, -, sent⟩ := sendBits_putting (e₂.sendCw cw)
    rw [sent]
    exact ⟨modeEq, matchedEq⟩

theorem flush_counts (mode : e.mode = .transparent) (settled : e.updateAt = 0)
    (pending : e.lastMatched ≠ 0) :
    ∃ e₁, e.compFlushEncoder = .ok e₁ ∧ e₁.mode = .transparent ∧ e₁.updateAt = 0 ∧
      e₁.lastMatched = e.lastMatched ∧ e₁.cwSize = e.cwSize ∧
      e₁.cmpBits = (e.cmpBits + e.cwSize) % 2 ^ 32 := by
  obtain ⟨sent, sentEq, modeEq, updateEq, matchedEq, sizeEq, bitsEq⟩ :
      ∃ sent, e.sendData e.lastMatched = .ok sent ∧ sent.mode = .transparent ∧
        sent.updateAt = e.updateAt ∧ sent.lastMatched = e.lastMatched ∧
        sent.cwSize = e.cwSize ∧ sent.cmpBits = (e.cmpBits + e.cwSize) % 2 ^ 32 := by
    have same : e.countBits.mode = .transparent := mode
    unfold sendData
    rw [emitString_transparent e.lastMatched same, ok_bind]
    exact ⟨_, rfl, same, rfl, rfl, rfl, rfl⟩
  have flushed := flush_open settled pending sentEq
  have unchanged := @flushCodeword_transparent
    { sent with flushedLen := e.flushedLen + e.strData.length } modeEq
  rw [unchanged] at flushed
  exact ⟨_, flushed, modeEq, updateEq.trans settled, matchedEq, sizeEq, bitsEq⟩

/-- A compressed encoder without an open string sends a `CCW_FLUSH`. -/
theorem flush_emits (sized : Sized e) (mode : e.mode = .compressed) (settled : e.updateAt = 0)
    (idle : e.lastMatched = 0) :
    ∃ e₁, e.compFlushEncoder = .ok e₁ ∧ Sized e₁ ∧ e₁.mode = .compressed ∧ e₁.updateAt = 0 ∧
      e₁.lastMatched = 0 ∧ e.obuf.length < e₁.obuf.length := by
  have begun : Sized (({ e.pointedAt e.lastMatched with flushedLen := 0 } : CompState)) :=
    sized.congr rfl rfl
  have flushed := flush_closed settled idle
  rw [flushCodeword_compressed mode] at flushed
  obtain ⟨bytes, bitData, length, sent⟩ :=
    alignCw_putting ({ e.pointedAt e.lastMatched with flushedLen := 0 } : CompState) ccwFlush
  have sized₁ := alignCw_sized begun ccwFlush
  rw [sent] at flushed sized₁
  refine ⟨_, flushed, sized₁, mode, idle, rfl, ?_⟩
  have wide := sized.wide
  change bytes.length = (e.bitLen + e.cwSize + 7) / 8 at length
  change e.obuf.length < (e.obuf ++ bytes).length
  rw [List.length_append]
  omega

theorem FlushesOnce.pollable (once : e.FlushesOnce) (sized : Sized e) : e.Pollable := by
  unfold Pollable
  by_cases settled : e.updateAt = 0
  · right
    rcases e.mode_cases with mode | mode
    · left
      refine ⟨mode, ?_⟩
      by_contra pending
      obtain ⟨e₁, flushed, mode₁, settled₁, same, size, counted⟩ := flush_counts mode settled pending
      have pending₁ : e₁.lastMatched ≠ 0 := by
        rw [same]
        exact pending
      obtain ⟨e₂, again, -, -, -, -, recounted⟩ := flush_counts mode₁ settled₁ pending₁
      have stays := Except.ok.inj ((once e₁ flushed).symm.trans again)
      have wide := sized.wide
      have narrow := sized.narrow
      rw [← stays, size, counted] at recounted
      omega
    · right
      refine ⟨mode, fun idle => ?_⟩
      obtain ⟨e₁, flushed, sized₁, mode₁, settled₁, idle₁, -⟩ :=
        flush_emits sized mode settled idle
      obtain ⟨e₂, again, -, -, -, -, more⟩ := flush_emits sized₁ mode₁ settled₁ idle₁
      have stays := Except.ok.inj ((once e₁ flushed).symm.trans again)
      rw [← stays] at more
      exact Nat.lt_irrefl _ more
  · exact Or.inl settled

theorem Pollable.flushesOnce (pollable : e.Pollable) : e.FlushesOnce := by
  intro e₁ flushed
  by_cases settled : e.updateAt = 0
  · rcases pollable with pending | ⟨mode, idle⟩ | ⟨mode, pending⟩
    · exact absurd settled pending
    · rw [flush_closed settled idle, flushCodeword_transparent mode] at flushed
      obtain rfl := Except.ok.inj flushed
      rw [flush_closed settled idle, flushCodeword_transparent mode]
    · apply flush_settled
      unfold compFlushEncoder at flushed
      rw [if_neg (not_not_intro settled), if_pos pending] at flushed
      obtain ⟨sent, sentEq, flushed⟩ := bind_eq_ok.mp flushed
      obtain rfl := Except.ok.inj flushed
      obtain ⟨modeEq, matchedEq⟩ := sendData_point sentEq
      have compressed : ({ sent with
          flushedLen := e.flushedLen + e.strData.length } : CompState).mode = .compressed :=
        modeEq.trans mode
      rw [flushCodeword_compressed compressed]
      obtain ⟨bytes, bitData, -, flush⟩ := alignCw_putting
        ({ CompState.pointedAt { sent with flushedLen := e.flushedLen + e.strData.length }
          sent.lastMatched with flushedLen := 0 } : CompState) ccwFlush
      rw [flush]
      exact fun none => pending (matchedEq.symm.trans none)
  · rw [flush_settled settled] at flushed
    obtain rfl := Except.ok.inj flushed
    exact flush_settled settled

end Flush

end CompState

open CompState

/-- A flushed encoder is flushed again without effect exactly if it waits with an update point,
or is transparent without an open string, or compressed with one. -/
theorem flush_once_iff (dictSize maxStr : Int) (c e : CompState)
    (initialised : compInit dictSize maxStr = some c) (calls : List EncoderCall)
    (reached : c.encoderRun calls = .ok e) :
    e.FlushesOnce ↔ e.Pollable := by
  have sized := encoderRun_sized (compInit_sized initialised) calls reached
  exact ⟨fun once => once.pollable sized, Pollable.flushesOnce⟩

/-- Ten equal characters: the encoder compresses, and its open string is flushed once. -/
theorem flush_once_of_ten_chars :
    ∃ e, (dictInit (compAlloc 512 6)).encoderRun [.encode (List.replicate 10 97)] = .ok e ∧
      e.mode = .compressed ∧ e.lastMatched = 100 ∧ e.FlushesOnce := by
  refine ⟨_, rfl, by decide +kernel, by decide +kernel, ?_⟩
  apply (flush_once_iff 512 6 (dictInit (compAlloc 512 6)) _ rfl
    [.encode (List.replicate 10 97)] rfl).mpr
  exact Or.inr (Or.inr ⟨by decide +kernel, by decide +kernel⟩)

/-- One character is typed: the second flush counts its codeword again. -/
theorem flush_counts_again :
    compInit 512 6 = some (dictInit (compAlloc 512 6)) ∧
      ∃ e, (dictInit (compAlloc 512 6)).encoderRun [.encode [97]] = .ok e ∧ ¬ e.FlushesOnce := by
  refine ⟨rfl, _, rfl, fun once => ?_⟩
  have sized := encoderRun_sized (compInit_sized (rfl : compInit 512 6 = some _))
    [.encode [97]] rfl
  have pollable := once.pollable sized
  rcases pollable with pending | ⟨-, idle⟩ | ⟨mode, -⟩
  · exact pending rfl
  · exact absurd idle (by decide +kernel)
  · cases mode

end DModem.Comp
