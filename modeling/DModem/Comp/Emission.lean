/-
What one call of the encoder can emit.

A character sends at most one string in full and one that it begins, with an escape after each
byte, or codewords with their `STEPUP`s, and at most two mode switches; a flush sends one
string.  No call emits more than 122 bytes.
-/

import DModem.Comp.Poll

namespace DModem.Comp

namespace CompState

/-- At most `count` bytes are appended to the output. -/
structure Emits (e : CompState) (count : Nat) (e' : CompState) : Prop where
  appends : ∃ bytes, e'.obuf = e.obuf ++ bytes ∧ bytes.length ≤ count
  ohead : e'.ohead = e.ohead

section Emission

variable {e e' e'' : CompState} {count more : Nat}

theorem Emits.refl (e : CompState) : Emits e 0 e :=
  ⟨⟨[], (List.append_nil _).symm, Nat.le_refl 0⟩, rfl⟩

theorem Emits.le (emits : Emits e count e') (less : count ≤ more) : Emits e more e' := by
  obtain ⟨bytes, obuf, length⟩ := emits.appends
  exact ⟨⟨bytes, obuf, Nat.le_trans length less⟩, emits.ohead⟩

theorem Emits.trans (first : Emits e count e') (second : Emits e' more e'') :
    Emits e (count + more) e'' := by
  obtain ⟨bytes, obuf, length⟩ := first.appends
  obtain ⟨others, obuf', length'⟩ := second.appends
  refine ⟨⟨bytes ++ others, ?_, ?_⟩, second.ohead.trans first.ohead⟩
  · rw [obuf', obuf, List.append_assoc]
  · rw [List.length_append]
    omega

theorem Emits.congr {before after : CompState} (emits : Emits e count e')
    (obuf : before.obuf = e.obuf) (ohead : before.ohead = e.ohead)
    (obuf' : after.obuf = e'.obuf) (ohead' : after.ohead = e'.ohead) :
    Emits before count after := by
  obtain ⟨bytes, appended, length⟩ := emits.appends
  refine ⟨⟨bytes, ?_, length⟩, ?_⟩
  · rw [obuf', obuf, appended]
  · rw [ohead', ohead, emits.ohead]

theorem sendCw_emits (cw : Nat) (short : e.bitLen < 8) (narrow : e.cwSize ≤ 11) :
    Emits e 2 (e.sendCw cw).sendBits ∧ (e.sendCw cw).sendBits.bitLen < 8 ∧
      (e.sendCw cw).sendBits.cwSize = e.cwSize := by
  obtain ⟨bytes, bitData, length, sent⟩ := sendBits_putting (e.sendCw cw)
  change bytes.length = (e.bitLen + e.cwSize) / 8 at length
  rw [sent]
  refine ⟨⟨⟨bytes, rfl, by omega⟩, rfl⟩, ?_, rfl⟩
  change (e.sendCw cw).bitLen % 8 < 8
  omega

theorem alignCw_emits (cw : Nat) (short : e.bitLen < 8) (narrow : e.cwSize ≤ 11) :
    Emits e 3 ((e.sendCw cw).alignBits).sendBits ∧
      ((e.sendCw cw).alignBits).sendBits.bitLen < 8 := by
  obtain ⟨bytes, bitData, length, sent⟩ := alignCw_putting e cw
  rw [sent]
  refine ⟨⟨⟨bytes, rfl, by omega⟩, rfl⟩, ?_⟩
  change 0 < 8
  omega

theorem stepUp_emits {cw fuel : Nat} (stepped : stepUp cw fuel e = .ok e')
    (narrow : e'.cwSize ≤ 11) (short : e.bitLen < 8) :
    e.cwSize ≤ e'.cwSize ∧ e'.bitLen < 8 ∧ Emits e (2 * (e'.cwSize - e.cwSize)) e' := by
  induction fuel generalizing e with
  | zero =>
      rw [stepUp] at stepped
      split at stepped
      · cases stepped
      · obtain rfl := Except.ok.inj stepped
        exact ⟨Nat.le_refl _, short, (Emits.refl e).le (Nat.zero_le _)⟩
  | succ fuel ih =>
      rw [stepUp] at stepped
      split at stepped
      · obtain ⟨bytes, bitData, length, sent⟩ := sendBits_putting (e.sendCw ccwStepup)
        change bytes.length = (e.bitLen + e.cwSize) / 8 at length
        rw [sent] at stepped
        have below : e.bitLen % 8 < 8 := Nat.mod_lt _ (by decide)
        have shorter : (e.sendCw ccwStepup).bitLen % 8 < 8 := Nat.mod_lt _ (by decide)
        obtain ⟨grown, short', emits⟩ := ih stepped shorter
        change e.cwSize + 1 ≤ e'.cwSize at grown
        have step : Emits e 2
            ((e.sendCw ccwStepup).putting ((e.sendCw ccwStepup).obuf ++ bytes) bitData
              ((e.sendCw ccwStepup).bitLen % 8)) := by
          exact ⟨⟨bytes, rfl, by omega⟩, rfl⟩
        refine ⟨by omega, short', ?_⟩
        have whole := step.trans (emits.congr rfl rfl rfl rfl)
        refine whole.le ?_
        change 2 + 2 * (e'.cwSize - (e.cwSize + 1)) ≤ 2 * (e'.cwSize - e.cwSize)
        omega
      · obtain rfl := Except.ok.inj stepped
        exact ⟨Nat.le_refl _, short, (Emits.refl e).le (Nat.zero_le _)⟩

theorem escapeBytes_length (escapeChar : UInt8) (chars : List UInt8) :
    (escapeBytes escapeChar chars).length ≤ 2 * chars.length := by
  induction chars generalizing escapeChar with
  | nil => exact Nat.le_refl 0
  | cons ch rest ih =>
      unfold escapeBytes
      split
      · have later := ih (escapeChar + escapeStep)
        simp only [List.length_cons]
        omega
      · have later := ih escapeChar
        simp only [List.length_cons]
        omega

/-- A string: each byte with an escape, or a codeword with its `STEPUP`s. -/
theorem sendData_emits {cw : Nat} (sent : e.sendData cw = .ok e') (narrow : e'.cwSize ≤ 11)
    (short : e.bitLen < 8) :
    Emits e (2 * e.strData.length + 24) e' ∧ e'.bitLen < 8 ∧ e'.strData = [] := by
  unfold CompState.sendData at sent
  obtain ⟨e₁, emitted, sent⟩ := bind_eq_ok.mp sent
  obtain rfl := Except.ok.inj sent
  rcases e.mode_cases with mode | mode
  · rw [emitString_transparent cw (show e.countBits.mode = .transparent from mode)] at emitted
    obtain rfl := Except.ok.inj emitted
    have length := escapeBytes_length e.escapeChar e.strData
    exact ⟨⟨⟨escapeBytes e.escapeChar e.strData, rfl, by omega⟩, rfl⟩, short, rfl⟩
  · rw [emitString_compressed cw (show e.countBits.mode = .compressed from mode)] at emitted
    obtain ⟨e₂, stepped, emitted⟩ := bind_eq_ok.mp emitted
    obtain rfl := Except.ok.inj emitted
    obtain ⟨bytes, bitData, length, closed⟩ := sendBits_putting (e₂.sendCw cw)
    rw [closed] at narrow ⊢
    change e₂.cwSize ≤ 11 at narrow
    obtain ⟨grown, short₂, emits⟩ := stepUp_emits stepped narrow short
    obtain ⟨last, short', -⟩ := sendCw_emits cw short₂ narrow
    rw [closed] at last short'
    have all := emits.trans last
    refine ⟨Emits.le (Emits.congr all rfl rfl rfl rfl) ?_, short', rfl⟩
    omega

theorem sendPending_emits (sent : e.sendPending = .ok e') (narrow : e'.cwSize ≤ 11)
    (short : e.bitLen < 8) (closed : e.lastMatched = 0 → e.strData = []) :
    Emits e (2 * e.strData.length + 24) e' ∧ e'.bitLen < 8 ∧ e'.strData = [] ∧
      (e.lastMatched = 0 → e' = e) := by
  unfold CompState.sendPending at sent
  by_cases pending : e.lastMatched ≠ 0
  · rw [if_pos pending] at sent
    obtain ⟨e₁, sentEq, sent⟩ := bind_eq_ok.mp sent
    obtain rfl := Except.ok.inj sent
    obtain ⟨emits, short', empty⟩ := sendData_emits sentEq narrow short
    exact ⟨emits.congr rfl rfl rfl rfl, short', empty, fun idle => absurd idle pending⟩
  · have idle := not_not.mp pending
    rw [if_neg pending] at sent
    obtain rfl := Except.ok.inj sent
    exact ⟨(Emits.refl e).le (Nat.zero_le _), short, closed idle, fun _ => rfl⟩

theorem testMode_emits (tested : e.testMode = .ok e') (narrow : e'.cwSize ≤ 11)
    (short : e.bitLen < 8) (closed : e.lastMatched = 0 → e.strData = []) :
    Emits e (2 * e.strData.length + 27) e' ∧ e'.bitLen < 8 ∧
      (e.lastMatched = 0 → Emits e 3 e' ∧ e'.strData = []) := by
  have stays : Emits e (2 * e.strData.length + 27) e ∧ e.bitLen < 8 ∧
      (e.lastMatched = 0 → Emits e 3 e ∧ e.strData = []) :=
    ⟨(Emits.refl e).le (Nat.zero_le _), short,
      fun idle => ⟨(Emits.refl e).le (Nat.zero_le _), closed idle⟩⟩
  unfold CompState.testMode at tested
  cases mode : e.mode with
  | transparent =>
      rw [mode] at tested
      simp only at tested
      split at tested
      · obtain ⟨e₁, sent, tested⟩ := bind_eq_ok.mp tested
        obtain rfl := Except.ok.inj tested
        obtain ⟨emits, short', empty, same⟩ := sendPending_emits sent narrow short closed
        have switch : Emits e₁ 3
            { e₁ with
              obuf := e₁.obuf ++ [e₁.escapeChar, ccEcm]
              bitData := 0
              mode := .compressed } :=
          ⟨⟨[e₁.escapeChar, ccEcm], rfl, by simp⟩, rfl⟩
        refine ⟨emits.trans switch, short', fun idle => ⟨?_, empty⟩⟩
        rw [← same idle]
        exact switch
      · obtain rfl := Except.ok.inj tested
        exact stays
  | compressed =>
      rw [mode] at tested
      simp only at tested
      split at tested
      · obtain ⟨e₁, sent, tested⟩ := bind_eq_ok.mp tested
        obtain rfl := Except.ok.inj tested
        obtain ⟨bytes, bitData, length, closes⟩ := alignCw_putting { e₁ with lastAdded := 0 } ccwEtm
        rw [closes] at narrow ⊢
        obtain ⟨emits, short', empty, same⟩ := sendPending_emits sent narrow short closed
        change e₁.cwSize ≤ 11 at narrow
        change bytes.length = (e₁.bitLen + e₁.cwSize + 7) / 8 at length
        have switch : Emits e₁ 3
            { ({ e₁ with lastAdded := 0 } : CompState).putting (e₁.obuf ++ bytes) bitData 0 with
              mode := .transparent } :=
          ⟨⟨bytes, rfl, by omega⟩, rfl⟩
        refine ⟨emits.trans switch, Nat.zero_lt_succ 7, fun idle => ⟨?_, empty⟩⟩
        rw [← same idle]
        exact switch
      · obtain rfl := Except.ok.inj tested
        exact stays

theorem updateDict_emits {ch : UInt8} (updated : e.updateDict ch = .ok e') :
    e'.obuf = e.obuf ∧ e'.ohead = e.ohead ∧ e'.bitLen = e.bitLen ∧ e'.strData = e.strData := by
  unfold CompState.updateDict at updated
  split at updated
  · obtain ⟨found, _, updated⟩ := bind_eq_ok.mp updated
    split at updated
    · obtain ⟨⟨dict, new⟩, _, updated⟩ := bind_eq_ok.mp updated
      obtain rfl := Except.ok.inj updated
      exact ⟨rfl, rfl, rfl, rfl⟩
    · obtain rfl := Except.ok.inj updated
      exact ⟨rfl, rfl, rfl, rfl⟩
  · obtain rfl := Except.ok.inj updated
    exact ⟨rfl, rfl, rfl, rfl⟩

theorem matchString_emits {ch : UInt8} {left : List UInt8}
    (matched : e.matchString [ch] = .ok (e', left)) (narrow : e'.cwSize ≤ 11)
    (short : e.bitLen < 8) :
    e'.bitLen < 8 ∧
      ((left = [ch] ∧ Emits e (2 * e.strData.length + 24) e' ∧ e'.strData = [] ∧
          e'.lastMatched = 0) ∨
        (left = [] ∧ Emits e (2 * (e.strData.length + 1) + 24) e' ∧ e'.strData = [] ∧
          e'.lastMatched = 0) ∨
        (left = [] ∧ Emits e 0 e' ∧ e'.strData.length = e.strData.length + 1 ∧
          e'.lastMatched ≠ 0)) := by
  rw [CompState.matchString] at matched
  obtain ⟨cw, answer, matched⟩ := bind_eq_ok.mp matched
  by_cases absent : cw = 0
  · rw [if_pos absent] at matched
    obtain ⟨e₁, sent, matched⟩ := bind_eq_ok.mp matched
    obtain ⟨rfl, rfl⟩ := Prod.mk.inj (Except.ok.inj matched)
    obtain ⟨emits, short', empty⟩ := sendData_emits sent narrow short
    exact ⟨short', Or.inl ⟨rfl, emits.congr rfl rfl rfl rfl, empty, rfl⟩⟩
  · rw [if_neg absent] at matched
    by_cases reserved : cw = e.lastAdded
    · rw [if_pos reserved] at matched
      obtain ⟨e₁, sent, matched⟩ := bind_eq_ok.mp matched
      obtain ⟨rfl, rfl⟩ := Prod.mk.inj (Except.ok.inj matched)
      obtain ⟨emits, short', empty⟩ := sendData_emits sent narrow short
      exact ⟨short', Or.inl ⟨rfl, emits.congr rfl rfl rfl rfl, empty, rfl⟩⟩
    · rw [if_neg reserved] at matched
      obtain ⟨e₁, pushed, matched⟩ := bind_eq_ok.mp matched
      have joined : e₁ = { e with lastMatched := cw, strData := e.strData ++ [ch] } := by
        unfold CompState.pushChar at pushed
        split at pushed
        · exact (Except.ok.inj pushed).symm
        · cases pushed
      have length : e₁.strData.length = e.strData.length + 1 := by
        rw [joined]
        exact List.length_append
      by_cases longest : e₁.strData.length + e₁.flushedLen = e₁.maxString
      · rw [if_pos longest] at matched
        obtain ⟨e₂, sent, matched⟩ := bind_eq_ok.mp matched
        obtain ⟨rfl, rfl⟩ := Prod.mk.inj (Except.ok.inj matched)
        have short₁ : e₁.bitLen < 8 := by
          rw [joined]
          exact short
        obtain ⟨emits, short', empty⟩ := sendData_emits sent narrow short₁
        rw [length] at emits
        refine ⟨short', Or.inr (Or.inl ⟨rfl, ?_, empty, rfl⟩)⟩
        rw [joined] at emits
        exact emits.congr rfl rfl rfl rfl
      · rw [if_neg longest] at matched
        obtain ⟨rfl, rfl⟩ := Prod.mk.inj (Except.ok.inj matched)
        refine ⟨?_, Or.inr (Or.inr ⟨rfl, ?_, length, ?_⟩)⟩
        · rw [joined]
          exact short
        · rw [joined]
          exact (Emits.refl e).congr rfl rfl rfl rfl
        · rw [joined]
          exact absent

theorem Encodes.closed (encodes : Encodes e) (idle : e.lastMatched = 0) : e.strData = [] := by
  rcases encodes.ok.matched with ⟨_, none⟩ | ⟨live, _⟩
  · have sum : e.flushedLen + e.strData.length = 0 := none
    exact List.eq_nil_of_length_eq_zero (by omega)
  · exact absurd idle (Nat.pos_iff_ne_zero.mp live.pos)

theorem Encodes.strData_le (encodes : Encodes e) : e.strData.length ≤ 33 := by
  have below : e.flushedLen + e.strData.length < e.maxString := encodes.ok.total_lt
  have fits : e.maxString ≤ compMaxString := encodes.fits
  unfold compMaxString at fits
  omega

theorem Encodes.pass_emits (encodes : Encodes e) (short : e.bitLen < 8) {ch : UInt8}
    {e₁ e₂ e₃ : CompState} {left : List UInt8} (updated : e.updateDict ch = .ok e₁)
    (matched : e₁.matchString [ch] = .ok (e₂, left)) (tested : e₂.testMode = .ok e₃) :
    Encodes e₃ ∧ e₃.bitLen < 8 ∧
      ((left = [] ∧ Emits e (2 * e.strData.length + 29) e₃) ∨
        (left = [ch] ∧ Emits e (2 * e.strData.length + 27) e₃ ∧ e₃.strData = [])) := by
  obtain ⟨e₁', updated', encodes₁, settled, -⟩ := encodes.updateDict ch
  obtain rfl := Except.ok.inj (updated.symm.trans updated')
  obtain ⟨e₂', left', matched', encodes₂, -⟩ := encodes₁.matchString settled [ch]
  obtain ⟨rfl, rfl⟩ := Prod.mk.inj (Except.ok.inj (matched.symm.trans matched'))
  obtain ⟨e₃', tested', encodes₃, -⟩ := encodes₂.testMode
  obtain rfl := Except.ok.inj (tested.symm.trans tested')
  obtain ⟨obuf₁, ohead₁, bitLen₁, strData₁⟩ := updateDict_emits updated
  have begun : Emits e 0 e₁ := (Emits.refl e).congr rfl rfl obuf₁ ohead₁
  have short₁ : e₁.bitLen < 8 := by
    rw [bitLen₁]
    exact short
  obtain ⟨short₂, outcome⟩ := matchString_emits matched encodes₂.narrow short₁
  obtain ⟨switched, short₃, idles⟩ := testMode_emits tested encodes₃.narrow short₂ encodes₂.closed
  refine ⟨encodes₃, short₃, ?_⟩
  rw [strData₁] at outcome
  rcases outcome with ⟨stays, sent, empty, idle⟩ | ⟨taken, sent, empty, idle⟩ |
    ⟨taken, sent, length, pending⟩
  · obtain ⟨switch, empty₃⟩ := idles idle
    exact Or.inr ⟨stays, ((begun.trans sent).trans switch).le (by omega), empty₃⟩
  · obtain ⟨switch, -⟩ := idles idle
    exact Or.inl ⟨taken, ((begun.trans sent).trans switch).le (by omega)⟩
  · rw [length] at switched
    exact Or.inl ⟨taken, ((begun.trans sent).trans switched).le (by omega)⟩

/-- `comp_encode` for one character. -/
theorem Encodes.compEncode_emits (encodes : Encodes e) (short : e.bitLen < 8) {ch : UInt8}
    (encoded : e.compEncode [ch] = .ok e') :
    Encodes e' ∧ e'.bitLen < 8 ∧ Emits e 122 e' := by
  have few := encodes.strData_le
  unfold CompState.compEncode at encoded
  simp only [List.length_singleton, Nat.mul_one] at encoded
  rw [CompState.encodeLoop] at encoded
  obtain ⟨e₁, updated, encoded⟩ := bind_eq_ok.mp encoded
  obtain ⟨⟨e₂, left⟩, matched, encoded⟩ := bind_eq_ok.mp encoded
  obtain ⟨e₃, tested, encoded⟩ := bind_eq_ok.mp encoded
  obtain ⟨encodes₃, short₃, outcome⟩ := encodes.pass_emits short updated matched tested
  rcases outcome with ⟨rfl, first⟩ | ⟨rfl, first, empty⟩
  · rw [CompState.encodeLoop] at encoded
    obtain rfl := Except.ok.inj encoded
    exact ⟨encodes₃, short₃, first.le (by omega)⟩
  · -- the character ended the string and begins the next one
    rw [CompState.encodeLoop] at encoded
    obtain ⟨e₄, updated₄, encoded⟩ := bind_eq_ok.mp encoded
    obtain ⟨⟨e₅, left₅⟩, matched₅, encoded⟩ := bind_eq_ok.mp encoded
    obtain ⟨e₆, tested₆, encoded⟩ := bind_eq_ok.mp encoded
    obtain ⟨encodes₆, short₆, outcome⟩ := encodes₃.pass_emits short₃ updated₄ matched₅ tested₆
    rw [empty] at outcome
    rcases outcome with ⟨rfl, second⟩ | ⟨rfl, -, -⟩
    · rw [CompState.encodeLoop] at encoded
      obtain rfl := Except.ok.inj encoded
      refine ⟨encodes₆, short₆, (first.trans second).le ?_⟩
      simp only [List.length_nil]
      omega
    · cases encoded

/-- `comp_flush_encoder`. -/
theorem Encodes.compFlushEncoder_emits (encodes : Encodes e) (short : e.bitLen < 8)
    (flushed : e.compFlushEncoder = .ok e') :
    Encodes e' ∧ e'.bitLen < 8 ∧ Emits e 122 e' := by
  have few := encodes.strData_le
  obtain ⟨flushed', same, encodes'⟩ := encodes.compFlushEncoder
  obtain rfl := Except.ok.inj (flushed.symm.trans same)
  have closing : ∀ before : CompState, before.bitLen < 8 → before.cwSize ≤ 11 →
      before.flushCodeword.bitLen < 8 ∧ Emits before 3 before.flushCodeword := by
    intro before bits size
    rcases before.mode_cases with mode | mode
    · rw [flushCodeword_transparent mode]
      exact ⟨bits, (Emits.refl before).le (by omega)⟩
    · rw [flushCodeword_compressed mode]
      obtain ⟨emits, empty⟩ := @alignCw_emits
        { before.pointedAt before.lastMatched with flushedLen := 0 } ccwFlush bits size
      exact ⟨empty, emits.congr rfl rfl rfl rfl⟩
  refine ⟨encodes', ?_⟩
  unfold CompState.compFlushEncoder at flushed
  split at flushed
  · obtain rfl := Except.ok.inj flushed
    exact ⟨short, (Emits.refl e).le (by omega)⟩
  · split at flushed
    · obtain ⟨sent, sentEq, flushed⟩ := bind_eq_ok.mp flushed
      obtain rfl := Except.ok.inj flushed
      have size : sent.cwSize ≤ 11 := by
        obtain ⟨again, sentEq', -, charted, -⟩ :=
          sendData_charted encodes.matched_small encodes.toCharted
        obtain rfl := Except.ok.inj (sentEq.symm.trans sentEq')
        exact charted.narrow
      obtain ⟨emits, bits, -⟩ := sendData_emits sentEq size short
      obtain ⟨short', last⟩ := closing
        { sent with flushedLen := e.flushedLen + e.strData.length } bits size
      have counted : Emits e (2 * e.strData.length + 24)
          { sent with flushedLen := e.flushedLen + e.strData.length } :=
        emits.congr rfl rfl rfl rfl
      exact ⟨short', (counted.trans last).le (by omega)⟩
    · obtain rfl := Except.ok.inj flushed
      obtain ⟨short', last⟩ := closing e short encodes.narrow
      exact ⟨short', last.le (by omega)⟩

end Emission

end CompState

end DModem.Comp
