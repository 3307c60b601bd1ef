/-
A codec that is renegotiated while it runs.

The encoder, the bytes on the way and the decoder take their calls in any order, and
`comp_config` may reach either end between two calls.  As long as every accepted
`comp_config` finds a codec that fits in the new limits, both ends stay within
theirs.
-/

import DModem.Comp.Config

namespace DModem.Comp

open Dict

namespace CompState

/-! ### The encoder on its own -/

/-- The codeword size follows the threshold and never needs more than 11 bits. -/
structure Charted (e : CompState) : Prop where
  threshold : e.threshold = 2 ^ e.cwSize
  narrow : e.cwSize ≤ 11

structure Encodes (e : CompState) : Prop extends Charted e where
  ok : e.matcher.Ok
  fits : e.matcher.maxString ≤ compMaxString
  size : e.matcher.dict.dictSize ≤ 2048
  added : e.matcher.lastAdded < e.matcher.dict.dictSize

section Sending

variable {e e' : CompState} {cw : Nat}

theorem Charted.congr (charted : Charted e) (threshold : e'.threshold = e.threshold)
    (cwSize : e'.cwSize = e.cwSize) : Charted e' := by
  constructor
  · rw [threshold, cwSize]
    exact charted.threshold
  · rw [cwSize]
    exact charted.narrow

theorem sendBytes_kept (count : Nat) (e : CompState) :
    (sendBytes count e).matcher = e.matcher ∧ (sendBytes count e).threshold = e.threshold ∧
      (sendBytes count e).cwSize = e.cwSize := by
  induction count generalizing e with
  | zero => exact ⟨rfl, rfl, rfl⟩
  | succ count ih => exact ih _

theorem sendBits_kept (e : CompState) :
    e.sendBits.matcher = e.matcher ∧ e.sendBits.threshold = e.threshold ∧
      e.sendBits.cwSize = e.cwSize :=
  sendBytes_kept _ e

theorem alignCw_kept (charted : Charted e) (cw : Nat) :
    ((e.sendCw cw).alignBits).sendBits.matcher = e.matcher ∧
      Charted ((e.sendCw cw).alignBits).sendBits := by
  obtain ⟨matcherEq, thresholdEq, cwSizeEq⟩ := sendBits_kept (e.sendCw cw).alignBits
  obtain ⟨pad, _, _, aligned⟩ := alignBits_eq (e.sendCw cw)
  rw [aligned] at matcherEq thresholdEq cwSizeEq ⊢
  exact ⟨matcherEq, charted.congr thresholdEq cwSizeEq⟩

theorem stepUp_charted (fuel : Nat) (small : cw < 2048) (charted : Charted e)
    (enough : 11 ≤ e.cwSize + fuel) :
    ∃ e', stepUp cw fuel e = .ok e' ∧ e'.matcher = e.matcher ∧ Charted e' := by
  induction fuel generalizing e with
  | zero =>
      have widest : e.cwSize = 11 := by
        have := charted.narrow
        omega
      refine ⟨e, ?_, rfl, charted⟩
      rw [stepUp, if_neg]
      rw [charted.threshold, widest]
      omega
  | succ fuel ih =>
      rw [stepUp]
      by_cases beyond : cw ≥ e.threshold
      · rw [if_pos beyond]
        obtain ⟨matcherEq, thresholdEq, cwSizeEq⟩ := sendBits_kept (e.sendCw ccwStepup)
        have narrow : e.cwSize < 11 := by
          by_contra wide
          have widest : e.cwSize = 11 := by
            have := charted.narrow
            omega
          rw [charted.threshold, widest] at beyond
          omega
        generalize (e.sendCw ccwStepup).sendBits = sent at matcherEq thresholdEq cwSizeEq ⊢
        change sent.threshold = e.threshold at thresholdEq
        change sent.cwSize = e.cwSize at cwSizeEq
        have wider : Charted { sent with
            threshold := sent.threshold * 2 % 2 ^ 16, cwSize := sent.cwSize + 1 } := by
          constructor
          · change sent.threshold * 2 % 2 ^ 16 = 2 ^ (sent.cwSize + 1)
            rw [thresholdEq, cwSizeEq, charted.threshold, ← Nat.pow_succ]
            exact Nat.mod_eq_of_lt (Nat.pow_lt_pow_right (by decide) (by omega))
          · change sent.cwSize + 1 ≤ 11
            omega
        obtain ⟨e', stepped, matcherEq', charted'⟩ := ih wider (by
          change 11 ≤ sent.cwSize + 1 + fuel
          omega)
        exact ⟨e', stepped, matcherEq'.trans matcherEq, charted'⟩
      · rw [if_neg beyond]
        exact ⟨e, rfl, rfl, charted⟩

/-- `send_data` succeeds and closes the open string. -/
theorem sendData_charted (small : cw < 2048) (charted : Charted e) :
    ∃ e', e.sendData cw = .ok e' ∧ e'.matcher = { e.matcher with total := 0 } ∧ Charted e' ∧
      e'.strData = [] := by
  have emitted : ∃ e', e.countBits.emitString cw = .ok e' ∧ e'.matcher = e.matcher ∧
      Charted e' := by
    unfold emitString
    split
    · exact ⟨_, rfl, rfl, charted.congr rfl rfl⟩
    · obtain ⟨e', stepped, matcherEq, charted'⟩ := stepUp_charted 16
        (e := { e.countBits with
          escapeChar := cycleEscape e.countBits.escapeChar e.countBits.strData })
        small (charted.congr rfl rfl) (by omega)
      obtain ⟨matcherSent, thresholdSent, cwSizeSent⟩ := sendBits_kept (e'.sendCw cw)
      refine ⟨_, by rw [stepped, ok_bind], matcherSent.trans matcherEq, ?_⟩
      exact charted'.congr thresholdSent cwSizeSent
  obtain ⟨e', sent, matcherEq, charted'⟩ := emitted
  refine ⟨{ e' with strData := [], flushedLen := 0 }, by rw [sendData, sent, ok_bind], ?_,
    charted'.congr rfl rfl, rfl⟩
  exact congrArg (fun m : Matcher => { m with total := 0 }) matcherEq

end Sending

section Encoding

variable {e e' : CompState}

theorem Encodes.congr (encodes : Encodes e) (charted : Charted e')
    (matcher : e'.matcher = e.matcher) : Encodes e' := by
  constructor
  · exact charted
  · rw [matcher]
    exact encodes.ok
  · rw [matcher]
    exact encodes.fits
  · rw [matcher]
    exact encodes.size
  · rw [matcher]
    exact encodes.added

theorem Encodes.positive (encodes : Encodes e) : 0 < e.matcher.dict.dictSize :=
  Nat.lt_of_le_of_lt (Nat.zero_le _) encodes.added

theorem Encodes.small (encodes : Encodes e) {cw : Nat} (live : e.dict.Live cw) : cw < 2048 := by
  obtain ⟨kids, wf⟩ := encodes.ok.wf
  exact Nat.lt_of_lt_of_le (wf.live_lt live) encodes.size

theorem Encodes.matched_small (encodes : Encodes e) : e.lastMatched < 2048 := by
  rcases encodes.ok.matched with ⟨idle, _⟩ | ⟨live, _⟩
  · change e.lastMatched = 0 at idle
    omega
  · exact encodes.small live

theorem Encodes.matched_growable (encodes : Encodes e) :
    e.dict.Growable e.maxString e.lastMatched := by
  rcases encodes.ok.matched with ⟨idle, _⟩ | ⟨live, _, short, text, spells, length⟩
  · exact Or.inl idle
  · refine Or.inr ⟨live, text, spells, ?_⟩
    rw [length]
    exact short

/-- Sending the open string, with `updateAt` and `lastAdded` set around it. -/
theorem Encodes.sendData (encodes : Encodes e) {updateAt lastAdded : Nat}
    (growable : e.dict.Growable e.maxString updateAt)
    (added : lastAdded = 0 ∨ lastAdded = e.lastAdded) (e₀ : CompState)
    (matcher : e₀.matcher = { e.matcher with updateAt := updateAt, lastAdded := lastAdded })
    (charted : Charted e₀) :
    ∃ e', e₀.sendData e₀.lastMatched = .ok e' ∧ Encodes { e' with lastMatched := 0 } := by
  have matchedEq : e₀.lastMatched = e.lastMatched := congrArg Matcher.lastMatched matcher
  have small : e₀.lastMatched < 2048 := by
    rw [matchedEq]
    exact encodes.matched_small
  obtain ⟨e', sent, matcherEq, charted', _⟩ := sendData_charted small charted
  refine ⟨e', sent, ?_⟩
  have whole : ({ e' with lastMatched := 0 } : CompState).matcher =
      { e.matcher with
        updateAt := updateAt
        lastAdded := lastAdded
        lastMatched := 0
        total := 0 } := by
    rw [matcher] at matcherEq
    exact congrArg (fun m : Matcher => { m with lastMatched := 0 }) matcherEq
  constructor
  · exact charted'.congr rfl rfl
  · rw [whole]
    refine ⟨encodes.ok.maxString_gt, encodes.ok.wf, growable, Or.inl ⟨rfl, rfl⟩, ?_⟩
    rcases added with none | same
    · exact Or.inl none
    · rw [same]
      exact encodes.ok.added_ge
  · rw [whole]
    exact encodes.fits
  · rw [whole]
    exact encodes.size
  · rw [whole]
    rcases added with none | same
    · rw [none]
      exact encodes.positive
    · rw [same]
      exact encodes.added

theorem Encodes.sendPending (encodes : Encodes e) :
    ∃ e', e.sendPending = .ok e' ∧ Encodes e' ∧ e'.lastMatched = 0 := by
  unfold CompState.sendPending
  by_cases pending : e.lastMatched ≠ 0
  · rw [if_pos pending]
    obtain ⟨e', sent, encodes'⟩ := encodes.sendData encodes.matched_growable (Or.inr rfl)
      { e with updateAt := e.lastMatched } rfl (encodes.toCharted.congr rfl rfl)
    change CompState.sendData _ e.lastMatched = _ at sent
    exact ⟨_, by rw [sent, ok_bind], encodes', rfl⟩
  · rw [if_neg pending]
    exact ⟨e, rfl, encodes, not_not.mp pending⟩

theorem Encodes.testMode (encodes : Encodes e) :
    ∃ e', e.testMode = .ok e' ∧ Encodes e' ∧ (e.lastMatched = 0 → e'.lastMatched = 0) := by
  obtain ⟨e₁, sent, encodes₁, idle⟩ := encodes.sendPending
  unfold CompState.testMode
  split
  · split
    · refine ⟨_, bind_eq_ok.mpr ⟨e₁, sent, rfl⟩, ?_, fun _ => idle⟩
      exact encodes₁.congr (encodes₁.toCharted.congr rfl rfl) rfl
    · exact ⟨e, rfl, encodes, fun same => same⟩
  · split
    · obtain ⟨matcherEq, charted⟩ := alignCw_kept
        (e := { e₁ with lastAdded := 0 }) (encodes₁.toCharted.congr rfl rfl) ccwEtm
      refine ⟨_, bind_eq_ok.mpr ⟨e₁, sent, rfl⟩, ?_, ?_⟩
      · constructor
        · exact charted.congr rfl rfl
        · exact matcherEq ▸ ⟨encodes₁.ok.maxString_gt, encodes₁.ok.wf, encodes₁.ok.growable,
            encodes₁.ok.matched, Or.inl rfl⟩
        · exact matcherEq ▸ encodes₁.fits
        · exact matcherEq ▸ encodes₁.size
        · exact matcherEq ▸ encodes₁.positive
      · intro _
        exact (congrArg Matcher.lastMatched matcherEq).trans idle
    · exact ⟨e, rfl, encodes, fun same => same⟩

theorem Encodes.updateDict (encodes : Encodes e) (ch : UInt8) :
    ∃ e', e.updateDict ch = .ok e' ∧ Encodes e' ∧ e'.updateAt = 0 ∧
      e'.lastMatched = e.lastMatched := by
  obtain ⟨after, new, _, updated, ok, outcome⟩ := encodes.ok.update_spec ch
  obtain ⟨maxEq, sizeEq⟩ := encodes.ok.update_sizes updated
  refine ⟨_, updateDict_eq e ch _ encodes.ok updated, ?_, rfl, rfl⟩
  constructor
  · exact encodes.toCharted.congr rfl rfl
  · exact ok
  · exact Nat.le_trans (Nat.le_of_eq maxEq) encodes.fits
  · exact Nat.le_trans (Nat.le_of_eq sizeEq) encodes.size
  · change (if new = 0 then e.lastAdded else new) < (e.matcher.grownTo after new).dict.dictSize
    rw [sizeEq]
    cases outcome with
    | idle => exact encodes.added
    | known => exact encodes.added
    | fresh after pending answer positive _ _ =>
        rw [if_neg positive]
        obtain ⟨kids, wf⟩ := encodes.ok.wf
        exact wf.free_lt

theorem Encodes.matchString (encodes : Encodes e) (settled : e.updateAt = 0)
    (input : List UInt8) :
    ∃ e' left, e.matchString input = .ok (e', left) ∧ Encodes e' ∧ left.length ≤ input.length ∧
      (e.lastMatched = 0 → input ≠ [] → left.length < input.length) ∧
      (left ≠ [] → e'.lastMatched = 0) := by
  induction input generalizing e with
  | nil =>
      exact ⟨e, [], rfl, encodes, Nat.le_refl _, fun _ none => absurd rfl none,
        fun none => absurd rfl none⟩
  | cons ch rest ih =>
      obtain ⟨m, taken, _, attempt, ok⟩ := encodes.ok.advance_spec ch settled
      have short : e.strData.length < compMaxString := by
        have total := encodes.ok.total_lt
        have fits := encodes.fits
        change e.flushedLen + e.strData.length < e.maxString at total
        change e.maxString ≤ compMaxString at fits
        omega
      unfold CompState.matchString
      cases attempt with
      | mismatch live answer =>
          obtain ⟨e', sent, encodes'⟩ := encodes.sendData encodes.matched_growable (Or.inr rfl)
            { e with updateAt := e.lastMatched } rfl (encodes.toCharted.congr rfl rfl)
          change CompState.sendData _ e.lastMatched = _ at sent
          have answer' : e.dict.matchChar e.lastMatched ch = .ok 0 := answer
          refine ⟨_, ch :: rest, ?_, encodes', Nat.le_refl _, ?_, fun _ => rfl⟩
          · rw [answer', ok_bind, if_pos rfl, sent, ok_bind]
          · intro idle
            exact absurd idle (Nat.pos_iff_ne_zero.mp live.pos)
      | reserved live nonzero answer =>
          obtain ⟨e', sent, encodes'⟩ := encodes.sendData encodes.ok.growable (Or.inl rfl)
            { e with lastAdded := 0 } rfl (encodes.toCharted.congr rfl rfl)
          change CompState.sendData _ e.lastMatched = _ at sent
          have answer' : e.dict.matchChar e.lastMatched ch = .ok e.lastAdded := answer
          refine ⟨_, ch :: rest, ?_, encodes', Nat.le_refl _, ?_, fun _ => rfl⟩
          · change e.lastAdded ≠ 0 at nonzero
            rw [answer', ok_bind, if_neg nonzero, if_pos rfl, sent, ok_bind]
          · intro idle
            exact absurd idle (Nat.pos_iff_ne_zero.mp live.pos)
      | longest cw live fresh answer full =>
          have joined : Charted (e.joined cw ch) := encodes.toCharted.congr rfl rfl
          obtain ⟨e', sent, matcherEq, charted', _⟩ := sendData_charted (encodes.small live) joined
          have answer' : e.dict.matchChar e.lastMatched ch = .ok cw := answer
          have nonzero := Nat.pos_iff_ne_zero.mp live.pos
          have ended : (e.strData ++ [ch]).length + e.flushedLen = e.maxString := by
            change e.flushedLen + e.strData.length + 1 = e.maxString at full
            rw [List.length_append, List.length_singleton]
            omega
          refine ⟨{ e' with lastMatched := 0 }, rest, ?_, ?_, Nat.le_succ _,
            fun _ _ => Nat.lt_succ_self _, fun _ => rfl⟩
          · change cw ≠ e.lastAdded at fresh
            rw [answer', ok_bind, if_neg nonzero, if_neg fresh]
            unfold CompState.pushChar
            rw [if_pos short, ok_bind, if_pos ended]
            exact bind_eq_ok.mpr ⟨e', sent, rfl⟩
          · have whole : ({ e' with lastMatched := 0 } : CompState).matcher =
                { e.matcher with lastMatched := 0, total := 0 } :=
              congrArg (fun m : Matcher => { m with lastMatched := 0 }) matcherEq
            constructor
            · exact charted'.congr rfl rfl
            · rw [whole]
              exact ok
            · rw [whole]
              exact encodes.fits
            · rw [whole]
              exact encodes.size
            · rw [whole]
              exact encodes.added
      | taken cw live fresh answer more =>
          have answer' : e.dict.matchChar e.lastMatched ch = .ok cw := answer
          have nonzero := Nat.pos_iff_ne_zero.mp live.pos
          have goes : ¬((e.strData ++ [ch]).length + e.flushedLen = e.maxString) := by
            change e.flushedLen + e.strData.length + 1 < e.maxString at more
            rw [List.length_append, List.length_singleton]
            omega
          have encodes₁ : Encodes (e.joined cw ch) := by
            have matcherEq := e.joined_matcher cw ch
            constructor
            · exact encodes.toCharted.congr rfl rfl
            · rw [matcherEq]
              exact ok
            · exact encodes.fits
            · exact encodes.size
            · exact encodes.added
          obtain ⟨e', left, matched, encodes', shorter, _, stopped⟩ := ih encodes₁ settled
          refine ⟨e', left, ?_, encodes', Nat.le_succ_of_le shorter,
            fun _ _ => Nat.lt_succ_of_le shorter, stopped⟩
          change cw ≠ e.lastAdded at fresh
          rw [answer', ok_bind, if_neg nonzero, if_neg fresh]
          unfold CompState.pushChar
          rw [if_pos short, ok_bind, if_neg goes]
          exact matched

/-- The outer loop: a string that ends leaves its last character for the next pass,
and then no string is open, so that every second pass takes a character. -/
theorem Encodes.encodeLoop (encodes : Encodes e) (fuel : Nat) (input : List UInt8)
    (enough : 2 * input.length ≤ fuel + if e.lastMatched = 0 then 1 else 0) :
    ∃ e', CompState.encodeLoop fuel e input = .ok e' ∧ Encodes e' := by
  induction fuel generalizing e input with
  | zero =>
      cases input with
      | nil => exact ⟨e, rfl, encodes⟩
      | cons ch rest =>
          rw [List.length_cons] at enough
          split at enough <;> omega
  | succ fuel ih =>
      cases input with
      | nil => exact ⟨e, rfl, encodes⟩
      | cons ch rest =>
          obtain ⟨e₁, updated, encodes₁, settled, same⟩ := encodes.updateDict ch
          obtain ⟨e₂, left, matched, encodes₂, shorter, takes, stopped⟩ :=
            encodes₁.matchString settled (ch :: rest)
          obtain ⟨e₃, tested, encodes₃, idle⟩ := encodes₂.testMode
          have room : 2 * left.length ≤ fuel + if e₃.lastMatched = 0 then 1 else 0 := by
            cases left with
            | nil => exact Nat.zero_le _
            | cons next others =>
                rw [if_pos (idle (stopped (List.cons_ne_nil _ _)))]
                by_cases closed : e.lastMatched = 0
                · rw [if_pos closed] at enough
                  have := takes (same.trans closed) (List.cons_ne_nil _ _)
                  omega
                · rw [if_neg closed] at enough
                  omega
          obtain ⟨e', later, encodes'⟩ := ih encodes₃ left room
          refine ⟨e', ?_, encodes'⟩
          rw [CompState.encodeLoop, updated, ok_bind, matched, ok_bind]
          simp only
          rw [tested, ok_bind, later]

theorem Encodes.compEncode (encodes : Encodes e) (input : List UInt8) :
    ∃ e', e.compEncode input = .ok e' ∧ Encodes e' :=
  encodes.encodeLoop _ input (Nat.le_add_right _ _)

theorem Encodes.flushCodeword (encodes : Encodes e) (emptied : e.strData = []) :
    Encodes e.flushCodeword := by
  unfold CompState.flushCodeword
  split
  · exact encodes
  · obtain ⟨whole, charted⟩ := alignCw_kept
      (e := { e with updateAt := e.lastMatched, lastMatched := 0, flushedLen := 0 })
      (encodes.toCharted.congr rfl rfl) ccwFlush
    have closed : (0 : Nat) + e.strData.length = 0 := by
      rw [emptied]
      rfl
    constructor
    · exact charted
    · rw [whole]
      exact ⟨encodes.ok.maxString_gt, encodes.ok.wf, encodes.matched_growable,
        Or.inl ⟨rfl, closed⟩, encodes.ok.added_ge⟩
    · rw [whole]
      exact encodes.fits
    · rw [whole]
      exact encodes.size
    · rw [whole]
      exact encodes.added

theorem Encodes.compFlushEncoder (encodes : Encodes e) :
    ∃ e', e.compFlushEncoder = .ok e' ∧ Encodes e' := by
  unfold CompState.compFlushEncoder
  split
  · exact ⟨e, rfl, encodes⟩
  · split
    · obtain ⟨e', sent, matcherEq, charted', emptied⟩ :=
        sendData_charted encodes.matched_small encodes.toCharted
      refine ⟨_, bind_eq_ok.mpr ⟨e', sent, rfl⟩, ?_⟩
      refine Encodes.flushCodeword ?_ (by exact emptied)
      have total : e.flushedLen + e.strData.length + e'.strData.length =
          e.flushedLen + e.strData.length := by
        rw [emptied]
        rfl
      have parts := congrArg
        (fun m : Matcher => { m with total := e.flushedLen + e.strData.length }) matcherEq
      refine encodes.congr ?_ (Eq.trans ?_ parts)
      · exact charted'.congr rfl rfl
      · exact congrArg (fun n => ({ e'.matcher with total := n } : Matcher)) total
    · rename_i idle
      refine ⟨_, rfl, encodes.flushCodeword ?_⟩
      rcases encodes.ok.matched with ⟨_, total⟩ | ⟨live, _⟩
      · change e.flushedLen + e.strData.length = 0 at total
        exact List.eq_nil_of_length_eq_zero (by omega)
      · exact absurd (not_not.mp idle) (Nat.pos_iff_ne_zero.mp live.pos)

theorem Encodes.limited (encodes : Encodes e) {dictSize maxString : Nat}
    (fits : e.Fits dictSize maxString) (sizeLow : 512 ≤ dictSize)
    (smaller : dictSize ≤ e.dict.dictSize) (strLow : 6 ≤ maxString)
    (strHigh : maxString ≤ compMaxString) : Encodes (e.limited dictSize maxString) := by
  have room : firstFree + maxString + 1 < dictSize := by
    simp only [firstFree, totalChars, firstEntry, compMaxString] at strHigh ⊢
    omega
  constructor
  · exact encodes.toCharted.congr rfl rfl
  · exact fits.ok encodes.ok smaller strLow room
  · exact strHigh
  · exact Nat.le_trans smaller encodes.size
  · exact fits.added

end Encoding

/-! ### The decoder -/

/-- The indices of a codec that only `add_char` and `dict_init` move. -/
structure Placed (c : CompState) : Prop where
  room : firstFree < c.dict.dictSize
  free : c.dict.nextFree < c.dict.dictSize
  added : c.lastAdded < c.dict.dictSize

section Decoding

variable {c c' : CompState}

theorem scanFree_lt {d : Dict} (fuel : Nat) {next result : Nat} (room : firstFree < d.dictSize)
    (within : next < d.dictSize) (scanned : d.scanFree fuel next = .ok result) :
    result < d.dictSize := by
  induction fuel generalizing next with
  | zero => cases scanned
  | succ fuel ih =>
      have inside : (if next + 1 = d.dictSize then firstFree else next + 1) < d.dictSize := by
        split
        · exact room
        · omega
      rw [scanFree] at scanned
      obtain ⟨entry, _, scanned⟩ := bind_eq_ok.mp scanned
      split at scanned
      · exact ih inside scanned
      · rw [← Except.ok.inj scanned]
        exact inside

theorem write_dictSize {d d' : Dict} {index : Nat} {value : DictEntry}
    (written : d.write index value = .ok d') : d'.dictSize = d.dictSize := by
  unfold Dict.write at written
  split at written
  · rw [← Except.ok.inj written]
  · cases written

theorem link_dictSize {d d' : Dict} {above : Nat} {ch : UInt8}
    (linked : d.link above ch = .ok d') : d'.dictSize = d.dictSize := by
  unfold Dict.link at linked
  obtain ⟨_, _, linked⟩ := bind_eq_ok.mp linked
  obtain ⟨d₁, written₁, linked⟩ := bind_eq_ok.mp linked
  obtain ⟨_, _, linked⟩ := bind_eq_ok.mp linked
  obtain ⟨_, _, linked⟩ := bind_eq_ok.mp linked
  obtain ⟨d₂, written₂, linked⟩ := bind_eq_ok.mp linked
  obtain ⟨_, _, written₃⟩ := bind_eq_ok.mp linked
  rw [write_dictSize written₃, write_dictSize written₂, write_dictSize written₁]

theorem unlink_dictSize {d d' : Dict} {victim : Nat} (unlinked : d.unlink victim = .ok d') :
    d'.dictSize = d.dictSize := by
  unfold Dict.unlink at unlinked
  obtain ⟨_, _, unlinked⟩ := bind_eq_ok.mp unlinked
  split at unlinked
  · obtain ⟨_, _, unlinked⟩ := bind_eq_ok.mp unlinked
    split at unlinked
    · exact write_dictSize unlinked
    · obtain ⟨_, _, unlinked⟩ := bind_eq_ok.mp unlinked
      obtain ⟨_, _, unlinked⟩ := bind_eq_ok.mp unlinked
      exact write_dictSize unlinked
  · rw [Except.ok.inj unlinked]

/-- Whatever the dictionary looks like, `add_char` keeps its indices inside. -/
theorem addChar_placed {d after : Dict} {above new : Nat} {ch : UInt8}
    (room : firstFree < d.dictSize) (free : d.nextFree < d.dictSize)
    (grew : d.addChar above ch = .ok (after, new)) :
    after.dictSize = d.dictSize ∧ after.nextFree < d.dictSize ∧ new < d.dictSize := by
  unfold Dict.addChar at grew
  obtain ⟨d₁, linked, grew⟩ := bind_eq_ok.mp grew
  obtain ⟨next, scanned, grew⟩ := bind_eq_ok.mp grew
  obtain ⟨d₂, unlinked, grew⟩ := bind_eq_ok.mp grew
  obtain ⟨rfl, rfl⟩ := Prod.mk.inj (Except.ok.inj grew)
  have sizeEq := link_dictSize linked
  have inside := scanFree_lt _ (by rw [sizeEq]; exact room) (by rw [sizeEq]; exact free) scanned
  rw [sizeEq] at inside
  exact ⟨(unlink_dictSize unlinked).trans sizeEq, inside, free⟩

theorem Placed.updateDict (placed : Placed c) {ch : UInt8} (updated : c.updateDict ch = .ok c') :
    Placed c' := by
  unfold CompState.updateDict at updated
  split at updated
  · obtain ⟨found, _, updated⟩ := bind_eq_ok.mp updated
    split at updated
    · obtain ⟨⟨after, new⟩, grew, updated⟩ := bind_eq_ok.mp updated
      obtain ⟨sizeEq, free, added⟩ := addChar_placed placed.room placed.free grew
      obtain rfl := Except.ok.inj updated
      exact ⟨sizeEq ▸ placed.room, sizeEq ▸ free, sizeEq ▸ added⟩
    · obtain rfl := Except.ok.inj updated
      exact ⟨placed.room, placed.free, placed.added⟩
  · obtain rfl := Except.ok.inj updated
    exact placed

theorem Placed.zero (placed : Placed c) : 0 < c.dict.dictSize :=
  Nat.lt_of_le_of_lt (Nat.zero_le _) placed.room

theorem Placed.decodeChar (placed : Placed c) {ch : UInt8} {taken : Bool}
    (decoded : c.decodeChar ch = .ok (c', taken)) : Placed c' := by
  unfold CompState.decodeChar at decoded
  obtain ⟨c₀, updated, decoded⟩ := bind_eq_ok.mp decoded
  obtain ⟨cw, _, decoded⟩ := bind_eq_ok.mp decoded
  have placed₀ := placed.updateDict updated
  split at decoded
  · obtain ⟨rfl, _⟩ := Prod.mk.inj (Except.ok.inj decoded)
    exact ⟨placed₀.room, placed₀.free, placed₀.added⟩
  · split at decoded
    · obtain ⟨rfl, _⟩ := Prod.mk.inj (Except.ok.inj decoded)
      exact ⟨placed₀.room, placed₀.free, placed₀.zero⟩
    · obtain ⟨c₁, pushed, decoded⟩ := bind_eq_ok.mp decoded
      unfold CompState.pushChar at pushed
      split at pushed
      · obtain rfl := Except.ok.inj pushed
        split at decoded
        · obtain ⟨rfl, _⟩ := Prod.mk.inj (Except.ok.inj decoded)
          exact ⟨placed₀.room, placed₀.free, placed₀.added⟩
        · obtain ⟨rfl, _⟩ := Prod.mk.inj (Except.ok.inj decoded)
          exact ⟨placed₀.room, placed₀.free, placed₀.added⟩
      · cases pushed

theorem Placed.decodeUpdate (placed : Placed c) {cw : Nat}
    (updated : c.decodeUpdate cw = .ok c') : Placed c' := by
  unfold CompState.decodeUpdate at updated
  split at updated
  · obtain ⟨found, _, updated⟩ := bind_eq_ok.mp updated
    split at updated
    · obtain ⟨⟨after, new⟩, grew, updated⟩ := bind_eq_ok.mp updated
      obtain ⟨sizeEq, free, added⟩ := addChar_placed placed.room placed.free grew
      simp only at updated
      split at updated
      · cases updated
      · obtain rfl := Except.ok.inj updated
        exact ⟨sizeEq ▸ placed.room, sizeEq ▸ free, sizeEq ▸ added⟩
    · split at updated
      · obtain rfl := Except.ok.inj updated
        exact ⟨placed.room, placed.free, placed.zero⟩
      · obtain rfl := Except.ok.inj updated
        exact placed
  · obtain rfl := Except.ok.inj updated
    exact placed

theorem Placed.decodeCodeword (placed : Placed c) {cw : Nat}
    (decoded : c.decodeCodeword cw = .ok c') : Placed c' := by
  unfold CompState.decodeCodeword at decoded
  split at decoded
  · obtain rfl := Except.ok.inj decoded
    exact ⟨placed.room, placed.free, placed.zero⟩
  · split at decoded
    · obtain rfl := Except.ok.inj decoded
      exact ⟨placed.room, placed.free, placed.added⟩
    · split at decoded
      · simp only at decoded
        split at decoded
        · cases decoded
        · obtain rfl := Except.ok.inj decoded
          exact ⟨placed.room, placed.free, placed.added⟩
      · unfold decodeString at decoded
        split at decoded
        · cases decoded
        · obtain ⟨c₁, received, decoded⟩ := bind_eq_ok.mp decoded
          obtain ⟨c₂, updated, decoded⟩ := bind_eq_ok.mp decoded
          have placed₁ : Placed c₁ := by
            unfold recvData at received
            obtain ⟨chars, _, received⟩ := bind_eq_ok.mp received
            split at received
            · obtain rfl := Except.ok.inj received
              exact ⟨placed.room, placed.free, placed.added⟩
            · cases received
          have placed₂ := placed₁.decodeUpdate updated
          obtain rfl := Except.ok.inj decoded
          exact ⟨placed₂.room, placed₂.free, placed₂.added⟩

theorem Placed.fillBits (placed : Placed c) (input : List UInt8) :
    Placed (c.fillBits input).1 := by
  induction input generalizing c with
  | nil => exact placed
  | cons b rest ih =>
      unfold CompState.fillBits
      split
      · exact ih ⟨placed.room, placed.free, placed.added⟩
      · exact placed

theorem Placed.decodeData (placed : Placed c) {ch : UInt8} {rest left : List UInt8}
    (decoded : c.decodeData ch rest = .ok (c', left)) : Placed c' := by
  unfold CompState.decodeData at decoded
  obtain ⟨⟨c₁, taken⟩, passed, same⟩ := bind_eq_ok.mp decoded
  obtain ⟨rfl, _⟩ := Prod.mk.inj (Except.ok.inj same)
  exact placed.decodeChar passed

theorem Placed.decodePass (placed : Placed c) {input left : List UInt8}
    (passed : c.decodePass input = .ok (c', left)) : Placed c' := by
  unfold CompState.decodePass at passed
  split at passed
  · obtain ⟨rfl, _⟩ := Prod.mk.inj (Except.ok.inj passed)
    exact placed
  · unfold decodeCompressed at passed
    split at passed
    · cases passed
    · rename_i b rest _ _
      have filled := placed.fillBits (b :: rest)
      simp only at passed
      split at passed
      · have stateEq : (c.fillBits (b :: rest)).1 = c' :=
          congrArg Prod.fst (Except.ok.inj passed)
        rw [← stateEq]
        exact filled
      · obtain ⟨c₁, taken, passed⟩ := bind_eq_ok.mp passed
        obtain ⟨rfl, _⟩ := Prod.mk.inj (Except.ok.inj passed)
        refine Placed.decodeCodeword ?_ taken
        exact ⟨filled.room, filled.free, filled.added⟩
  · unfold decodeTransparent at passed
    split at passed
    · simp only at passed
      split at passed
      · obtain ⟨rfl, _⟩ := Prod.mk.inj (Except.ok.inj passed)
        exact ⟨placed.room, placed.free, placed.added⟩
      · split at passed
        · refine Placed.decodeData ?_ passed
          exact ⟨placed.room, placed.free, placed.added⟩
        · split at passed
          · obtain ⟨rfl, _⟩ := Prod.mk.inj (Except.ok.inj passed)
            exact ⟨placed.room, placed.room, placed.zero⟩
          · cases passed
    · split at passed
      · obtain ⟨rfl, _⟩ := Prod.mk.inj (Except.ok.inj passed)
        exact ⟨placed.room, placed.free, placed.added⟩
      · exact placed.decodeData passed

theorem Placed.decodeLoop (placed : Placed c) (fuel : Nat) {input : List UInt8}
    (decoded : CompState.decodeLoop fuel c input = .ok c') : Placed c' := by
  induction fuel generalizing c input with
  | zero =>
      cases input with
      | nil =>
          obtain rfl := Except.ok.inj decoded
          exact placed
      | cons => cases decoded
  | succ fuel ih =>
      cases input with
      | nil =>
          obtain rfl := Except.ok.inj decoded
          exact placed
      | cons b rest =>
          rw [CompState.decodeLoop] at decoded
          obtain ⟨⟨c₁, left⟩, passed, later⟩ := bind_eq_ok.mp decoded
          exact ih (placed.decodePass passed) later

theorem safe_limited {dictSize maxString : Nat} (safe : (c.view []).Safe 11)
    (fits : c.Fits dictSize maxString) (sizeLow : 512 ≤ dictSize)
    (smaller : dictSize ≤ c.dict.dictSize) (strLow : 6 ≤ maxString)
    (strHigh : maxString ≤ compMaxString) :
    ((c.limited dictSize maxString).view []).Safe 11 := by
  have room : firstFree + maxString + 1 < dictSize := by
    simp only [firstFree, totalChars, firstEntry, compMaxString] at strHigh ⊢
    omega
  have size : dictSize ≤ 2048 := Nat.le_trans smaller safe.size
  exact
    { ok := fits.ok safe.ok smaller strLow room
      fits := strHigh
      size := size
      sizeLow := sizeLow
      wide := safe.wide
      narrow := safe.narrow
      bits := codewordBits_le size
      limit := Nat.le_refl 11
      room := safe.room
      aligned := safe.aligned
      closed := safe.closed }

end Decoding

end CompState

/-! ### Runs -/

/-- What can happen on a line.  `decode` gives the decoder the next byte, as
`modem_comp_decode` does; a `comp_config` is caused by an XID frame. -/
inductive LineCall where
  | encode (input : List UInt8)
  | flushEncoder
  | decode
  | flushDecoder
  | configEncoder (dictSize maxStr : Int)
  | configDecoder (dictSize maxStr : Int)
  deriving DecidableEq, Repr

/-- An encoder, the bytes that have not reached the decoder yet, and the decoder. -/
structure Line where
  enc : CompState
  unread : List UInt8
  dec : CompState

namespace Line

def start (c : CompState) : Line :=
  { enc := c
    unread := []
    dec := c }

def step (l : Line) : LineCall → Except Fault Line
  | .encode input => do
      let e ← l.enc.compEncode input
      .ok { l with enc := e.drain, unread := l.unread ++ e.obuf }
  | .flushEncoder => do
      let e ← l.enc.compFlushEncoder
      .ok { l with enc := e.drain, unread := l.unread ++ e.obuf }
  | .decode =>
      match l.unread with
      | [] => .ok l
      | b :: rest => do
          let d ← l.dec.compDecode [b]
          .ok { l with dec := d.drain, unread := rest }
  | .flushDecoder => .ok { l with dec := l.dec.compFlushDecoder.drain }
  | .configEncoder dictSize maxStr =>
      .ok { l with enc := (l.enc.compConfig dictSize maxStr).getD l.enc }
  | .configDecoder dictSize maxStr =>
      .ok { l with dec := (l.dec.compConfig dictSize maxStr).getD l.dec }

def run : Line → List LineCall → Except Fault Line
  | l, [] => .ok l
  | l, call :: rest => do
      let l ← l.step call
      l.run rest

/-- A `comp_config` that is accepted finds a codec that fits in the new limits, and
the decoder is given no byte that completes a codeword without a string. -/
def Meets (l : Line) : LineCall → Prop
  | .configEncoder dictSize maxStr =>
      ∀ e, l.enc.compConfig dictSize maxStr = some e → l.enc.Fits dictSize.toNat maxStr.toNat
  | .configDecoder dictSize maxStr =>
      ∀ d, l.dec.compConfig dictSize maxStr = some d → l.dec.Fits dictSize.toNat maxStr.toNat
  | .decode => ∀ b rest, l.unread = b :: rest → l.dec.Guarded b
  | _ => True

structure Sound (l : Line) : Prop where
  enc : l.enc.Encodes
  dec : (l.dec.view []).Safe 11
  placed : l.dec.Placed

variable {l : Line}

theorem Sound.within (sound : Sound l) : l.enc.Within ∧ l.dec.Within := by
  constructor
  · exact CompState.within_of_ok sound.enc.ok sound.enc.added
  · exact CompState.within_of_ok sound.dec.ok sound.placed.added

theorem Sound.configEncoder (sound : Sound l) {dictSize maxStr : Int}
    (meets : l.Meets (.configEncoder dictSize maxStr)) :
    Sound { l with enc := (l.enc.compConfig dictSize maxStr).getD l.enc } := by
  refine ⟨?_, sound.dec, sound.placed⟩
  cases accepted : l.enc.compConfig dictSize maxStr with
  | none => exact sound.enc
  | some e =>
      obtain ⟨sizeLow, smaller, strLow, strHigh, rfl⟩ := CompState.compConfig_eq accepted
      exact sound.enc.limited (meets _ accepted) sizeLow smaller strLow strHigh

theorem Sound.configDecoder (sound : Sound l) {dictSize maxStr : Int}
    (meets : l.Meets (.configDecoder dictSize maxStr)) :
    Sound { l with dec := (l.dec.compConfig dictSize maxStr).getD l.dec } := by
  cases accepted : l.dec.compConfig dictSize maxStr with
  | none => exact sound
  | some d =>
      obtain ⟨sizeLow, smaller, strLow, strHigh, rfl⟩ := CompState.compConfig_eq accepted
      have fits := meets _ accepted
      refine ⟨sound.enc, ?_, ?_⟩
      · exact CompState.safe_limited sound.dec fits sizeLow smaller strLow strHigh
      · refine ⟨?_, fits.free, fits.added⟩
        change firstFree < dictSize.toNat
        simp only [firstFree, totalChars, firstEntry]
        omega

theorem Sound.step (sound : Sound l) (call : LineCall) (meets : l.Meets call) :
    (∃ l', l.step call = .ok l' ∧ Sound l') ∨ l.step call = .error .fatal := by
  cases call with
  | encode input =>
      obtain ⟨e, encoded, encodes⟩ := sound.enc.compEncode input
      left
      refine ⟨_, bind_eq_ok.mpr ⟨e, encoded, rfl⟩, ?_, sound.dec, sound.placed⟩
      exact encodes.congr (encodes.toCharted.congr rfl rfl) rfl
  | flushEncoder =>
      obtain ⟨e, flushed, encodes⟩ := sound.enc.compFlushEncoder
      left
      refine ⟨_, bind_eq_ok.mpr ⟨e, flushed, rfl⟩, ?_, sound.dec, sound.placed⟩
      exact encodes.congr (encodes.toCharted.congr rfl rfl) rfl
  | decode =>
      unfold Line.step
      cases waiting : l.unread with
      | nil => exact Or.inl ⟨l, rfl, sound⟩
      | cons b rest =>
          simp only
          cases CompState.safe_byte sound.dec b (meets b rest waiting) with
          | refused answer =>
              right
              rw [answer]
              rfl
          | followed d answer safe sizeEq chars text short =>
              left
              have placed := sound.placed.decodeLoop _ answer
              refine ⟨_, bind_eq_ok.mpr ⟨d, answer, rfl⟩, sound.enc, CompState.safe_drain safe, ?_⟩
              exact ⟨placed.room, placed.free, placed.added⟩
  | flushDecoder =>
      left
      refine ⟨_, rfl, sound.enc, ?_, ?_⟩
      · apply CompState.safe_drain
        rw [CompState.view_flush]
        exact sound.dec
      · exact ⟨sound.placed.room, sound.placed.free, sound.placed.added⟩
  | configEncoder dictSize maxStr => exact Or.inl ⟨_, rfl, sound.configEncoder meets⟩
  | configDecoder dictSize maxStr => exact Or.inl ⟨_, rfl, sound.configDecoder meets⟩

theorem Sound.run (sound : Sound l) (calls : List LineCall)
    (met : ∀ before call l', before ++ [call] <+: calls → l.run before = .ok l' → l'.Meets call) :
    (∃ l', l.run calls = .ok l' ∧ Sound l') ∨ l.run calls = .error .fatal := by
  induction calls generalizing l with
  | nil => exact Or.inl ⟨l, rfl, sound⟩
  | cons call rest ih =>
      rcases sound.step call (met [] call l ⟨rest, rfl⟩ rfl) with ⟨l₁, stepped, sound₁⟩ | refused
      · have later : ∀ before call' l', before ++ [call'] <+: rest → l₁.run before = .ok l' →
            l'.Meets call' := by
          intro before call' l' cut reached
          obtain ⟨after, whole⟩ := cut
          apply met (call :: before) call' l' ⟨after, by rw [← whole]; rfl⟩
          rw [run, stepped, ok_bind]
          exact reached
        rw [run, stepped, ok_bind]
        exact ih sound₁ later
      · right
        rw [run, refused]
        rfl

end Line

theorem compInit_sound {dictSize maxStr : Int} {c : CompState} (sizeLow : 512 ≤ dictSize)
    (sizeHigh : dictSize ≤ 2048) (strLow : 6 ≤ maxStr) (strHigh : maxStr ≤ 34)
    (initialised : compInit dictSize maxStr = some c) : (Line.start c).Sound := by
  obtain ⟨safe, _⟩ := compInit_safe sizeLow sizeHigh strLow strHigh initialised
  unfold compInit at initialised
  split at initialised
  · cases initialised
  · obtain rfl := Option.some.inj initialised
    have room : firstFree < dictSize.toNat := by
      simp only [firstFree, totalChars, firstEntry]
      omega
    have positive : 0 < dictSize.toNat := by omega
    have wide : (((dictInit (compAlloc dictSize.toNat maxStr.toNat)).view []).Safe 11) :=
      { ok := safe.ok
        fits := safe.fits
        size := safe.size
        sizeLow := safe.sizeLow
        wide := safe.wide
        narrow := Nat.le_trans safe.narrow safe.limit
        bits := codewordBits_le safe.size
        limit := Nat.le_refl 11
        room := safe.room
        aligned := safe.aligned
        closed := safe.closed }
    refine ⟨⟨⟨rfl, show 9 ≤ 11 by decide⟩, safe.ok, safe.fits, safe.size, positive⟩, wide, room, room, positive⟩

/-- In every run in which each accepted `comp_config` finds a codec that fits in the
new limits, both ends are within their limits after every call, and nothing goes wrong
but a codeword that the decoder refuses. -/
theorem renegotiated_within (dictSize maxStr : Int) (c : CompState) (sizeLow : 512 ≤ dictSize)
    (sizeHigh : dictSize ≤ 2048) (strLow : 6 ≤ maxStr) (strHigh : maxStr ≤ 34)
    (initialised : compInit dictSize maxStr = some c) (calls : List LineCall)
    (met : ∀ before call l, before ++ [call] <+: calls → (Line.start c).run before = .ok l →
      l.Meets call) :
    (∃ l, (Line.start c).run calls = .ok l ∧ l.enc.Within ∧ l.dec.Within) ∨
      (Line.start c).run calls = .error .fatal := by
  have sound := compInit_sound sizeLow sizeHigh strLow strHigh initialised
  rcases sound.run calls met with ⟨l, ran, sound'⟩ | refused
  · exact Or.inl ⟨l, ran, sound'.within⟩
  · exact Or.inr refused

namespace Line

instance (l : Line) : DecidablePred l.Meets
  | .encode _ | .flushEncoder | .flushDecoder => isTrue trivial
  | .configEncoder dictSize maxStr =>
      decidable_of_iff ((l.enc.compConfig dictSize maxStr).isSome →
        l.enc.Fits dictSize.toNat maxStr.toNat)
        ⟨fun fits _ accepted => fits (accepted ▸ rfl),
          fun fits some => fits _ (Option.some_get some).symm⟩
  | .configDecoder dictSize maxStr =>
      decidable_of_iff ((l.dec.compConfig dictSize maxStr).isSome →
        l.dec.Fits dictSize.toNat maxStr.toNat)
        ⟨fun fits _ accepted => fits (accepted ▸ rfl),
          fun fits some => fits _ (Option.some_get some).symm⟩
  | .decode =>
      decidable_of_iff (∀ b ∈ l.unread.head?, ∀ cw ∈ l.dec.codeword b,
        (cw = ccwStepup → l.dec.cwSize < codewordBits l.dec.dict) ∧
          (firstEntry ≤ cw → cw ≠ l.dec.dict.nextFree →
            cw < l.dec.dict.dictSize ∧ (cw < firstFree ∨ (l.dec.dict.entry cw).parent ≠ 0)))
        ⟨fun guarded b _ waiting => guarded b (waiting ▸ rfl),
          fun guarded b head => guarded b l.unread.tail (List.cons_head?_tail head).symm⟩

end Line

/-- Text is coded, both ends go over to the smallest limits with what they have stored, and
more text is coded. -/
def renegotiatedText : List LineCall :=
  [.encode (List.replicate 12 97), .flushEncoder] ++ List.replicate 14 .decode ++
    [.configEncoder 512 6, .configDecoder 512 6, .encode (List.replicate 30 97),
      .flushEncoder] ++ List.replicate 20 .decode

/-- A dictionary that was built under the old limits goes on under the new ones. -/
theorem renegotiated_within_of_text :
    ∃ l, (Line.start (dictInit (compAlloc 2048 34))).run renegotiatedText = .ok l ∧
      l.enc.Within ∧ l.dec.Within ∧
      l.enc.dict.dictSize = 512 ∧ l.dec.dict.dictSize = 512 ∧
      l.enc.dict.nextFree = 264 ∧ l.dec.dict.nextFree = 264 := by
  have meets : metAlong Line.step Line.Meets (Line.start (dictInit (compAlloc 2048 34)))
      renegotiatedText = true := by decide +kernel
  have met : ∀ before call l, before ++ [call] <+: renegotiatedText →
      (Line.start (dictInit (compAlloc 2048 34))).run before = .ok l → l.Meets call := by
    intro before call l cut ran
    obtain ⟨after, whole⟩ := cut
    apply met_along (fun _ => rfl) (fun _ _ _ => rfl) meets before call after l _ ran
    rw [← whole, List.append_assoc, List.singleton_append]
  have shown : ((Line.start (dictInit (compAlloc 2048 34))).run renegotiatedText).map
      (fun l => (l.enc.dict.dictSize, l.dec.dict.dictSize, l.enc.dict.nextFree,
        l.dec.dict.nextFree)) = .ok (512, 512, 264, 264) := by decide +kernel
  rcases renegotiated_within 2048 34 (dictInit (compAlloc 2048 34)) (by decide) (by decide)
    (by decide) (by decide) rfl renegotiatedText met with ⟨l, ran, encoder, decoder⟩ | refused
  · rw [ran] at shown
    simp only [Except.map, Except.ok.injEq, Prod.mk.injEq] at shown
    exact ⟨l, ran, encoder, decoder, shown⟩
  · rw [refused] at shown
    cases shown

/-- After 49 equal characters a string of seven is open.  `comp_config` accepts a
`max_string` of six, and the test for equality never ends that string. -/
theorem renegotiated_over_open_string :
    ∃ l, (Line.start (dictInit (compAlloc 2048 34))).run
        [.encode (List.replicate 49 97), .configEncoder 512 6] = .ok l ∧
      l.enc.maxString = 6 ∧ l.enc.strData.length = 7 ∧ ¬l.enc.Within := by
  refine ⟨_, rfl, by decide +kernel, by decide +kernel, ?_⟩
  intro within
  exact absurd within.short (by decide +kernel)

end DModem.Comp
