/-
Codewords in compressed mode.

The encoder packs codewords into bytes and keeps up to seven bits back; the
decoder collects bytes and takes a codeword as soon as it has all its bits.
`Owed` relates the two: the bits that the decoder holds, followed by the bits
that are still owed to it, are a sequence of codewords.
-/

import DModem.Comp.Stream

namespace DModem.Comp

open Dict

/-! ### Strings and codewords -/

theorem stringChars_spells {d : Dict} {e : Nat} {text : List UInt8} (spells : Spells d e text)
    (fuel : Nat) (enough : text.length ≤ fuel) :
    CompState.stringChars d fuel e = .ok text := by
  induction spells generalizing fuel with
  | @char e nonzero within top =>
      obtain ⟨k, rfl⟩ := Nat.exists_eq_succ_of_ne_zero nonzero
      cases fuel with
      | zero => simp at enough
      | succ fuel =>
          simp [CompState.stringChars, read_ok within, top]
  | @snoc e text nonzero within above ih =>
      obtain ⟨k, rfl⟩ := Nat.exists_eq_succ_of_ne_zero nonzero
      cases fuel with
      | zero => simp at enough
      | succ fuel =>
          have aboveText := ih fuel (by simpa using enough)
          simp [CompState.stringChars, read_ok within, aboveText]

namespace CompState

theorem recvData_spells {c : CompState} {cw : Nat} {text : List UInt8}
    (spells : Spells c.dict cw text) (enough : text.length ≤ c.dict.alloc)
    (room : c.strData.length + text.length ≤ compMaxString) :
    c.recvData cw = .ok { c with strData := c.strData ++ text } := by
  unfold recvData
  rw [stringChars_spells spells c.dict.alloc enough, ok_bind, if_pos room]

theorem decodeUpdate_eq (c : CompState) (cw : Nat) (after : Dict) (new : Nat)
    (grown : c.dict.grow c.updateAt (c.strData.headD 0) = .ok (after, new))
    (used : cw ≠ after.nextFree) :
    ∃ added, c.decodeUpdate cw = .ok { c with dict := after, lastAdded := added } := by
  unfold grow at grown
  unfold decodeUpdate
  by_cases pending : c.updateAt = 0
  · rw [if_pos pending] at grown
    obtain ⟨rfl, rfl⟩ : c.dict = after ∧ 0 = new := by simpa using grown
    rw [if_neg (not_not_intro pending)]
    exact ⟨c.lastAdded, rfl⟩
  · rw [if_neg pending] at grown
    rw [if_pos pending]
    obtain ⟨found, answer, grown⟩ := bind_eq_ok.mp grown
    simp only [answer, ok_bind]
    by_cases absent : found = 0
    · rw [if_pos absent] at grown
      rw [if_pos absent, grown, ok_bind]
      simp only [if_neg used]
      exact ⟨new, rfl⟩
    · rw [if_neg absent] at grown
      obtain ⟨rfl, rfl⟩ : c.dict = after ∧ 0 = new := by simpa using grown
      rw [if_neg absent]
      by_cases reserved : found = c.lastAdded
      · rw [if_pos reserved]
        exact ⟨0, rfl⟩
      · rw [if_neg reserved]
        exact ⟨c.lastAdded, rfl⟩

end CompState

namespace View

def holding (v : View) (bitLen bitData : Nat) : View :=
  { v with
    bitLen := bitLen
    bitData := bitData }

def Blank (v : View) : Prop := v.bitLen = 0 ∧ v.bitData = 0

theorem Blank.holding_eq {v : View} (blank : v.Blank) : v.holding 0 0 = v := by
  unfold holding
  rw [← blank.1]
  nth_rewrite 2 [blank.1]
  rw [← blank.2]

structure Takes (v : View) (cw : Nat) (v' : View) : Prop where
  mode : v.mode = .compressed
  blank : v'.Blank
  width : v.cwSize ≤ v'.cwSize
  grows : v.text <+: v'.text
  decodes : ∀ (c : CompState) (out : List UInt8) (bitLen bitData : Nat),
    c.view out = v.holding bitLen bitData →
    ∃ c', c.decodeCodeword cw = .ok c' ∧ c'.view out = v'.holding bitLen bitData

/-- `CCW_FLUSH` and `CCW_ETM` also drop the bits that are left. -/
structure Aligns (v : View) (cw : Nat) (v' : View) : Prop where
  mode : v.mode = .compressed
  blank : v'.Blank
  width : v.cwSize ≤ v'.cwSize
  grows : v.text <+: v'.text
  decodes : ∀ (c : CompState) (out : List UInt8) (bitLen bitData : Nat),
    c.view out = v.holding bitLen bitData →
    ∃ c', c.decodeCodeword cw = .ok c' ∧ c'.view out = v'.holding 0 bitData

section Codewords

variable {v : View}

theorem compressed_strData {c : CompState} {out : List UInt8} {bitLen bitData : Nat}
    (shape : c.view out = v.holding bitLen bitData) (closed : v.matcher.total = 0) :
    c.strData = [] ∧ c.flushedLen = 0 := by
  have total := congrArg (fun v : View => v.matcher.total) shape
  have sum : c.flushedLen + c.strData.length = 0 := total.trans closed
  constructor
  · exact List.eq_nil_of_length_eq_zero (by omega)
  · omega

theorem takes_string (cw : Nat) (text : List UInt8) (after : Dict) (new : Nat)
    (mode : v.mode = .compressed) (blank : v.Blank)
    (closed : v.matcher.total = 0) (fits : v.matcher.maxString ≤ compMaxString)
    (enough : v.matcher.maxString ≤ v.matcher.dict.alloc)
    (live : v.matcher.dict.Live cw) (notFree : cw ≠ v.matcher.dict.nextFree)
    (spells : Spells v.matcher.dict cw text) (short : text.length ≤ v.matcher.maxString)
    (grown : v.matcher.dict.grow v.matcher.updateAt (text.headD 0) = .ok (after, new))
    (used : cw ≠ after.nextFree) :
    Takes v cw
      { v with
        escapeChar := cycleEscape v.escapeChar text
        matcher :=
          { v.matcher with
            dict := after
            updateAt := if text.length = v.matcher.maxString then 0 else cw }
        text := v.text ++ text } := by
  have low : firstEntry ≤ cw := by
    rcases live with ⟨low, _⟩ | ⟨low, _⟩
    · exact low
    · exact Nat.le_trans (by decide) low
  refine ⟨mode, blank, Nat.le_refl _, ⟨text, rfl⟩, ?_⟩
  intro c out bitLen bitData shape
  obtain ⟨empty, unflushed⟩ := compressed_strData shape closed
  have modeC : c.mode = .compressed := (congrArg View.mode shape).trans mode
  simp only [CompState.view, CompState.matcher, holding, View.mk.injEq, modeC] at shape
  obtain ⟨_, escapeEq, cwSizeEq, charEq, bitLenEq, bitDataEq, matcherEq, textEq⟩ := shape
  rw [← matcherEq] at fits enough notFree spells short grown
  simp only at fits enough notFree spells short grown
  have received : c.recvData cw = .ok { c with strData := text } := by
    have held : c.strData.length + text.length ≤ compMaxString := by
      rw [empty, List.length_nil, Nat.zero_add]
      exact short.trans fits
    rw [CompState.recvData_spells spells (by omega) held, empty, List.nil_append]
  obtain ⟨added, updated⟩ := CompState.decodeUpdate_eq { c with strData := text } cw after new
    grown used
  have notEtm : cw ≠ ccwEtm := by simp only [ccwEtm, firstEntry] at low ⊢; omega
  have notFlush : cw ≠ ccwFlush := by simp only [ccwFlush, firstEntry] at low ⊢; omega
  have notStep : cw ≠ ccwStepup := by simp only [ccwStepup, firstEntry] at low ⊢; omega
  unfold CompState.decodeCodeword
  rw [if_neg notEtm, if_neg notFlush, if_neg notStep]
  unfold CompState.decodeString
  rw [if_neg notFree, received, ok_bind, updated, ok_bind]
  refine ⟨_, rfl, ?_⟩
  by_cases full : text.length = c.maxString
  · simp [CompState.finishString, CompState.view, CompState.matcher, CompState.sendString,
      holding, modeC, full, unflushed, empty, escapeEq, cwSizeEq, charEq, bitLenEq, bitDataEq,
      ← matcherEq, ← textEq, mode]
  · simp [CompState.finishString, CompState.view, CompState.matcher, CompState.sendString,
      holding, modeC, full, unflushed, empty, escapeEq, cwSizeEq, charEq, bitLenEq, bitDataEq,
      ← matcherEq, ← textEq, mode]

theorem takes_stepup (mode : v.mode = .compressed) (blank : v.Blank)
    (allowed : v.cwSize + 1 ≤ v.matcher.dict.dictSize / 8) :
    Takes v ccwStepup { v with cwSize := v.cwSize + 1 } := by
  refine ⟨mode, blank, Nat.le_succ _, List.prefix_refl _, ?_⟩
  intro c out bitLen bitData shape
  have sizeEq : c.dict.dictSize = v.matcher.dict.dictSize :=
    congrArg (fun v : View => v.matcher.dict.dictSize) shape
  have widthEq : c.cwSize = v.cwSize := congrArg View.cwSize shape
  refine ⟨{ c with cwSize := c.cwSize + 1, threshold := c.threshold * 2 % 2 ^ 16 }, ?_, ?_⟩
  · unfold CompState.decodeCodeword
    rw [if_neg (by decide), if_neg (by decide), if_pos rfl]
    refine if_neg ?_
    simp only
    omega
  · simp only [CompState.view, holding, View.mk.injEq] at shape
    obtain ⟨modeEq, escapeEq, cwSizeEq, charEq, bitLenEq, bitDataEq, matcherEq, textEq⟩ := shape
    simp only [CompState.view, holding, View.mk.injEq]
    exact ⟨modeEq, escapeEq, by rw [cwSizeEq], charEq, bitLenEq, bitDataEq, matcherEq, textEq⟩

theorem aligns_flush (mode : v.mode = .compressed) (blank : v.Blank) :
    Aligns v ccwFlush v := by
  refine ⟨mode, blank, Nat.le_refl _, List.prefix_refl _, ?_⟩
  intro c out bitLen bitData shape
  refine ⟨{ c with bitLen := 0 }, ?_, ?_⟩
  · unfold CompState.decodeCodeword
    rw [if_neg (by decide), if_pos rfl]
  · simp only [CompState.view, holding, View.mk.injEq] at shape
    obtain ⟨modeEq, escapeEq, cwSizeEq, charEq, _, bitDataEq, matcherEq, textEq⟩ := shape
    simp only [CompState.view, holding, View.mk.injEq]
    exact ⟨modeEq, escapeEq, cwSizeEq, charEq, trivial, bitDataEq, matcherEq, textEq⟩

/-- The view after `CCW_ETM`. -/
def toTransparent (v : View) : View :=
  { v with
    mode := .transparent
    matcher := { v.matcher with lastAdded := 0 } }

theorem aligns_etm (mode : v.mode = .compressed) (blank : v.Blank)
    (idle : v.matcher.lastMatched = 0) : Aligns v ccwEtm v.toTransparent := by
  refine ⟨mode, blank, Nat.le_refl _, List.prefix_refl _, ?_⟩
  intro c out bitLen bitData shape
  refine ⟨{ c with bitLen := 0, mode := .transparent, lastMatched := 0, lastAdded := 0 }, ?_, ?_⟩
  · unfold CompState.decodeCodeword
    rw [if_pos rfl]
  · have modeC : c.mode = .compressed := (congrArg View.mode shape).trans mode
    simp only [CompState.view, CompState.matcher, holding, View.mk.injEq, modeC] at shape
    obtain ⟨_, escapeEq, cwSizeEq, charEq, _, bitDataEq, matcherEq, textEq⟩ := shape
    rw [← matcherEq] at idle
    simp [toTransparent, CompState.view, CompState.matcher, holding, escapeEq, cwSizeEq, charEq,
      bitDataEq, ← matcherEq, ← textEq, idle]

end Codewords

/-! ### Bits between encoder and decoder -/

/-- `bits`, of length `len`, is a sequence of codewords that take `v` to `v'`.  A
closed sequence may end in an aligning codeword and its padding. -/
inductive Drains (closed : Bool) : View → Nat → Nat → View → Prop where
  | nil (v : View) : Drains closed v 0 0 v
  | word {v v₁ v' : View} {cw bits len : Nat} (wide : 9 ≤ v.cwSize) (narrow : v.cwSize ≤ 11)
      (small : cw < 2 ^ v.cwSize) (takes : Takes v cw v₁) (later : Drains closed v₁ bits len v') :
      Drains closed v (cw + 2 ^ v.cwSize * bits) (v.cwSize + len) v'
  | align {v v' : View} {cw pad : Nat} (isClosed : closed = true) (wide : 9 ≤ v.cwSize)
      (narrow : v.cwSize ≤ 11) (small : cw < 2 ^ v.cwSize) (short : pad < 8)
      (aligns : Aligns v cw v') : Drains closed v cw (v.cwSize + pad) v'

theorem Drains.snoc {v v₁ v' : View} {bits len cw : Nat} (drains : Drains false v bits len v₁)
    (wide : 9 ≤ v₁.cwSize) (narrow : v₁.cwSize ≤ 11) (small : cw < 2 ^ v₁.cwSize)
    (takes : Takes v₁ cw v') :
    Drains false v (bits + 2 ^ len * cw) (len + v₁.cwSize) v' := by
  induction drains with
  | nil v =>
      have single : Drains false v _ _ v' := .word wide narrow small takes (.nil v')
      simpa using single
  | @word v v₁ _ first bits len wide₁ narrow₁ small₁ takes₁ _ ih =>
      have longer := Drains.word wide₁ narrow₁ small₁ takes₁ (ih wide narrow small takes)
      have bitsEq : first + 2 ^ v.cwSize * (bits + 2 ^ len * cw) =
          first + 2 ^ v.cwSize * bits + 2 ^ (v.cwSize + len) * cw := by
        rw [Nat.pow_add]
        ring
      rw [bitsEq, ← Nat.add_assoc] at longer
      exact longer
  | align isClosed => cases isClosed

theorem Drains.close {v v₁ v' : View} {bits len cw pad : Nat}
    (drains : Drains false v bits len v₁) (wide : 9 ≤ v₁.cwSize) (narrow : v₁.cwSize ≤ 11)
    (small : cw < 2 ^ v₁.cwSize) (short : pad < 8) (aligns : Aligns v₁ cw v') :
    Drains true v (bits + 2 ^ len * cw) (len + v₁.cwSize + pad) v' := by
  induction drains with
  | nil v =>
      have single : Drains true v _ _ v' := .align rfl wide narrow small short aligns
      simpa using single
  | @word v v₁ _ first bits len wide₁ narrow₁ small₁ takes₁ _ ih =>
      have longer := Drains.word wide₁ narrow₁ small₁ takes₁ (ih wide narrow small aligns)
      have bitsEq : first + 2 ^ v.cwSize * (bits + 2 ^ len * cw) =
          first + 2 ^ v.cwSize * bits + 2 ^ (v.cwSize + len) * cw := by
        rw [Nat.pow_add]
        ring
      rw [bitsEq, ← Nat.add_assoc, ← Nat.add_assoc] at longer
      exact longer
  | align isClosed => cases isClosed

theorem Drains.grows {closed : Bool} {v v' : View} {bits len : Nat}
    (drains : Drains closed v bits len v') : v.text <+: v'.text := by
  induction drains with
  | nil => exact List.prefix_refl _
  | word _ _ _ takes _ ih => exact takes.grows.trans ih
  | align _ _ _ _ _ aligns => exact aligns.grows

/-- The decoder `v` is owed `len` more bits, after which it will be `v'`. -/
structure Owed (closed : Bool) (v : View) (bits len : Nat) (v' : View) : Prop where
  settled : v.Settled
  small : v.bitData < 2 ^ v.bitLen
  drains : Drains closed (v.holding 0 0) (v.bitData + 2 ^ v.bitLen * bits) (v.bitLen + len) v'
  whole : closed = true → len % 8 = 0

theorem Owed.done {closed : Bool} {v v' : View} (owed : Owed closed v 0 0 v') : v' = v := by
  obtain ⟨⟨_, short⟩, small, drains, _⟩ := owed
  generalize bitsEq : v.bitData + 2 ^ v.bitLen * 0 = bits at drains
  generalize lenEq : v.bitLen + 0 = len at drains
  generalize baseEq : v.holding 0 0 = base at drains
  have widthEq : base.cwSize = v.cwSize := by rw [← baseEq]; rfl
  cases drains with
  | nil =>
      have blank : v.Blank := ⟨by omega, by omega⟩
      rw [← baseEq, blank.holding_eq]
  | word => omega
  | align => omega

theorem Owed.refl {closed : Bool} {v : View} (blank : v.Blank) (wide : 9 ≤ v.cwSize) :
    Owed closed v 0 0 v := by
  have lenEq := blank.1
  refine ⟨⟨wide, by omega⟩, ?_, ?_, fun _ => rfl⟩
  · rw [blank.1, blank.2]
    decide
  · rw [blank.1, blank.2, blank.holding_eq]
    exact .nil v

theorem join_bits {data len value : Nat} (small : data < 2 ^ len) (short : len ≤ 11)
    (bounded : value < 2 ^ 11) :
    (data ||| value <<< len) % 2 ^ 32 = data + 2 ^ len * value := by
  have joined : data ||| value <<< len = data + 2 ^ len * value := by
    rw [Nat.lor_comm, ← Nat.shiftLeft_add_eq_or_of_lt small, Nat.shiftLeft_eq]
    ring
  rw [joined, Nat.mod_eq_of_lt]
  calc data + 2 ^ len * value < 2 ^ len * (value + 1) := by
        rw [Nat.mul_succ]
        omega
    _ ≤ 2 ^ 11 * 2 ^ 11 := Nat.mul_le_mul (Nat.pow_le_pow_right (by decide) short) (by omega)
    _ < 2 ^ 32 := by decide

theorem compDecode_short {c : CompState} (b : UInt8) (mode : c.mode = .compressed)
    (narrow : c.cwSize ≤ 11) (short : c.bitLen + 8 < c.cwSize) :
    c.compDecode [b] = .ok (c.pushByte b) := by
  have filled : c.fillBits [b] = (c.pushByte b, []) := by
    unfold CompState.fillBits
    rw [if_pos (by omega)]
    rfl
  change CompState.decodeLoop 2 c [b] = _
  rw [CompState.decodeLoop, CompState.decodePass_compressed mode _ (by simp)]
  unfold CompState.decodeCompressed
  rw [if_neg (by omega), filled]
  simp only
  rw [if_pos (show (c.pushByte b).bitLen < (c.pushByte b).cwSize from short)]
  exact CompState.decodeLoop_nil _ _

theorem compDecode_full {c : CompState} (b : UInt8) (mode : c.mode = .compressed)
    (narrow : c.cwSize ≤ 11) (room : c.bitLen < c.cwSize) (full : c.cwSize ≤ c.bitLen + 8) :
    c.compDecode [b] = (c.pushByte b).takeCodeword := by
  have filled : c.fillBits [b] = (c.pushByte b, []) := by
    unfold CompState.fillBits
    rw [if_pos room]
    rfl
  change CompState.decodeLoop 2 c [b] = _
  rw [CompState.decodeLoop, CompState.decodePass_compressed mode _ (by simp)]
  unfold CompState.decodeCompressed
  rw [if_neg (by omega), filled]
  simp only
  rw [if_neg (show ¬(c.pushByte b).bitLen < (c.pushByte b).cwSize from Nat.not_lt.mpr full)]
  cases (c.pushByte b).takeCodeword with
  | error fault => rfl
  | ok c' => exact CompState.decodeLoop_nil _ _

def fed (v : View) (b : UInt8) : Nat := v.bitData + 2 ^ v.bitLen * b.toNat

theorem fed_lt {v : View} (b : UInt8) (small : v.bitData < 2 ^ v.bitLen) :
    v.fed b < 2 ^ (v.bitLen + 8) := by
  have bounded := b.toNat_lt
  calc v.fed b < 2 ^ v.bitLen * (b.toNat + 1) := by
        rw [Nat.mul_succ]
        unfold fed
        omega
    _ ≤ 2 ^ v.bitLen * 2 ^ 8 := Nat.mul_le_mul_left _ (by omega)
    _ = 2 ^ (v.bitLen + 8) := (Nat.pow_add 2 _ 8).symm

theorem view_pushByte {c : CompState} {out : List UInt8} {v : View} (b : UInt8)
    (shape : c.view out = v) (small : v.bitData < 2 ^ v.bitLen) (short : v.bitLen ≤ 11) :
    (c.pushByte b).view out = v.holding (v.bitLen + 8) (v.fed b) := by
  subst shape
  have bounded := b.toNat_lt
  have bits : (c.pushByte b).bitData = (c.view out).fed b := join_bits small short (by omega)
  unfold holding
  rw [← bits]
  rfl

theorem byte_short {v : View} (b : UInt8) (mode : v.mode = .compressed) (narrow : v.cwSize ≤ 11)
    (small : v.bitData < 2 ^ v.bitLen) (short : v.bitLen + 8 < v.cwSize) :
    Byte v b (v.holding (v.bitLen + 8) (v.fed b)) := by
  refine ⟨List.prefix_refl _, ?_⟩
  intro c out shape
  refine ⟨c.pushByte b, ?_, view_pushByte b shape small (by omega)⟩
  subst shape
  exact compDecode_short b mode narrow short

theorem byte_full {v v' : View} (b : UInt8) (bitLen : Nat) (mode : v.mode = .compressed)
    (narrow : v.cwSize ≤ 11) (small : v.bitData < 2 ^ v.bitLen) (room : v.bitLen < v.cwSize)
    (full : v.cwSize ≤ v.bitLen + 8) (grows : v.text <+: v'.text)
    (decodes : ∀ (c : CompState) (out : List UInt8),
      c.view out = v.holding (v.bitLen + 8 - v.cwSize) (v.fed b >>> v.cwSize) →
      ∃ c', c.decodeCodeword (v.fed b % 2 ^ v.cwSize) = .ok c' ∧
        c'.view out = v'.holding bitLen (v.fed b >>> v.cwSize)) :
    Byte v b (v'.holding bitLen (v.fed b >>> v.cwSize)) := by
  refine ⟨grows, ?_⟩
  intro c out shape
  have pushed := view_pushByte b shape small (by omega)
  have widthEq : (c.pushByte b).cwSize = v.cwSize := congrArg View.cwSize shape
  have lenEq : (c.pushByte b).bitLen = v.bitLen + 8 := congrArg View.bitLen pushed
  have dataEq : (c.pushByte b).bitData = v.fed b := congrArg View.bitData pushed
  have cut : ({ c.pushByte b with
      bitData := (c.pushByte b).bitData >>> (c.pushByte b).cwSize
      bitLen := (c.pushByte b).bitLen - (c.pushByte b).cwSize } : CompState).view out =
      v.holding (v.bitLen + 8 - v.cwSize) (v.fed b >>> v.cwSize) := by
    rw [widthEq, lenEq, dataEq]
    have same := congrArg
      (fun w : View => w.holding (v.bitLen + 8 - v.cwSize) (v.fed b >>> v.cwSize)) pushed
    exact same
  obtain ⟨c', decoded, shape'⟩ := decodes _ out cut
  refine ⟨c', ?_, shape'⟩
  have fits : v.fed b % 2 ^ v.cwSize % 2 ^ 16 = v.fed b % 2 ^ v.cwSize := by
    apply Nat.mod_eq_of_lt
    calc v.fed b % 2 ^ v.cwSize < 2 ^ v.cwSize := Nat.mod_lt _ (Nat.two_pow_pos _)
      _ ≤ 2 ^ 16 := Nat.pow_le_pow_right (by decide) (by omega)
  have taken : (c.pushByte b).takeCodeword = .ok c' := by
    unfold CompState.takeCodeword
    rw [← decoded, ← fits]
    rw [← dataEq, ← widthEq]
  subst shape
  exact (compDecode_full b mode narrow room full).trans taken

theorem fed_split (v : View) (bits : Nat) :
    v.bitData + 2 ^ v.bitLen * bits =
      v.fed (UInt8.ofNat (bits % 256)) + 2 ^ (v.bitLen + 8) * (bits / 256) := by
  have byteEq : (UInt8.ofNat (bits % 256)).toNat = bits % 256 := by
    rw [UInt8.toNat_ofNat']
    omega
  unfold fed
  rw [byteEq, Nat.pow_add]
  have split : bits = bits % 256 + 256 * (bits / 256) := (Nat.mod_add_div bits 256).symm
  calc v.bitData + 2 ^ v.bitLen * bits
      = v.bitData + 2 ^ v.bitLen * (bits % 256 + 256 * (bits / 256)) := by rw [← split]
    _ = _ := by ring

theorem split_word {fed width len bits rest cw : Nat} (full : width ≤ len)
    (small : cw < 2 ^ width) (same : fed + 2 ^ len * bits = cw + 2 ^ width * rest) :
    fed % 2 ^ width = cw ∧ fed >>> width + 2 ^ (len - width) * bits = rest := by
  have powEq : 2 ^ len = 2 ^ width * 2 ^ (len - width) := by
    rw [← Nat.pow_add]
    congr 1
    omega
  rw [powEq, Nat.mul_assoc] at same
  have positive := Nat.two_pow_pos width
  constructor
  · have modEq := congrArg (· % 2 ^ width) same
    simp only [Nat.add_mul_mod_self_left] at modEq
    rw [modEq, Nat.mod_eq_of_lt small]
  · have divEq := congrArg (· / 2 ^ width) same
    simp only [Nat.add_mul_div_left _ _ positive] at divEq
    rw [Nat.shiftRight_eq_div_pow, divEq, Nat.div_eq_of_lt small, Nat.zero_add]

theorem Owed.feed {closed : Bool} {v v' : View} {bits len : Nat}
    (owed : Owed closed v bits len v') (more : 8 ≤ len) :
    ∃ v₁, Byte v (UInt8.ofNat (bits % 256)) v₁ ∧ Owed closed v₁ (bits / 256) (len - 8) v' := by
  obtain ⟨⟨wide, room⟩, small, drains, whole⟩ := owed
  have whole' : closed = true → (len - 8) % 8 = 0 := by
    intro isClosed
    have := whole isClosed
    omega
  have splitEq := fed_split v bits
  have fedSmall := fed_lt (UInt8.ofNat (bits % 256)) small
  generalize byteEq : UInt8.ofNat (bits % 256) = b at splitEq fedSmall
  -- a byte that completes no codeword only moves the border between held and owed bits
  have short : v.mode = .compressed → v.cwSize ≤ 11 → v.bitLen + 8 < v.cwSize →
      ∃ v₁, Byte v b v₁ ∧ Owed closed v₁ (bits / 256) (len - 8) v' := by
    intro mode narrow more'
    refine ⟨_, byte_short b mode narrow small more', ⟨wide, more'⟩, fedSmall, ?_, whole'⟩
    have lenEq : v.bitLen + 8 + (len - 8) = v.bitLen + len := by omega
    change Drains closed (v.holding 0 0) (v.fed b + 2 ^ (v.bitLen + 8) * (bits / 256))
      (v.bitLen + 8 + (len - 8)) v'
    rw [← splitEq, lenEq]
    exact drains
  rw [splitEq] at drains
  generalize bitsEq : v.fed b + 2 ^ (v.bitLen + 8) * (bits / 256) = pool at drains
  generalize lenEq : v.bitLen + len = total at drains
  generalize baseEq : v.holding 0 0 = base at drains
  have widthEq : base.cwSize = v.cwSize := by rw [← baseEq]; rfl
  have modeEq : base.mode = v.mode := by rw [← baseEq]; rfl
  have textEq : base.text = v.text := by rw [← baseEq]; rfl
  have holdEq : ∀ l d, base.holding l d = v.holding l d := by
    intro l d
    rw [← baseEq]
    rfl
  cases drains with
  | nil => omega
  | @word _ v₁ _ cw rest len' wide₁ narrow smallCw takes later =>
      rw [widthEq] at narrow smallCw bitsEq lenEq
      have mode : v.mode = .compressed := modeEq.symm.trans takes.mode
      rcases Nat.lt_or_ge (v.bitLen + 8) v.cwSize with more' | full
      · exact short mode narrow more'
      · obtain ⟨cwEq, restEq⟩ := split_word full smallCw bitsEq
        have byte : Byte v b
            (v₁.holding (v.bitLen + 8 - v.cwSize) (v.fed b >>> v.cwSize)) := by
          refine byte_full b _ mode narrow small room full
            (by rw [← textEq]; exact takes.grows) ?_
          intro c out shape
          rw [cwEq]
          rw [← holdEq] at shape
          exact takes.decodes c out _ _ shape
        refine ⟨_, byte, ?_, ?_, ?_, whole'⟩
        · have wider := takes.width
          refine ⟨?_, ?_⟩
          · change 9 ≤ v₁.cwSize
            omega
          · change v.bitLen + 8 - v.cwSize < v₁.cwSize
            omega
        · change v.fed b >>> v.cwSize < 2 ^ (v.bitLen + 8 - v.cwSize)
          rw [Nat.shiftRight_eq_div_pow]
          apply Nat.div_lt_of_lt_mul
          rw [← Nat.pow_add]
          have sumEq : v.cwSize + (v.bitLen + 8 - v.cwSize) = v.bitLen + 8 := by omega
          rwa [sumEq]
        · change Drains closed (v₁.holding 0 0)
            (v.fed b >>> v.cwSize + 2 ^ (v.bitLen + 8 - v.cwSize) * (bits / 256))
            (v.bitLen + 8 - v.cwSize + (len - 8)) v'
          have leftEq : v.bitLen + 8 - v.cwSize + (len - 8) = len' := by omega
          rw [takes.blank.holding_eq, restEq, leftEq]
          exact later
  | @align _ _ _ pad isClosed wide₁ narrow smallCw shortPad aligns =>
      rw [widthEq] at narrow smallCw lenEq
      have mode : v.mode = .compressed := modeEq.symm.trans aligns.mode
      have lenWhole := whole isClosed
      rcases Nat.lt_or_ge (v.bitLen + 8) v.cwSize with more' | full
      · exact short mode narrow more'
      · have padded : v.fed b + 2 ^ (v.bitLen + 8) * (bits / 256) = pool + 2 ^ v.cwSize * 0 := bitsEq
        obtain ⟨cwEq, restEq⟩ := split_word full smallCw padded
        obtain ⟨emptied, product⟩ := Nat.add_eq_zero_iff.mp restEq
        have owes : bits / 256 = 0 := by
          have positive := Nat.two_pow_pos (v.bitLen + 8 - v.cwSize)
          rcases Nat.mul_eq_zero.mp product with zero | zero
          · omega
          · exact zero
        have lenZero : len - 8 = 0 := by omega
        have byte : Byte v b (v'.holding 0 (v.fed b >>> v.cwSize)) := by
          refine byte_full b 0 mode narrow small room full
            (by rw [← textEq]; exact aligns.grows) ?_
          intro c out shape
          rw [cwEq]
          rw [← holdEq] at shape
          exact aligns.decodes c out _ _ shape
        rw [emptied, aligns.blank.holding_eq] at byte
        refine ⟨v', byte, ?_⟩
        rw [owes, lenZero]
        have wider := aligns.width
        exact Owed.refl aligns.blank (by omega)

end View

end DModem.Comp
