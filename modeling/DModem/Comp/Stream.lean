/-
Byte streams that a decoder can read.

`View.Reads v bytes v'` says what any decoder that looks like `v` becomes when the
bytes reach it, however they are cut into calls of `comp_decode` and wherever
`comp_flush_decoder` is called in between.  The transparent bytes of a string are
such a stream.
-/

import DModem.Comp.Decoder

namespace DModem.Comp

namespace View

def Settled (v : View) : Prop := 9 ≤ v.cwSize ∧ v.bitLen < v.cwSize

/-- One byte takes every decoder that looks like `v` to one that looks like
`v'`, and no character is taken back. -/
structure Byte (v : View) (b : UInt8) (v' : View) : Prop where
  grows : v.text <+: v'.text
  decodes : ∀ (c : CompState) (out : List UInt8), c.view out = v →
    ∃ c', c.compDecode [b] = .ok c' ∧ c'.view out = v'

inductive Reads : View → List UInt8 → View → Prop where
  | nil (v : View) : Reads v [] v
  | cons {v v₁ v' : View} {b : UInt8} {rest : List UInt8} (settled : v.Settled)
      (byte : Byte v b v₁) (later : Reads v₁ rest v') : Reads v (b :: rest) v'

theorem Reads.single {v v' : View} {b : UInt8} (settled : v.Settled) (byte : Byte v b v') :
    Reads v [b] v' :=
  .cons settled byte (.nil v')

theorem Reads.append {v v₁ v' : View} {first second : List UInt8} (reads : Reads v first v₁)
    (later : Reads v₁ second v') : Reads v (first ++ second) v' := by
  induction reads with
  | nil v => exact later
  | cons settled byte _ ih => exact .cons settled byte (ih later)

theorem Reads.split {v v' : View} {first second : List UInt8}
    (reads : Reads v (first ++ second) v') :
    ∃ v₁, Reads v first v₁ ∧ Reads v₁ second v' := by
  induction first generalizing v with
  | nil => exact ⟨v, .nil v, reads⟩
  | cons b rest ih =>
      cases reads with
      | cons settled byte later =>
          obtain ⟨v₁, reads₁, reads₂⟩ := ih later
          exact ⟨v₁, .cons settled byte reads₁, reads₂⟩

theorem Reads.grows {v v' : View} {bytes : List UInt8} (reads : Reads v bytes v') :
    v.text <+: v'.text := by
  induction reads with
  | nil v => exact List.prefix_refl _
  | cons _ byte _ ih => exact byte.grows.trans ih

theorem Reads.unique {v v' v'' : View} {bytes : List UInt8} {c : CompState} {out : List UInt8}
    (reads : Reads v bytes v') (reads' : Reads v bytes v'') (shape : c.view out = v) :
    v' = v'' := by
  induction reads generalizing c with
  | nil v =>
      cases reads'
      rfl
  | cons settled byte later ih =>
      cases reads' with
      | cons settled' byte' later' =>
          obtain ⟨c₁, decoded, shape₁⟩ := byte.decodes c out shape
          obtain ⟨c₂, decoded', shape₂⟩ := byte'.decodes c out shape
          rw [decoded] at decoded'
          obtain rfl : c₁ = c₂ := Except.ok.inj decoded'
          obtain rfl := shape₁.symm.trans shape₂
          exact ih later' shape₁

theorem Reads.compDecode {v v' : View} {bytes : List UInt8} (reads : Reads v bytes v')
    (c : CompState) (out : List UInt8) (shape : c.view out = v) :
    ∃ c', c.compDecode bytes = .ok c' ∧ c'.view out = v' := by
  suffices loop : ∃ c', CompState.decodeLoop (2 * bytes.length) c bytes = .ok c' ∧
      c'.view out = v' from loop
  induction reads generalizing c with
  | nil v => exact ⟨c, CompState.decodeLoop_nil _ c, shape⟩
  | @cons v v₁ v' b rest settled byte later ih =>
      obtain ⟨c₁, alone, shape₁⟩ := byte.decodes c out shape
      obtain ⟨c', done, shape'⟩ := ih c₁ shape₁
      have settledC : c.Settled := by
        rw [← shape] at settled
        exact settled
      refine ⟨c', ?_, shape'⟩
      rw [List.length_cons, Nat.mul_succ]
      exact CompState.decodeLoop_cons c c₁ c' b rest _ settledC alone done

/-! ### Transparent bytes -/

section Transparent

variable {v : View}

structure Clear (v : View) : Prop where
  mode : v.mode = .transparent
  ok : v.matcher.Ok
  fits : v.matcher.maxString ≤ compMaxString
  width : 9 ≤ v.cwSize
  aligned : v.bitLen = 0

theorem Clear.settled (clear : Clear v) : v.Settled := by
  have width := clear.width
  have aligned := clear.aligned
  unfold Settled
  omega

/-- The view after a string of data characters. -/
def typed (v : View) (m : Matcher) (chars : List UInt8) : View :=
  { v with
    matcher := m
    text := v.text ++ chars }

theorem Clear.matcher_eq (clear : Clear v) {c : CompState} {out : List UInt8}
    (shape : c.view out = v) : c.mode = .transparent ∧ c.matcher = v.matcher := by
  subst shape
  have mode : c.mode = .transparent := clear.mode
  refine ⟨mode, ?_⟩
  unfold CompState.view
  rw [mode]
  rfl

theorem Clear.decodeData (clear : Clear v) (ch : UInt8) (m : Matcher)
    (stepped : v.matcher.step ch = .ok m) (c : CompState) (out : List UInt8)
    (shape : c.view out = v) :
    (∃ c', c.decodeData ch [] = .ok (c', []) ∧ c'.view out = v.typed m [ch]) ∨
      ∃ c₁ c', c.decodeData ch [] = .ok (c₁, [ch]) ∧ c₁.escape = c.escape ∧
        c₁.escapeChar = c.escapeChar ∧ c₁.mode = .transparent ∧
        c₁.decodeData ch [] = .ok (c', []) ∧ c'.view out = v.typed m [ch] := by
  obtain ⟨mode, matcherEq⟩ := clear.matcher_eq shape
  obtain ⟨m', stepped', _, choices⟩ := clear.ok.step_spec ch
  rw [stepped] at stepped'
  obtain rfl : m = m' := Except.ok.inj stepped'
  have ok : c.matcher.Ok := by
    rw [matcherEq]
    exact clear.ok
  have fits : c.maxString ≤ compMaxString := by
    have := clear.fits
    rwa [← matcherEq] at this
  rcases choices with passed | ⟨m₁, passed, ok₁, passed₁⟩
  · rw [← matcherEq] at passed
    obtain ⟨c', decoded, shape'⟩ := c.decodeChar_view out ch m true mode ok fits passed
    refine Or.inl ⟨c', ?_, ?_⟩
    · simp only [CompState.decodeData, decoded, ok_bind, if_true]
    · rw [shape', shape]
      rfl
  · rw [← matcherEq] at passed
    obtain ⟨c₁, decoded, shape₁⟩ := c.decodeChar_view out ch m₁ false mode ok fits passed
    have clear₁ : Clear { v with matcher := m₁ } := by
      have maxEq : m₁.maxString = v.matcher.maxString := by
        rw [← matcherEq]
        exact (ok.pass_sizes passed).1
      refine ⟨clear.mode, ok₁, ?_, clear.width, clear.aligned⟩
      simp only [maxEq]
      exact clear.fits
    have shape₁' : c₁.view out = { v with matcher := m₁ } := by
      rw [shape₁, shape]
      simp
    obtain ⟨mode₁, matcherEq₁⟩ := clear₁.matcher_eq shape₁'
    obtain ⟨c', decoded', shape'⟩ := c₁.decodeChar_view out ch m true mode₁
      (by rw [matcherEq₁]; exact ok₁)
      (by have := clear₁.fits; rwa [← matcherEq₁] at this)
      (by rw [matcherEq₁]; exact passed₁)
    refine Or.inr ⟨c₁, c', ?_, ?_, ?_, mode₁, ?_, ?_⟩
    · simp only [CompState.decodeData, decoded, ok_bind, Bool.false_eq_true, if_false]
    · have := congrArg View.escape shape₁
      exact this
    · have := congrArg View.escapeChar shape₁
      exact this
    · simp only [CompState.decodeData, decoded', ok_bind, if_true]
    · rw [shape', shape₁']
      simp [typed]

theorem compDecode_transparent {c c₁ : CompState} {b : UInt8} (mode : c.mode = .transparent)
    (passed : c.decodeTransparent b [] = .ok (c₁, [])) : c.compDecode [b] = .ok c₁ := by
  change CompState.decodeLoop 2 c [b] = .ok c₁
  rw [CompState.decodeLoop, CompState.decodePass_transparent mode, passed, ok_bind]
  exact CompState.decodeLoop_nil _ _

theorem compDecode_twice {c c₁ c' : CompState} {b b₁ : UInt8} (mode : c.mode = .transparent)
    (mode₁ : c₁.mode = .transparent) (passed : c.decodeTransparent b [] = .ok (c₁, [b₁]))
    (passed₁ : c₁.decodeTransparent b₁ [] = .ok (c', [])) : c.compDecode [b] = .ok c' := by
  change CompState.decodeLoop 2 c [b] = .ok c'
  rw [CompState.decodeLoop, CompState.decodePass_transparent mode, passed, ok_bind]
  simp only
  rw [CompState.decodeLoop, CompState.decodePass_transparent mode₁, passed₁, ok_bind]
  exact CompState.decodeLoop_nil _ _

theorem Clear.byte_data (clear : Clear v) (idle : v.escape = false) (ch : UInt8)
    (plain : ch ≠ v.escapeChar) (m : Matcher) (stepped : v.matcher.step ch = .ok m) :
    Byte v ch (v.typed m [ch]) := by
  refine ⟨⟨[ch], rfl⟩, ?_⟩
  intro c out shape
  obtain ⟨mode, _⟩ := clear.matcher_eq shape
  have idleC : c.escape = false := by rw [← idle, ← shape]; rfl
  have plainC : ch ≠ c.escapeChar := by rw [← shape] at plain; exact plain
  have direct : ∀ c₁ : CompState, c₁.escape = false → c₁.escapeChar = c.escapeChar →
      c₁.decodeTransparent ch [] = c₁.decodeData ch [] := by
    intro c₁ idle₁ same
    unfold CompState.decodeTransparent
    rw [idle₁, same]
    simp only [Bool.false_eq_true, if_false, if_neg plainC]
  rcases clear.decodeData ch m stepped c out shape with
    ⟨c', decoded, shape'⟩ | ⟨c₁, c', decoded, escapeEq, charEq, mode₁, decoded', shape'⟩
  · exact ⟨c', compDecode_transparent mode ((direct c idleC rfl).trans decoded), shape'⟩
  · exact ⟨c', compDecode_twice mode mode₁ ((direct c idleC rfl).trans decoded)
      ((direct c₁ (escapeEq.trans idleC) charEq).trans decoded'), shape'⟩

theorem Clear.byte_escape (clear : Clear v) (idle : v.escape = false) :
    Byte v v.escapeChar { v with escape := true } := by
  refine ⟨List.prefix_refl _, ?_⟩
  intro c out shape
  obtain ⟨mode, _⟩ := clear.matcher_eq shape
  have idleC : c.escape = false := by rw [← idle, ← shape]; rfl
  have charEq : v.escapeChar = c.escapeChar := by rw [← shape]; rfl
  refine ⟨{ c with escape := true }, compDecode_transparent mode ?_, ?_⟩
  · unfold CompState.decodeTransparent
    rw [idleC]
    simp only [Bool.false_eq_true, if_false, if_pos charEq]
  · rw [← shape]
    rfl

theorem escapeStep_moves (ch : UInt8) : ch ≠ ch + escapeStep := by
  intro same
  have cancelled : (escapeStep : UInt8) = 0 := by simpa using same
  exact absurd cancelled (by decide)

/-- `CC_EID` after the escape character stands for the escape character
itself. -/
theorem Clear.byte_eid (clear : Clear v) (raised : v.escape = true) (m : Matcher)
    (stepped : v.matcher.step v.escapeChar = .ok m) :
    Byte v ccEid
      { v.typed m [v.escapeChar] with
        escape := false
        escapeChar := v.escapeChar + escapeStep } := by
  refine ⟨⟨[v.escapeChar], rfl⟩, ?_⟩
  intro c out shape
  obtain ⟨mode, _⟩ := clear.matcher_eq shape
  have raisedC : c.escape = true := by rw [← raised, ← shape]; rfl
  have charEq : c.escapeChar = v.escapeChar := by rw [← shape]; rfl
  have first : c.decodeTransparent ccEid [] =
      { c with escape := false, escapeChar := c.escapeChar + escapeStep }.decodeData
        c.escapeChar [] := by
    unfold CompState.decodeTransparent
    rw [raisedC]
    rw [if_pos rfl, if_neg (by decide), if_pos rfl]
  have clear₁ : Clear { v with escape := false, escapeChar := v.escapeChar + escapeStep } :=
    ⟨clear.mode, clear.ok, clear.fits, clear.width, clear.aligned⟩
  have shape₁ : ({ c with escape := false, escapeChar := c.escapeChar + escapeStep }).view out =
      { v with escape := false, escapeChar := v.escapeChar + escapeStep } := by
    rw [← shape]
    rfl
  rw [charEq] at first shape₁
  rcases clear₁.decodeData v.escapeChar m stepped _ out shape₁ with
    ⟨c', decoded, shape'⟩ | ⟨c₁, c', decoded, escapeEq, charEq₁, mode₁, decoded', shape'⟩
  · exact ⟨c', compDecode_transparent mode (first.trans decoded), shape'⟩
  · refine ⟨c', compDecode_twice mode mode₁ (first.trans decoded) ?_, shape'⟩
    unfold CompState.decodeTransparent
    rw [escapeEq, charEq₁]
    simp only [Bool.false_eq_true, if_false, if_neg (escapeStep_moves v.escapeChar)]
    exact decoded'

theorem Clear.reads_escapeBytes (clear : Clear v) (idle : v.escape = false)
    (chars : List UInt8) (m : Matcher) (ran : v.matcher.run chars = .ok m) :
    Reads v (CompState.escapeBytes v.escapeChar chars)
      { v.typed m chars with escapeChar := cycleEscape v.escapeChar chars } := by
  induction chars generalizing v with
  | nil =>
      obtain rfl : v.matcher = m := Except.ok.inj ran
      have same : { v.typed v.matcher [] with
          escapeChar := cycleEscape v.escapeChar [] } = v := by
        simp [typed, cycleEscape]
      rw [same]
      exact .nil v
  | cons ch rest ih =>
      obtain ⟨m₁, stepped, ok₁, _⟩ := clear.ok.step_spec ch
      have ran₁ : m₁.run rest = .ok m := by
        simpa only [Matcher.run, stepped, ok_bind] using ran
      have fits₁ : m₁.maxString ≤ compMaxString := by
        rw [(clear.ok.step_sizes stepped).1]
        exact clear.fits
      unfold CompState.escapeBytes cycleEscape
      by_cases escaped : ch = v.escapeChar
      · rw [if_pos escaped, if_pos escaped]
        subst escaped
        have raised : Clear { v with escape := true } :=
          ⟨clear.mode, clear.ok, clear.fits, clear.width, clear.aligned⟩
        refine .cons clear.settled (clear.byte_escape idle)
          (.cons raised.settled (raised.byte_eid rfl m₁ stepped) ?_)
        have later := @ih
          { v.typed m₁ [v.escapeChar] with
            escape := false
            escapeChar := v.escapeChar + escapeStep }
          ⟨clear.mode, ok₁, fits₁, clear.width, clear.aligned⟩ rfl ran₁
        simpa [typed, idle] using later
      · rw [if_neg escaped, if_neg escaped]
        refine .cons clear.settled (clear.byte_data idle ch escaped m₁ stepped) ?_
        have later := @ih (v.typed m₁ [ch])
          ⟨clear.mode, ok₁, fits₁, clear.width, clear.aligned⟩ idle ran₁
        simpa [typed] using later

/-- The view after the escape character and `CC_ECM`: the open string ends and
its entry becomes the update point. -/
def toCompressed (v : View) : View :=
  { v with
    mode := .compressed
    matcher :=
      { v.matcher with
        updateAt := v.matcher.lastMatched
        lastMatched := 0
        lastAdded := 0
        total := 0 } }

theorem Clear.byte_ecm (clear : Clear v) (raised : v.escape = true) :
    Byte v ccEcm { v.toCompressed with escape := false } := by
  refine ⟨List.prefix_refl _, ?_⟩
  intro c out shape
  obtain ⟨mode, _⟩ := clear.matcher_eq shape
  have raisedC : c.escape = true := (congrArg View.escape shape).trans raised
  refine ⟨{ ({ c with escape := false } : CompState).sendString with
      mode := .compressed, updateAt := c.lastMatched, lastMatched := 0 },
    compDecode_transparent mode ?_, ?_⟩
  · unfold CompState.decodeTransparent
    rw [raisedC]
    rfl
  · simp only [← shape, toCompressed, CompState.view, CompState.matcher, CompState.sendString,
      List.append_assoc, List.append_nil, List.length_nil, Nat.add_zero]

theorem Clear.reads_ecm (clear : Clear v) (idle : v.escape = false) :
    Reads v [v.escapeChar, ccEcm] v.toCompressed := by
  have raised : Clear { v with escape := true } :=
    ⟨clear.mode, clear.ok, clear.fits, clear.width, clear.aligned⟩
  refine .cons clear.settled (clear.byte_escape idle) (.single raised.settled ?_)
  have byte := raised.byte_ecm rfl
  have same : ({ v with escape := true } : View).toCompressed = { v.toCompressed with
      escape := true } := rfl
  rw [same] at byte
  unfold toCompressed at byte ⊢
  rw [idle]
  exact byte

end Transparent

end View

end DModem.Comp
