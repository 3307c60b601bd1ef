/-
The decoder as an eager machine.

`view` forgets how much of the decoded text already left the string buffer: the
flush of the decoder does not change it, and what the decoder has handed out is a
prefix of its `text`.  Every branch of `comp_decode` is described by what it does
to the view.
-/

import DModem.Comp.Matcher

namespace DModem.Comp

open Dict

/-- What the decoder knows, with all decoded characters in `text`.  The entry
reserved by `last_added` plays no part in compressed mode. -/
structure View where
  mode : CompMode
  escape : Bool
  cwSize : Nat
  escapeChar : UInt8
  bitLen : Nat
  bitData : Nat
  matcher : Matcher
  text : List UInt8

namespace CompState

def matcher (c : CompState) : Matcher :=
  { dict := c.dict
    maxString := c.maxString
    updateAt := c.updateAt
    lastMatched := c.lastMatched
    lastAdded := c.lastAdded
    total := c.flushedLen + c.strData.length }

def view (out : List UInt8) (c : CompState) : View :=
  { mode := c.mode
    escape := c.escape
    cwSize := c.cwSize
    escapeChar := c.escapeChar
    bitLen := c.bitLen
    bitData := c.bitData
    matcher :=
      { c.matcher with
        lastAdded := match c.mode with
          | .transparent => c.lastAdded
          | .compressed => 0 }
    text := out ++ c.obuf ++ c.strData }

theorem view_flush (out : List UInt8) (c : CompState) :
    c.compFlushDecoder.view out = c.view out := by
  simp [view, matcher, compFlushDecoder, sendString]

theorem view_drain (out : List UInt8) (c : CompState) :
    c.drain.view (out ++ c.obuf) = c.view out := by
  simp [view, matcher, drain]

/-! ### Characters in transparent mode -/

theorem updateDict_eq (c : CompState) (ch : UInt8) (m : Matcher) (ok : c.matcher.Ok)
    (updated : c.matcher.update ch = .ok m) :
    c.updateDict ch = .ok { c with dict := m.dict, lastAdded := m.lastAdded, updateAt := 0 } := by
  obtain ⟨after, new, _, updatedEq, _, outcome⟩ := ok.update_spec ch
  rw [updatedEq] at updated
  injection updated with same
  subst same
  unfold updateDict
  cases outcome with
  | idle none =>
      have none' : c.updateAt = 0 := none
      rw [if_neg (not_not_intro none')]
      cases c
      simp_all [Matcher.grownTo, matcher]
  | known e pending found answer =>
      have answer' : c.dict.matchChar c.updateAt ch = .ok e := answer
      change c.updateAt ≠ 0 at pending
      rw [if_pos pending, answer', ok_bind, if_neg found]
      rfl
  | fresh after pending answer positive added spec =>
      have answer' : c.dict.matchChar c.updateAt ch = .ok 0 := answer
      have added' : c.dict.addChar c.updateAt ch = .ok (after, c.dict.nextFree) := added
      change c.updateAt ≠ 0 at pending
      rw [if_pos pending, answer', ok_bind, if_pos rfl, added', ok_bind]
      simp only [Matcher.grownTo, if_neg positive]
      rfl

theorem decodeChar_view (c : CompState) (out : List UInt8) (ch : UInt8) (m : Matcher)
    (taken : Bool) (mode : c.mode = .transparent) (ok : c.matcher.Ok)
    (fits : c.maxString ≤ compMaxString) (passed : c.matcher.pass ch = .ok (m, taken)) :
    ∃ c', c.decodeChar ch = .ok (c', taken) ∧
      c'.view out =
        { c.view out with
          matcher := m
          text := (c.view out).text ++ (if taken then [ch] else []) } := by
  obtain ⟨m₁, m', taken', updated, ok₁, passed', attempt, _, _⟩ := ok.pass_spec ch
  rw [passed] at passed'
  obtain ⟨rfl, rfl⟩ : m = m' ∧ taken = taken' := by simpa using passed'
  have short := ok₁.total_lt
  have m₁Eq := Matcher.update_eq updated
  have lastEq : m₁.lastMatched = c.lastMatched := by rw [m₁Eq]; rfl
  have totalEq : m₁.total = c.flushedLen + c.strData.length := by rw [m₁Eq]; rfl
  have maxEq : m₁.maxString = c.maxString := by rw [m₁Eq]; rfl
  have room : c.strData.length < compMaxString := by omega
  unfold decodeChar
  rw [updateDict_eq c ch m₁ ok updated, ok_bind]
  cases attempt with
  | mismatch live answer =>
      rw [lastEq] at answer
      simp only [answer, ok_bind, if_true]
      refine ⟨_, rfl, ?_⟩
      rw [m₁Eq]
      simp [view, matcher, sendString, mode]
  | reserved live nonzero answer =>
      rw [lastEq] at answer
      simp only [answer, ok_bind, if_neg nonzero, if_true]
      refine ⟨_, rfl, ?_⟩
      rw [m₁Eq]
      simp [view, matcher, sendString, mode]
  | longest cw live fresh answer full =>
      rw [lastEq] at answer
      have cwNonzero := Nat.pos_iff_ne_zero.mp live.pos
      have full' : c.strData.length + 1 + c.flushedLen = c.maxString := by omega
      simp only [answer, ok_bind, if_neg cwNonzero, if_neg fresh, pushChar, if_pos room,
        List.length_append, List.length_singleton, if_pos full']
      refine ⟨_, rfl, ?_⟩
      rw [m₁Eq]
      simp [view, matcher, sendString, mode]
  | taken cw live fresh answer more =>
      rw [lastEq] at answer
      have cwNonzero := Nat.pos_iff_ne_zero.mp live.pos
      have more' : c.strData.length + 1 + c.flushedLen ≠ c.maxString := by omega
      simp only [answer, ok_bind, if_neg cwNonzero, if_neg fresh, pushChar, if_pos room,
        List.length_append, List.length_singleton, if_neg more']
      refine ⟨_, rfl, ?_⟩
      rw [m₁Eq]
      simp [view, matcher, mode]
      omega

/-! ### Bytes and chunks -/

def Settled (c : CompState) : Prop := 9 ≤ c.cwSize ∧ c.bitLen < c.cwSize

theorem decodeLoop_nil (fuel : Nat) (c : CompState) : decodeLoop fuel c [] = .ok c := by
  cases fuel <;> rfl

theorem decodeLoop_mono (fuel : Nat) (c result : CompState) (input : List UInt8)
    (done : decodeLoop fuel c input = .ok result) :
    decodeLoop (fuel + 1) c input = .ok result := by
  induction fuel generalizing c input with
  | zero =>
      cases input with
      | nil => exact done
      | cons b rest => cases done
  | succ fuel ih =>
      cases input with
      | nil => exact done
      | cons b rest =>
          unfold decodeLoop at done ⊢
          cases passed : c.decodePass (b :: rest) with
          | error fault =>
              rw [passed] at done
              cases done
          | ok next =>
              rw [passed, ok_bind] at done
              rw [ok_bind]
              exact ih _ _ done

theorem decodeCompressed_cons (c c' : CompState) (b : UInt8) (rest left : List UInt8)
    (short : c.bitLen < c.cwSize) (alone : c.decodeCompressed [b] = .ok (c', left)) :
    left = [] ∧ (c.decodeCompressed (b :: rest) = .ok (c', rest) ∨
      (c'.mode = c.mode ∧ c'.decodeCompressed rest = c.decodeCompressed (b :: rest))) := by
  unfold decodeCompressed at alone ⊢
  have filled : ∀ tail, c.fillBits (b :: tail) = (c.pushByte b).fillBits tail := by
    intro tail
    rw [fillBits, if_pos short]
  by_cases wide : c.cwSize ≥ 32
  · rw [if_pos wide] at alone
    cases alone
  · rw [if_neg wide] at alone ⊢
    simp only [filled] at alone ⊢
    rw [show (c.pushByte b).fillBits [] = (c.pushByte b, []) from rfl] at alone
    by_cases more : (c.pushByte b).bitLen < (c.pushByte b).cwSize
    · rw [if_pos more] at alone
      obtain ⟨rfl, rfl⟩ : c.pushByte b = c' ∧ [] = left := by simpa using alone
      refine ⟨rfl, Or.inr ⟨rfl, ?_⟩⟩
      rw [if_neg (show ¬(c.pushByte b).cwSize ≥ 32 from wide)]
    · rw [if_neg more, bind_eq_ok] at alone
      obtain ⟨c₂, taken, same⟩ := alone
      obtain ⟨rfl, rfl⟩ : c₂ = c' ∧ [] = left := by simpa using same
      have full : (c.pushByte b).fillBits rest = (c.pushByte b, rest) := by
        cases rest with
        | nil => rfl
        | cons b₂ rest₂ => rw [fillBits, if_neg more]
      refine ⟨rfl, Or.inl ?_⟩
      rw [full, if_neg more]
      simp only [taken, ok_bind]

theorem updateDict_mode {c c' : CompState} {ch : UInt8} (updated : c.updateDict ch = .ok c') :
    c'.mode = c.mode := by
  unfold updateDict at updated
  split at updated
  · obtain ⟨found, _, rest⟩ := bind_eq_ok.mp updated
    split at rest
    · obtain ⟨pair, _, same⟩ := bind_eq_ok.mp rest
      rw [← Except.ok.inj same]
    · rw [← Except.ok.inj rest]
  · rw [← Except.ok.inj updated]

theorem decodeChar_mode {c c' : CompState} {ch : UInt8}
    (decoded : c.decodeChar ch = .ok (c', false)) : c'.mode = c.mode := by
  unfold decodeChar at decoded
  obtain ⟨c₁, updated, decoded⟩ := bind_eq_ok.mp decoded
  obtain ⟨cw, _, decoded⟩ := bind_eq_ok.mp decoded
  rw [← updateDict_mode updated]
  split_ifs at decoded
  · exact (congrArg (fun pair => pair.1.mode) (Except.ok.inj decoded)).symm
  · exact (congrArg (fun pair => pair.1.mode) (Except.ok.inj decoded)).symm
  · obtain ⟨c₂, _, decoded⟩ := bind_eq_ok.mp decoded
    split at decoded
    · cases congrArg Prod.snd (Except.ok.inj decoded)
    · cases congrArg Prod.snd (Except.ok.inj decoded)

theorem decodeData_cons {c c' : CompState} {ch : UInt8} {left : List UInt8}
    (rest : List UInt8) (alone : c.decodeData ch [] = .ok (c', left)) :
    c.decodeData ch rest = .ok (c', left ++ rest) ∧
      (left = [] ∨ (c'.mode = c.mode ∧ ∃ b, left = [b])) := by
  unfold decodeData at alone ⊢
  obtain ⟨⟨c₂, taken⟩, passed, same⟩ := bind_eq_ok.mp alone
  rw [passed, ok_bind]
  cases taken with
  | true =>
      obtain ⟨rfl, rfl⟩ : c₂ = c' ∧ [] = left := by simpa using same
      exact ⟨rfl, Or.inl rfl⟩
  | false =>
      obtain ⟨rfl, rfl⟩ : c₂ = c' ∧ [ch] = left := by simpa using same
      exact ⟨rfl, Or.inr ⟨decodeChar_mode passed, ch, rfl⟩⟩

theorem decodeTransparent_cons (c c' : CompState) (b : UInt8) (rest left : List UInt8)
    (mode : c.mode = .transparent) (alone : c.decodeTransparent b [] = .ok (c', left)) :
    c.decodeTransparent b rest = .ok (c', left ++ rest) ∧
      (left = [] ∨ (c'.mode = .transparent ∧ ∃ b, left = [b])) := by
  unfold decodeTransparent at alone ⊢
  split_ifs at alone ⊢
  · obtain ⟨rfl, rfl⟩ : _ = c' ∧ [] = left := by simpa using alone
    exact ⟨rfl, Or.inl rfl⟩
  · obtain ⟨ahead, leftCases⟩ := decodeData_cons rest alone
    exact ⟨ahead, leftCases.imp_right (fun kept => ⟨kept.1.trans mode, kept.2⟩)⟩
  · obtain ⟨rfl, rfl⟩ : _ = c' ∧ [] = left := by simpa using alone
    exact ⟨rfl, Or.inl rfl⟩
  · obtain ⟨rfl, rfl⟩ : _ = c' ∧ [] = left := by simpa using alone
    exact ⟨rfl, Or.inl rfl⟩
  · have cut := decodeData_cons rest alone
    rwa [mode] at cut

theorem decodePass_compressed {c : CompState} (mode : c.mode = .compressed) (input : List UInt8)
    (nonempty : input ≠ []) : c.decodePass input = c.decodeCompressed input := by
  cases input with
  | nil => exact absurd rfl nonempty
  | cons b rest => simp only [decodePass, mode]

theorem decodePass_transparent {c : CompState} (mode : c.mode = .transparent) (b : UInt8)
    (rest : List UInt8) : c.decodePass (b :: rest) = c.decodeTransparent b rest := by
  simp only [decodePass, mode]

theorem decodeLoop_cons (c c' result : CompState) (b : UInt8) (rest : List UInt8) (fuel : Nat)
    (settled : c.Settled) (alone : c.compDecode [b] = .ok c')
    (later : decodeLoop fuel c' rest = .ok result) :
    decodeLoop (fuel + 2) c (b :: rest) = .ok result := by
  have first : decodeLoop 2 c [b] = .ok c' := alone
  rw [decodeLoop] at first
  obtain ⟨⟨c₁, left⟩, passed, first⟩ := bind_eq_ok.mp first
  cases mode : c.mode with
  | compressed =>
      rw [decodePass_compressed mode _ (by simp)] at passed
      obtain ⟨rfl, ahead⟩ := decodeCompressed_cons c c₁ b rest left settled.2 passed
      simp only [decodeLoop_nil] at first
      obtain rfl : c₁ = c' := Except.ok.inj first
      rcases ahead with ahead | ⟨modeEq, same⟩
      · rw [decodeLoop, decodePass_compressed mode _ (by simp), ahead, ok_bind]
        exact decodeLoop_mono fuel c₁ result rest later
      · cases rest with
        | nil =>
            rw [decodeLoop, decodePass_compressed mode _ (by simp), passed, ok_bind]
            exact decodeLoop_mono fuel c₁ result [] later
        | cons b₂ rest₂ =>
            have twice := decodeLoop_mono _ _ _ _ (decodeLoop_mono _ _ _ _ later)
            rw [decodeLoop, decodePass_compressed (modeEq.trans mode) _ (by simp)] at twice
            rw [decodeLoop, decodePass_compressed mode _ (by simp), ← same]
            exact twice
  | transparent =>
      rw [decodePass_transparent mode] at passed
      obtain ⟨ahead, leftCases⟩ := decodeTransparent_cons c c₁ b rest left mode passed
      rw [decodeLoop, decodePass_transparent mode, ahead, ok_bind]
      rcases leftCases with rfl | ⟨mode₁, b₂, rfl⟩
      · simp only [decodeLoop_nil] at first
        obtain rfl : c₁ = c' := Except.ok.inj first
        exact decodeLoop_mono fuel c₁ result rest later
      · simp only [List.cons_append, List.nil_append] at first ⊢
        rw [decodeLoop, decodePass_transparent mode₁] at first
        obtain ⟨⟨c₂, left₂⟩, passed₂, first⟩ := bind_eq_ok.mp first
        obtain ⟨ahead₂, _⟩ := decodeTransparent_cons c₁ c₂ b₂ rest left₂ mode₁ passed₂
        cases left₂ with
        | cons b₃ more => cases first
        | nil =>
            simp only [decodeLoop_nil] at first
            obtain rfl : c₂ = c' := Except.ok.inj first
            rw [decodeLoop, decodePass_transparent mode₁, ahead₂, ok_bind]
            exact later

end CompState

end DModem.Comp
