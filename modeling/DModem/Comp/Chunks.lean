/-
Chunking does not matter to the encoder.

`comp_encode` tests the mode at every end of the inner loop, and once more at the end of the
input.  Between two strings that are sent the mode agrees with the compression estimate, so
that the test at the end of the input does nothing.
-/

import DModem.Comp.Poll

namespace DModem.Comp

namespace CompState

structure Agrees (e : CompState) : Prop where
  transparent : e.mode = .transparent → testSlice * 8 - 11 ≤ e.cmpLast
  compressed : e.mode = .compressed → e.cmpLast ≤ testSlice * 8

section Loop

variable {e e' : CompState}

theorem Agrees.congr (agrees : Agrees e) (mode : e'.mode = e.mode)
    (cmpLast : e'.cmpLast = e.cmpLast) : Agrees e' := by
  constructor
  · rw [mode, cmpLast]
    exact agrees.transparent
  · rw [mode, cmpLast]
    exact agrees.compressed

theorem Agrees.testMode (agrees : Agrees e) : e.testMode = .ok e := by
  unfold CompState.testMode
  cases mode : e.mode with
  | transparent =>
      have low := agrees.transparent mode
      exact if_neg (by omega)
  | compressed =>
      have high := agrees.compressed mode
      exact if_neg (by omega)

theorem testMode_agrees (idle : e.lastMatched = 0) (tested : e.testMode = .ok e') :
    Agrees e' := by
  unfold CompState.testMode at tested
  cases mode : e.mode with
  | transparent =>
      rw [mode] at tested
      simp only at tested
      split at tested
      · rename_i better
        rw [sendPending_idle idle, ok_bind] at tested
        obtain rfl := Except.ok.inj tested
        exact ⟨fun other => CompMode.noConfusion other, fun _ => by simp only; omega⟩
      · rename_i worse
        obtain rfl := Except.ok.inj tested
        exact ⟨fun _ => by omega, fun other => CompMode.noConfusion (mode.symm.trans other)⟩
  | compressed =>
      rw [mode] at tested
      simp only at tested
      split at tested
      · rename_i worse
        rw [sendPending_idle idle, ok_bind] at tested
        obtain ⟨bytes, bitData, -, sent⟩ := alignCw_putting { e with lastAdded := 0 } ccwEtm
        rw [sent] at tested
        obtain rfl := Except.ok.inj tested
        exact ⟨fun _ => by change _ ≤ e.cmpLast; omega, fun other => CompMode.noConfusion other⟩
      · rename_i better
        obtain rfl := Except.ok.inj tested
        exact ⟨fun other => CompMode.noConfusion (mode.symm.trans other), fun _ => by omega⟩

theorem updateDict_settles {ch : UInt8} (updated : e.updateDict ch = .ok e') :
    e'.updateAt = 0 ∧ e'.mode = e.mode ∧ e'.cmpLast = e.cmpLast := by
  unfold CompState.updateDict at updated
  split at updated
  · obtain ⟨found, _, updated⟩ := bind_eq_ok.mp updated
    split at updated
    · obtain ⟨⟨dict, new⟩, _, updated⟩ := bind_eq_ok.mp updated
      obtain rfl := Except.ok.inj updated
      exact ⟨rfl, rfl, rfl⟩
    · obtain rfl := Except.ok.inj updated
      exact ⟨rfl, rfl, rfl⟩
  · rename_i settled
    obtain rfl := Except.ok.inj updated
    exact ⟨not_not.mp settled, rfl, rfl⟩

theorem matchString_append {input left : List UInt8} (more : List UInt8)
    (matched : e.matchString input = .ok (e', left)) :
    (e'.lastMatched = 0 ∧ e.matchString (input ++ more) = .ok (e', left ++ more)) ∨
      (left = [] ∧ e.matchString (input ++ more) = e'.matchString more ∧
        e'.mode = e.mode ∧ e'.cmpLast = e.cmpLast ∧ e'.updateAt = e.updateAt) := by
  induction input generalizing e with
  | nil =>
      obtain ⟨rfl, rfl⟩ := Prod.mk.inj (Except.ok.inj matched)
      exact Or.inr ⟨rfl, rfl, rfl, rfl, rfl⟩
  | cons ch rest ih =>
      rw [CompState.matchString] at matched
      obtain ⟨cw, answer, matched⟩ := bind_eq_ok.mp matched
      rw [List.cons_append, CompState.matchString, answer, ok_bind]
      by_cases absent : cw = 0
      · rw [if_pos absent] at matched ⊢
        obtain ⟨e₁, sent, matched⟩ := bind_eq_ok.mp matched
        obtain ⟨rfl, rfl⟩ := Prod.mk.inj (Except.ok.inj matched)
        rw [sent, ok_bind]
        exact Or.inl ⟨rfl, rfl⟩
      · rw [if_neg absent] at matched ⊢
        by_cases reserved : cw = e.lastAdded
        · rw [if_pos reserved] at matched ⊢
          obtain ⟨e₁, sent, matched⟩ := bind_eq_ok.mp matched
          obtain ⟨rfl, rfl⟩ := Prod.mk.inj (Except.ok.inj matched)
          rw [sent, ok_bind]
          exact Or.inl ⟨rfl, rfl⟩
        · rw [if_neg reserved] at matched ⊢
          obtain ⟨e₁, pushed, matched⟩ := bind_eq_ok.mp matched
          have joined : e₁.mode = e.mode ∧ e₁.cmpLast = e.cmpLast ∧ e₁.updateAt = e.updateAt := by
            unfold CompState.pushChar at pushed
            split at pushed
            · obtain rfl := Except.ok.inj pushed
              exact ⟨rfl, rfl, rfl⟩
            · cases pushed
          rw [pushed, ok_bind]
          by_cases longest : e₁.strData.length + e₁.flushedLen = e₁.maxString
          · rw [if_pos longest] at matched ⊢
            obtain ⟨e₂, sent, matched⟩ := bind_eq_ok.mp matched
            obtain ⟨rfl, rfl⟩ := Prod.mk.inj (Except.ok.inj matched)
            rw [sent, ok_bind]
            exact Or.inl ⟨rfl, rfl⟩
          · rw [if_neg longest] at matched ⊢
            rcases ih matched with sent | ⟨ended, goes, mode, cmpLast, updateAt⟩
            · exact Or.inl sent
            · exact Or.inr ⟨ended, goes, mode.trans joined.1, cmpLast.trans joined.2.1,
                updateAt.trans joined.2.2⟩

theorem encodeLoop_fuel {fuel more : Nat} {input : List UInt8} (enough : fuel ≤ more)
    (encoded : encodeLoop fuel e input = .ok e') : encodeLoop more e input = .ok e' := by
  induction fuel generalizing e input more with
  | zero =>
      cases input with
      | nil =>
          rw [encodeLoop] at encoded ⊢
          exact encoded
      | cons ch rest => cases encoded
  | succ fuel ih =>
      cases input with
      | nil =>
          rw [encodeLoop] at encoded ⊢
          exact encoded
      | cons ch rest =>
          obtain ⟨more, rfl⟩ : ∃ n, more = n + 1 := ⟨more - 1, by omega⟩
          rw [encodeLoop] at encoded ⊢
          obtain ⟨e₁, updated, encoded⟩ := bind_eq_ok.mp encoded
          obtain ⟨⟨e₂, left⟩, matched, encoded⟩ := bind_eq_ok.mp encoded
          obtain ⟨e₃, tested, encoded⟩ := bind_eq_ok.mp encoded
          rw [updated, ok_bind, matched, ok_bind]
          simp only
          rw [tested, ok_bind]
          exact ih (by omega) encoded

theorem Agrees.encodeLoop_append {fuel later : Nat} {input more : List UInt8} {e₁ : CompState}
    (agrees : Agrees e) (encoded : encodeLoop fuel e input = .ok e₁)
    (continued : encodeLoop later e₁ more = .ok e') :
    Agrees e₁ ∧ ∃ enough, encodeLoop enough e (input ++ more) = .ok e' := by
  induction fuel generalizing e input with
  | zero =>
      cases input with
      | nil =>
          obtain rfl := Except.ok.inj encoded
          exact ⟨agrees, later, continued⟩
      | cons ch rest => cases encoded
  | succ fuel ih =>
      cases input with
      | nil =>
          obtain rfl := Except.ok.inj encoded
          exact ⟨agrees, later, continued⟩
      | cons ch rest =>
          rw [encodeLoop] at encoded
          obtain ⟨e₂, updated, encoded⟩ := bind_eq_ok.mp encoded
          obtain ⟨⟨e₃, left⟩, matched, encoded⟩ := bind_eq_ok.mp encoded
          obtain ⟨e₄, tested, encoded⟩ := bind_eq_ok.mp encoded
          obtain ⟨settled, mode₂, cmpLast₂⟩ := updateDict_settles updated
          rcases matchString_append more matched with
            ⟨idle, goes⟩ | ⟨ended, goes, mode, cmpLast, updateAt⟩
          · -- the string was sent: the rest of the input is a loop of its own
            obtain ⟨agrees₁, enough, whole⟩ := ih (testMode_agrees idle tested) encoded
            refine ⟨agrees₁, enough + 1, ?_⟩
            rw [List.cons_append] at goes ⊢
            rw [encodeLoop, updated, ok_bind, goes, ok_bind]
            simp only
            rw [tested, ok_bind]
            exact whole
          · -- the string is open: the test does nothing, and the next call goes on
            have agrees₃ : Agrees e₃ :=
              agrees.congr (mode.trans mode₂) (cmpLast.trans cmpLast₂)
            obtain rfl := Except.ok.inj (agrees₃.testMode.symm.trans tested)
            subst ended
            rw [encodeLoop] at encoded
            obtain rfl := Except.ok.inj encoded
            refine ⟨agrees₃, ?_⟩
            cases more with
            | nil =>
                rw [encodeLoop] at continued
                obtain rfl := Except.ok.inj continued
                refine ⟨1, ?_⟩
                rw [List.append_nil, encodeLoop, updated, ok_bind, matched, ok_bind]
                simp only
                rw [tested, ok_bind, encodeLoop]
            | cons next others =>
                cases later with
                | zero => cases continued
                | succ later =>
                    refine ⟨later + 1, ?_⟩
                    have still : e₃.updateDict next = .ok e₃ :=
                      if_neg (not_not_intro (updateAt.trans settled))
                    rw [encodeLoop, still, ok_bind] at continued
                    rw [List.cons_append] at goes ⊢
                    rw [encodeLoop, updated, ok_bind, goes]
                    exact continued

end Loop

/-! ### Calls -/

/-- `comp_encode` for each character. -/
def encodeChars : CompState → List UInt8 → Except Fault CompState
  | e, [] => .ok e
  | e, ch :: rest => do
      let e ← e.compEncode [ch]
      e.encodeChars rest

section Calls

variable {e e' e₁ : CompState}

theorem Agrees.compEncode (agrees : Agrees e) {input : List UInt8}
    (encoded : e.compEncode input = .ok e') : Agrees e' :=
  (agrees.encodeLoop_append encoded (rfl : encodeLoop 0 e' [] = .ok e')).1

theorem Agrees.compEncode_append (agrees : Agrees e) {first second : List UInt8}
    (encoded : e.compEncode first = .ok e₁) (continued : e₁.compEncode second = .ok e')
    {whole : CompState} (together : e.compEncode (first ++ second) = .ok whole) : whole = e' := by
  obtain ⟨-, enough, joined⟩ := agrees.encodeLoop_append encoded continued
  have bounded := encodeLoop_fuel (Nat.le_max_left enough (2 * (first ++ second).length)) joined
  have whole' := encodeLoop_fuel (Nat.le_max_right enough (2 * (first ++ second).length)) together
  exact Except.ok.inj (whole'.symm.trans bounded)

theorem Encodes.encodeChars (encodes : Encodes e) (agrees : Agrees e) (input : List UInt8) :
    e.encodeChars input = e.compEncode input := by
  induction input generalizing e with
  | nil => rfl
  | cons ch rest ih =>
      obtain ⟨e₁, encoded, encodes₁⟩ := encodes.compEncode [ch]
      obtain ⟨e₂, continued, -⟩ := encodes₁.compEncode rest
      obtain ⟨whole, together, -⟩ := encodes.compEncode ([ch] ++ rest)
      have same := agrees.compEncode_append encoded continued together
      rw [CompState.encodeChars, encoded, ok_bind, ih encodes₁ (agrees.compEncode encoded),
        continued, ← same]
      exact together.symm

theorem Agrees.encoderRun (agrees : Agrees e) (calls : List (List UInt8))
    (ran : e.encoderRun (calls.map .encode) = .ok e') : Agrees e' := by
  induction calls generalizing e with
  | nil =>
      obtain rfl := Except.ok.inj ran
      exact agrees
  | cons input rest ih =>
      rw [List.map_cons, CompState.encoderRun] at ran
      obtain ⟨e₁, stepped, ran⟩ := bind_eq_ok.mp ran
      rw [CompState.encoderStep] at stepped
      obtain ⟨e₂, encoded, stepped⟩ := bind_eq_ok.mp stepped
      obtain rfl := Except.ok.inj stepped
      have drained : Agrees e₂.drain := (agrees.compEncode encoded).congr rfl rfl
      exact ih drained ran

theorem compInit_agrees {dictSize maxStr : Int} {c : CompState}
    (initialised : compInit dictSize maxStr = some c) : Agrees c := by
  unfold compInit at initialised
  split at initialised
  · cases initialised
  · obtain rfl := Option.some.inj initialised
    exact ⟨fun _ => by change _ ≤ testSlice * 8; omega, fun other => CompMode.noConfusion other⟩

end Calls

end CompState

open CompState

/-- However the characters are divided into calls, the encoder emits the same and ends in the
same state. -/
theorem encode_chunks (dictSize maxStr : Int) (c e : CompState) (sizeLow : 512 ≤ dictSize)
    (sizeHigh : dictSize ≤ 2048) (strLow : 6 ≤ maxStr) (strHigh : maxStr ≤ 34)
    (initialised : compInit dictSize maxStr = some c) (calls : List (List UInt8))
    (reached : c.encoderRun (calls.map .encode) = .ok e) (first second : List UInt8) :
    ∃ e₁ e₂, e.compEncode first = .ok e₁ ∧ e₁.compEncode second = .ok e₂ ∧
      e.compEncode (first ++ second) = .ok e₂ ∧ e.encodeChars (first ++ second) = .ok e₂ := by
  have agrees := (compInit_agrees initialised).encoderRun calls reached
  have encodes : Encodes e := by
    have sound := compInit_sound sizeLow sizeHigh strLow strHigh initialised
    have none : c.AddedLive := by
      unfold compInit at initialised
      split at initialised
      · cases initialised
      · obtain rfl := Option.some.inj initialised
        exact Or.inl rfl
    obtain ⟨e', ran, encodes, -⟩ := sound.enc.encoderRun none (calls.map .encode)
    obtain rfl := Except.ok.inj (reached.symm.trans ran)
    exact encodes
  obtain ⟨e₁, encoded, encodes₁⟩ := encodes.compEncode first
  obtain ⟨e₂, continued, -⟩ := encodes₁.compEncode second
  obtain ⟨whole, together, -⟩ := encodes.compEncode (first ++ second)
  obtain rfl := agrees.compEncode_append encoded continued together
  exact ⟨e₁, whole, encoded, continued, together,
    (encodes.encodeChars agrees (first ++ second)).trans together⟩

theorem encode_chunks_typed :
    ∃ e, (dictInit (compAlloc 512 6)).encoderRun [.encode [97, 97, 98]] = .ok e ∧
      ∃ e₁ e₂, e.compEncode [97] = .ok e₁ ∧ e₁.compEncode [97, 99] = .ok e₂ ∧
        e.compEncode ([97] ++ [97, 99]) = .ok e₂ ∧ e.encodeChars ([97] ++ [97, 99]) = .ok e₂ :=
  ⟨_, rfl, encode_chunks 512 6 (dictInit (compAlloc 512 6)) _ (by decide) (by decide)
    (by decide) (by decide) rfl [[97, 97, 98]] rfl [97] [97, 99]⟩

end DModem.Comp
