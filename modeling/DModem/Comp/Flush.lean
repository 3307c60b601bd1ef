/-
What the decoder says does not depend on when it is flushed.

`comp_flush_decoder` and the draining of the output buffer move characters
forward; every decision of `comp_decode` depends on the length of the current
string including what was flushed, and on nothing else about its place.
-/

import DModem.Comp.Codec
import DModem.Comp.DictWf

namespace DModem.Comp

namespace CompState

def recut (c : CompState) (strData : List UInt8) (flushedLen : Nat) (obuf : List UInt8)
    (ohead : Nat) : CompState :=
  { c with
    strData := strData
    flushedLen := flushedLen
    obuf := obuf
    ohead := ohead }

/-- The current string is shorter than the limit, and there is none in compressed
mode. -/
structure Held (c : CompState) : Prop where
  fits : c.maxString ≤ compMaxString
  short : c.flushedLen + c.strData.length < c.maxString
  closed : c.mode = .compressed → c.flushedLen + c.strData.length = 0

inductive Twin (out₁ : List UInt8) (c₁ : CompState) (out₂ : List UInt8) : CompState → Prop where
  | mk (s : List UInt8) (f : Nat) (o : List UInt8) (h : Nat)
      (total : c₁.flushedLen + c₁.strData.length = f + s.length)
      (text : out₁ ++ c₁.obuf ++ c₁.strData = out₂ ++ o ++ s) :
      Twin out₁ c₁ out₂ (c₁.recut s f o h)

theorem Twin.refl (out : List UInt8) (c : CompState) : Twin out c out c :=
  .mk c.strData c.flushedLen c.obuf c.ohead rfl rfl

theorem Twin.text_eq {out₁ out₂ : List UInt8} {c₁ c₂ : CompState}
    (twin : Twin out₁ c₁ out₂ c₂) :
    out₁ ++ c₁.obuf ++ c₁.strData = out₂ ++ c₂.obuf ++ c₂.strData := by
  cases twin with
  | mk s f o h total text => exact text

theorem Twin.total_eq {out₁ out₂ : List UInt8} {c₁ c₂ : CompState}
    (twin : Twin out₁ c₁ out₂ c₂) :
    c₁.flushedLen + c₁.strData.length = c₂.flushedLen + c₂.strData.length := by
  cases twin with
  | mk s f o h total text => exact total

theorem Twin.flush {out₁ out₂ : List UInt8} {c₁ c₂ : CompState} (twin : Twin out₁ c₁ out₂ c₂) :
    Twin out₁ c₁ out₂ c₂.compFlushDecoder := by
  cases twin with
  | mk s f o h total text =>
      refine .mk [] (f + s.length) (o ++ s) h total ?_
      rw [text, List.append_nil, List.append_assoc]

theorem Twin.drain {out₁ out₂ : List UInt8} {c₁ c₂ : CompState} (twin : Twin out₁ c₁ out₂ c₂) :
    Twin out₁ c₁ (out₂ ++ c₂.obuf) c₂.drain := by
  cases twin with
  | mk s f o h total text =>
      refine .mk s f [] 0 total ?_
      rw [text, List.append_nil]
      rfl

section Steps

variable {c c' : CompState} {out₁ out₂ : List UInt8} {c₁ c₂ : CompState}

theorem updateDict_recut {ch : UInt8} (updated : c.updateDict ch = .ok c')
    (s : List UInt8) (f : Nat) (o : List UInt8) (h : Nat) :
    (c.recut s f o h).updateDict ch = .ok (c'.recut s f o h) ∧
      c'.strData = c.strData ∧ c'.flushedLen = c.flushedLen ∧ c'.obuf = c.obuf ∧
      c'.maxString = c.maxString ∧ c'.mode = c.mode := by
  unfold updateDict at updated ⊢
  by_cases pending : c.updateAt = 0
  · rw [if_neg (not_not_intro pending)] at updated
    obtain rfl := Except.ok.inj updated
    exact ⟨if_neg (not_not_intro pending), rfl, rfl, rfl, rfl, rfl⟩
  · rw [if_pos pending] at updated
    rw [if_pos (show (c.recut s f o h).updateAt ≠ 0 from pending)]
    obtain ⟨found, answer, updated⟩ := bind_eq_ok.mp updated
    have looked : (c.recut s f o h).dict.matchChar (c.recut s f o h).updateAt ch = .ok found :=
      answer
    rw [looked, ok_bind]
    by_cases absent : found = 0
    · rw [if_pos absent] at updated
      obtain ⟨⟨dict, new⟩, added, updated⟩ := bind_eq_ok.mp updated
      obtain rfl := Except.ok.inj updated
      have grown : (c.recut s f o h).dict.addChar (c.recut s f o h).updateAt ch =
          .ok (dict, new) := added
      rw [if_pos absent, grown]
      exact ⟨rfl, rfl, rfl, rfl, rfl, rfl⟩
    · rw [if_neg absent] at updated
      obtain rfl := Except.ok.inj updated
      rw [if_neg absent]
      exact ⟨rfl, rfl, rfl, rfl, rfl, rfl⟩

theorem Twin.decodeChar (twin : Twin out₁ c₁ out₂ c₂) (held : c₁.Held)
    (mode : c₁.mode = .transparent) {ch : UInt8} {taken : Bool}
    (decoded : c₁.decodeChar ch = .ok (c', taken)) :
    ∃ c₃, c₂.decodeChar ch = .ok (c₃, taken) ∧ Twin out₁ c' out₂ c₃ ∧ c'.Held ∧
      c'.mode = .transparent := by
  cases twin with
  | mk s f o h total text =>
      obtain ⟨fits, short, _⟩ := held
      unfold CompState.decodeChar at decoded
      obtain ⟨c₀, updated, decoded⟩ := bind_eq_ok.mp decoded
      obtain ⟨cw, answer, decoded⟩ := bind_eq_ok.mp decoded
      obtain ⟨updated₂, strEq, flushedEq, obufEq, maxEq, modeEq⟩ := updateDict_recut updated s f o h
      rw [← strEq, ← flushedEq] at total short
      rw [← strEq, ← obufEq] at text
      rw [← maxEq] at fits short
      rw [← modeEq] at mode
      have closed : ∀ other : CompState, other.mode = c₀.mode → other.mode = .compressed →
          other.flushedLen + other.strData.length = 0 := by
        intro other same compressed
        exact absurd (mode.symm.trans (same.symm.trans compressed)) (by decide)
      have answer₂ : (c₀.recut s f o h).dict.matchChar (c₀.recut s f o h).lastMatched ch = .ok cw :=
        answer
      unfold CompState.decodeChar
      rw [updated₂, ok_bind, answer₂, ok_bind]
      have joined : out₁ ++ (c₀.obuf ++ c₀.strData) ++ [] = out₂ ++ (o ++ s) ++ [] := by
        rw [List.append_nil, List.append_nil, ← List.append_assoc, ← List.append_assoc]
        exact text
      have positive : 0 + ([] : List UInt8).length < c₀.maxString := by
        rw [List.length_nil]
        omega
      by_cases mismatch : cw = 0
      · rw [if_pos mismatch] at decoded ⊢
        obtain ⟨rfl, rfl⟩ := Prod.mk.inj (Except.ok.inj decoded)
        exact ⟨_, rfl, .mk [] 0 (o ++ s) h rfl joined, ⟨fits, positive, closed _ rfl⟩, mode⟩
      · by_cases reserved : cw = c₀.lastAdded
        · rw [if_neg mismatch, if_pos reserved] at decoded
          rw [if_neg mismatch, if_pos (show cw = (c₀.recut s f o h).lastAdded from reserved)]
          obtain ⟨rfl, rfl⟩ := Prod.mk.inj (Except.ok.inj decoded)
          exact ⟨_, rfl, .mk [] 0 (o ++ s) h rfl joined, ⟨fits, positive, closed _ rfl⟩, mode⟩
        · rw [if_neg mismatch, if_neg reserved] at decoded
          rw [if_neg mismatch, if_neg (show cw ≠ (c₀.recut s f o h).lastAdded from reserved)]
          obtain ⟨c₅, pushed, decoded⟩ := bind_eq_ok.mp decoded
          unfold pushChar at pushed
          rw [if_pos (show c₀.strData.length < compMaxString by omega)] at pushed
          obtain rfl := Except.ok.inj pushed
          have pushed₂ : ({ c₀.recut s f o h with lastMatched := cw } : CompState).pushChar ch =
              .ok (({ c₀ with lastMatched := cw } : CompState).recut (s ++ [ch]) f o h) :=
            if_pos (show s.length < compMaxString by omega)
          have longer : c₀.flushedLen + (c₀.strData ++ [ch]).length = f + (s ++ [ch]).length := by
            simp only [List.length_append]
            omega
          have texts : out₁ ++ c₀.obuf ++ (c₀.strData ++ [ch]) = out₂ ++ o ++ (s ++ [ch]) := by
            rw [← List.append_assoc, text, List.append_assoc]
          rw [pushed₂, ok_bind]
          by_cases full : (c₀.strData ++ [ch]).length + c₀.flushedLen = c₀.maxString
          · rw [if_pos full] at decoded
            obtain ⟨rfl, rfl⟩ := Prod.mk.inj (Except.ok.inj decoded)
            have sentTexts : out₁ ++ (c₀.obuf ++ (c₀.strData ++ [ch])) ++ [] =
                out₂ ++ (o ++ (s ++ [ch])) ++ [] := by
              rw [List.append_nil, List.append_nil, ← List.append_assoc, ← List.append_assoc out₂]
              exact texts
            exact ⟨_, if_pos (show (s ++ [ch]).length + f = c₀.maxString by omega),
              .mk [] 0 (o ++ (s ++ [ch])) h rfl sentTexts, ⟨fits, positive, closed _ rfl⟩, mode⟩
          · rw [if_neg full] at decoded
            obtain ⟨rfl, rfl⟩ := Prod.mk.inj (Except.ok.inj decoded)
            refine ⟨_, if_neg (show (s ++ [ch]).length + f ≠ c₀.maxString by omega),
              .mk (s ++ [ch]) f o h longer texts, ⟨fits, ?_, closed _ rfl⟩, mode⟩
            change c₀.flushedLen + (c₀.strData ++ [ch]).length < c₀.maxString
            rw [List.length_append, List.length_singleton] at full ⊢
            omega

theorem decodeUpdate_recut {cw : Nat} (updated : c.decodeUpdate cw = .ok c') (f : Nat)
    (o : List UInt8) (h : Nat) :
    (c.recut c.strData f o h).decodeUpdate cw = .ok (c'.recut c.strData f o h) ∧
      c'.strData = c.strData ∧ c'.flushedLen = c.flushedLen ∧ c'.obuf = c.obuf ∧
      c'.maxString = c.maxString ∧ c'.mode = c.mode := by
  unfold decodeUpdate at updated ⊢
  by_cases pending : c.updateAt = 0
  · rw [if_neg (not_not_intro pending)] at updated
    obtain rfl := Except.ok.inj updated
    exact ⟨if_neg (not_not_intro pending), rfl, rfl, rfl, rfl, rfl⟩
  · rw [if_pos pending] at updated
    rw [if_pos (show (c.recut c.strData f o h).updateAt ≠ 0 from pending)]
    obtain ⟨found, answer, updated⟩ := bind_eq_ok.mp updated
    have looked : (c.recut c.strData f o h).dict.matchChar (c.recut c.strData f o h).updateAt
        ((c.recut c.strData f o h).strData.headD 0) = .ok found := answer
    dsimp only
    rw [looked, ok_bind]
    by_cases absent : found = 0
    · rw [if_pos absent] at updated
      obtain ⟨⟨dict, new⟩, added, updated⟩ := bind_eq_ok.mp updated
      have grown : (c.recut c.strData f o h).dict.addChar (c.recut c.strData f o h).updateAt
          ((c.recut c.strData f o h).strData.headD 0) = .ok (dict, new) := added
      rw [if_pos absent, grown, ok_bind]
      by_cases free : cw = dict.nextFree
      · simp only [if_pos free] at updated
        cases updated
      · simp only [if_neg free] at updated ⊢
        obtain rfl := Except.ok.inj updated
        exact ⟨rfl, rfl, rfl, rfl, rfl, rfl⟩
    · rw [if_neg absent] at updated
      rw [if_neg absent]
      by_cases reserved : found = c.lastAdded
      · rw [if_pos reserved] at updated
        obtain rfl := Except.ok.inj updated
        rw [if_pos (show found = (c.recut c.strData f o h).lastAdded from reserved)]
        exact ⟨rfl, rfl, rfl, rfl, rfl, rfl⟩
      · rw [if_neg reserved] at updated
        obtain rfl := Except.ok.inj updated
        rw [if_neg (show found ≠ (c.recut c.strData f o h).lastAdded from reserved)]
        exact ⟨rfl, rfl, rfl, rfl, rfl, rfl⟩

theorem decodeString_recut {cw : Nat} (decoded : c.decodeString cw = .ok c')
    (empty : c.strData = []) (o : List UInt8) (h : Nat) :
    ∃ chars, c'.obuf = c.obuf ++ chars ∧ c'.strData = [] ∧ c'.flushedLen = 0 ∧
      c'.maxString = c.maxString ∧ c'.mode = c.mode ∧
      (c.recut [] c.flushedLen o h).decodeString cw = .ok (c'.recut [] 0 (o ++ chars) h) := by
  unfold decodeString at decoded ⊢
  by_cases free : cw = c.dict.nextFree
  · rw [if_pos free] at decoded
    cases decoded
  · rw [if_neg free] at decoded
    rw [if_neg (show cw ≠ (c.recut [] c.flushedLen o h).dict.nextFree from free)]
    obtain ⟨c₁, received, decoded⟩ := bind_eq_ok.mp decoded
    obtain ⟨c₂, updated, finished⟩ := bind_eq_ok.mp decoded
    unfold recvData at received ⊢
    obtain ⟨chars, read, received⟩ := bind_eq_ok.mp received
    rw [empty, List.length_nil, Nat.zero_add, List.nil_append] at received
    split at received
    · rename_i room
      obtain rfl := Except.ok.inj received
      obtain ⟨updated₂, strEq, flushedEq, obufEq, maxEq, modeEq⟩ :=
        decodeUpdate_recut updated c.flushedLen o h
      change c₂.strData = chars at strEq
      have received₂ : (if (c.recut [] c.flushedLen o h).strData.length + chars.length ≤
            compMaxString then
          Except.ok { c.recut [] c.flushedLen o h with
            strData := (c.recut [] c.flushedLen o h).strData ++ chars }
          else .error .strIndex) =
          (Except.ok (({ c with strData := chars } : CompState).recut chars c.flushedLen o h) :
            Except Fault CompState) :=
        if_pos (show 0 + chars.length ≤ compMaxString by omega)
      have read₂ : stringChars (c.recut [] c.flushedLen o h).dict
          (c.recut [] c.flushedLen o h).dict.alloc cw = .ok chars := read
      rw [read₂, ok_bind, received₂, ok_bind]
      change (({ c with strData := chars } : CompState).recut chars c.flushedLen o h).decodeUpdate
        cw = _ at updated₂
      obtain rfl := Except.ok.inj finished
      refine ⟨chars, ?_, rfl, rfl, maxEq, modeEq, ?_⟩
      · change c₂.obuf ++ c₂.strData = _
        rw [obufEq, strEq]
      · rw [updated₂, ok_bind]
        unfold finishString sendString recut
        simp only [strEq, flushedEq]
    · cases received

theorem Twin.decodeCodeword (twin : Twin out₁ c₁ out₂ c₂) (held : c₁.Held)
    (mode : c₁.mode = .compressed) {cw : Nat} (decoded : c₁.decodeCodeword cw = .ok c') :
    ∃ c₃, c₂.decodeCodeword cw = .ok c₃ ∧ Twin out₁ c' out₂ c₃ ∧ c'.Held := by
  have closed := held.closed mode
  have empty : c₁.strData = [] := List.eq_nil_of_length_eq_zero (by omega)
  have unflushed : c₁.flushedLen = 0 := by omega
  cases twin with
  | mk s f o h total text =>
      rw [closed] at total
      obtain rfl : s = [] := List.eq_nil_of_length_eq_zero (by omega)
      obtain rfl : f = 0 := by omega
      unfold CompState.decodeCodeword at decoded
      by_cases etm : cw = ccwEtm
      · rw [if_pos etm] at decoded
        obtain rfl := Except.ok.inj decoded
        refine ⟨_, if_pos etm, by exact .mk [] 0 o h closed text, held.fits, held.short, ?_⟩
        intro _
        exact closed
      · rw [if_neg etm] at decoded
        by_cases flush : cw = ccwFlush
        · rw [if_pos flush] at decoded
          obtain rfl := Except.ok.inj decoded
          refine ⟨({ c₁ with bitLen := 0 } : CompState).recut [] 0 o h, ?_,
            by exact .mk [] 0 o h closed text, held.fits, held.short, held.closed⟩
          unfold CompState.decodeCodeword
          rw [if_neg etm, if_pos flush]
          rfl
        · rw [if_neg flush] at decoded
          by_cases stepup : cw = ccwStepup
          · rw [if_pos stepup] at decoded
            by_cases refused : c₁.cwSize + 1 > c₁.dict.dictSize / 8
            · simp only [if_pos refused] at decoded
              cases decoded
            · simp only [if_neg refused] at decoded
              obtain rfl := Except.ok.inj decoded
              refine ⟨({ c₁ with
                  cwSize := c₁.cwSize + 1
                  threshold := c₁.threshold * 2 % 2 ^ 16 } : CompState).recut [] 0 o h, ?_,
                by exact .mk [] 0 o h closed text, held.fits, held.short, held.closed⟩
              unfold CompState.decodeCodeword
              rw [if_neg etm, if_neg flush, if_pos stepup]
              exact if_neg refused
          · rw [if_neg stepup] at decoded
            obtain ⟨chars, obufEq, strEq, flushedEq, maxEq, modeEq, decoded₂⟩ :=
              decodeString_recut decoded empty o h
            rw [unflushed] at decoded₂
            refine ⟨c'.recut [] 0 (o ++ chars) h, ?_, .mk [] 0 (o ++ chars) h ?_ ?_, ?_, ?_, ?_⟩
            · unfold CompState.decodeCodeword
              rw [if_neg etm, if_neg flush, if_neg stepup]
              exact decoded₂
            · rw [strEq, flushedEq]
            · rw [strEq, obufEq, List.append_nil, List.append_nil, ← List.append_assoc,
                ← List.append_assoc]
              rw [empty, List.append_nil, List.append_nil] at text
              rw [text]
            · rw [maxEq]
              exact held.fits
            · have short := held.short
              rw [strEq, flushedEq, maxEq, List.length_nil]
              omega
            · intro _
              rw [strEq, flushedEq]
              rfl

theorem fillBits_recut (c : CompState) (input s : List UInt8) (f : Nat) (o : List UInt8) (h : Nat) :
    (c.recut s f o h).fillBits input =
      ((c.fillBits input).1.recut s f o h, (c.fillBits input).2) ∧
    (c.fillBits input).1.strData = c.strData ∧ (c.fillBits input).1.flushedLen = c.flushedLen ∧
    (c.fillBits input).1.obuf = c.obuf ∧ (c.fillBits input).1.maxString = c.maxString ∧
    (c.fillBits input).1.mode = c.mode := by
  induction input generalizing c with
  | nil => exact ⟨rfl, rfl, rfl, rfl, rfl, rfl⟩
  | cons b rest ih =>
      unfold fillBits
      by_cases short : c.bitLen < c.cwSize
      · rw [if_pos short, if_pos (show (c.recut s f o h).bitLen < (c.recut s f o h).cwSize from short)]
        exact ih (c.pushByte b)
      · rw [if_neg short, if_neg (show ¬(c.recut s f o h).bitLen < (c.recut s f o h).cwSize from short)]
        exact ⟨rfl, rfl, rfl, rfl, rfl, rfl⟩

theorem Twin.decodeCompressed (twin : Twin out₁ c₁ out₂ c₂) (held : c₁.Held)
    (mode : c₁.mode = .compressed) {input left : List UInt8}
    (decoded : c₁.decodeCompressed input = .ok (c', left)) :
    ∃ c₃, c₂.decodeCompressed input = .ok (c₃, left) ∧ Twin out₁ c' out₂ c₃ ∧ c'.Held := by
  cases twin with
  | mk s f o h total text =>
      obtain ⟨fillEq, strEq, flushedEq, obufEq, maxEq, modeEq⟩ :=
        fillBits_recut c₁ input s f o h
      have held' : (c₁.fillBits input).1.Held := by
        refine ⟨?_, ?_, ?_⟩
        · rw [maxEq]
          exact held.fits
        · rw [strEq, flushedEq, maxEq]
          exact held.short
        · rw [strEq, flushedEq, modeEq]
          exact held.closed
      have twin' : Twin out₁ (c₁.fillBits input).1 out₂ ((c₁.fillBits input).1.recut s f o h) := by
        refine .mk s f o h ?_ ?_
        · rw [strEq, flushedEq]
          exact total
        · rw [strEq, obufEq]
          exact text
      unfold CompState.decodeCompressed at decoded ⊢
      by_cases wide : c₁.cwSize ≥ 32
      · rw [if_pos wide] at decoded
        cases decoded
      · rw [if_neg wide] at decoded
        rw [if_neg (show ¬(c₁.recut s f o h).cwSize ≥ 32 from wide), fillEq]
        simp only at decoded ⊢
        rw [mode] at modeEq
        rw [← strEq, ← flushedEq] at total
        rw [← strEq, ← obufEq] at text
        generalize c₁.fillBits input = filled at decoded held' twin' modeEq total text
        obtain ⟨c₅, rest⟩ := filled
        simp only at decoded held' twin' modeEq total text ⊢
        by_cases short : c₅.bitLen < c₅.cwSize
        · rw [if_pos short] at decoded
          rw [if_pos (show (c₅.recut s f o h).bitLen < (c₅.recut s f o h).cwSize from short)]
          obtain ⟨rfl, rfl⟩ := Prod.mk.inj (Except.ok.inj decoded)
          exact ⟨_, rfl, twin', held'⟩
        · rw [if_neg short] at decoded
          rw [if_neg (show ¬(c₅.recut s f o h).bitLen < (c₅.recut s f o h).cwSize from short)]
          obtain ⟨c₆, taken, done⟩ := bind_eq_ok.mp decoded
          obtain ⟨rfl, rfl⟩ := Prod.mk.inj (Except.ok.inj done)
          have cut : Twin out₁
              { c₅ with bitData := c₅.bitData >>> c₅.cwSize, bitLen := c₅.bitLen - c₅.cwSize } out₂
              (({ c₅ with
                bitData := c₅.bitData >>> c₅.cwSize
                bitLen := c₅.bitLen - c₅.cwSize } : CompState).recut s f o h) :=
            .mk s f o h total text
          have heldCut : CompState.Held
              { c₅ with bitData := c₅.bitData >>> c₅.cwSize, bitLen := c₅.bitLen - c₅.cwSize } :=
            ⟨held'.fits, held'.short, held'.closed⟩
          obtain ⟨c₃, taken₂, twin₃, held₃⟩ := cut.decodeCodeword heldCut modeEq taken
          refine ⟨c₃, ?_, twin₃, held₃⟩
          exact congrArg (· >>= fun c => Except.ok (c, rest)) taken₂

theorem Twin.decodeData (twin : Twin out₁ c₁ out₂ c₂) (held : c₁.Held)
    (mode : c₁.mode = .transparent) {ch : UInt8} {rest left : List UInt8}
    (decoded : c₁.decodeData ch rest = .ok (c', left)) :
    ∃ c₃, c₂.decodeData ch rest = .ok (c₃, left) ∧ Twin out₁ c' out₂ c₃ ∧ c'.Held := by
  unfold CompState.decodeData at decoded ⊢
  obtain ⟨⟨c₅, taken⟩, passed, done⟩ := bind_eq_ok.mp decoded
  obtain ⟨rfl, rfl⟩ := Prod.mk.inj (Except.ok.inj done)
  obtain ⟨c₃, passed₂, twin₃, held₃, _⟩ := twin.decodeChar held mode passed
  exact ⟨c₃, by rw [passed₂, ok_bind], twin₃, held₃⟩

theorem Twin.decodeTransparent (twin : Twin out₁ c₁ out₂ c₂) (held : c₁.Held)
    (mode : c₁.mode = .transparent) {b : UInt8} {rest left : List UInt8}
    (decoded : c₁.decodeTransparent b rest = .ok (c', left)) :
    ∃ c₃, c₂.decodeTransparent b rest = .ok (c₃, left) ∧ Twin out₁ c' out₂ c₃ ∧ c'.Held := by
  cases twin with
  | mk s f o h total text =>
      obtain ⟨fits, short, closed⟩ := held
      have positive : 0 + ([] : List UInt8).length < c₁.maxString := by
        rw [List.length_nil]
        omega
      have joined : out₁ ++ (c₁.obuf ++ c₁.strData) ++ [] = out₂ ++ (o ++ s) ++ [] := by
        rw [List.append_nil, List.append_nil, ← List.append_assoc, ← List.append_assoc]
        exact text
      unfold CompState.decodeTransparent at decoded ⊢
      by_cases raised : c₁.escape = true
      · rw [if_pos raised] at decoded
        rw [if_pos (show (c₁.recut s f o h).escape = true from raised)]
        simp only at decoded ⊢
        by_cases ecm : b = ccEcm
        · rw [if_pos ecm] at decoded ⊢
          obtain ⟨rfl, rfl⟩ := Prod.mk.inj (Except.ok.inj decoded)
          exact ⟨_, rfl, by exact .mk [] 0 (o ++ s) h rfl joined, fits, positive, fun _ => rfl⟩
        · rw [if_neg ecm] at decoded ⊢
          by_cases eid : b = ccEid
          · rw [if_pos eid] at decoded ⊢
            have cut : Twin out₁
                { c₁ with escape := false, escapeChar := c₁.escapeChar + escapeStep } out₂
                (({ c₁ with escape := false, escapeChar := c₁.escapeChar + escapeStep } :
                  CompState).recut s f o h) := .mk s f o h total text
            exact cut.decodeData ⟨fits, short, closed⟩ mode decoded
          · rw [if_neg eid] at decoded ⊢
            by_cases reset : b = ccReset
            · rw [if_pos reset] at decoded ⊢
              obtain ⟨rfl, rfl⟩ := Prod.mk.inj (Except.ok.inj decoded)
              exact ⟨_, rfl, by exact .mk [] 0 (o ++ s) h rfl joined, fits, positive, fun _ => rfl⟩
            · rw [if_neg reset] at decoded
              cases decoded
      · rw [if_neg raised] at decoded
        rw [if_neg (show ¬(c₁.recut s f o h).escape = true from raised)]
        by_cases escaped : b = c₁.escapeChar
        · rw [if_pos escaped] at decoded
          rw [if_pos (show b = (c₁.recut s f o h).escapeChar from escaped)]
          obtain ⟨rfl, rfl⟩ := Prod.mk.inj (Except.ok.inj decoded)
          exact ⟨_, rfl, by exact .mk s f o h total text, fits, short, closed⟩
        · rw [if_neg escaped] at decoded
          rw [if_neg (show b ≠ (c₁.recut s f o h).escapeChar from escaped)]
          exact Twin.decodeData (.mk s f o h total text) ⟨fits, short, closed⟩ mode decoded

theorem Twin.mode_eq (twin : Twin out₁ c₁ out₂ c₂) : c₂.mode = c₁.mode := by
  cases twin with
  | mk => rfl

theorem Twin.decodeLoop (twin : Twin out₁ c₁ out₂ c₂) (held : c₁.Held) (fuel : Nat)
    (input : List UInt8) (decoded : decodeLoop fuel c₁ input = .ok c') :
    ∃ c₃, CompState.decodeLoop fuel c₂ input = .ok c₃ ∧ Twin out₁ c' out₂ c₃ ∧ c'.Held := by
  induction fuel generalizing c₁ c₂ input with
  | zero =>
      cases input with
      | nil =>
          obtain rfl := Except.ok.inj decoded
          exact ⟨c₂, rfl, twin, held⟩
      | cons => cases decoded
  | succ fuel ih =>
      cases input with
      | nil =>
          obtain rfl := Except.ok.inj decoded
          exact ⟨c₂, rfl, twin, held⟩
      | cons b rest =>
          rw [CompState.decodeLoop] at decoded
          obtain ⟨⟨c₅, left⟩, passed, later⟩ := bind_eq_ok.mp decoded
          have step : ∃ c₆, c₂.decodePass (b :: rest) = .ok (c₆, left) ∧ Twin out₁ c₅ out₂ c₆ ∧
              c₅.Held := by
            have modeEq := twin.mode_eq
            cases mode : c₁.mode with
            | transparent =>
                rw [mode] at modeEq
                simp only [decodePass, mode] at passed
                simp only [decodePass, modeEq]
                exact twin.decodeTransparent held mode passed
            | compressed =>
                rw [mode] at modeEq
                simp only [decodePass, mode] at passed
                simp only [decodePass, modeEq]
                exact twin.decodeCompressed held mode passed
          obtain ⟨c₆, passed₂, twin₆, held₆⟩ := step
          obtain ⟨c₃, later₂, twin₃, held₃⟩ := ih twin₆ held₆ left later
          refine ⟨c₃, ?_, twin₃, held₃⟩
          rw [CompState.decodeLoop, passed₂, ok_bind]
          exact later₂

theorem Twin.compDecode (twin : Twin out₁ c₁ out₂ c₂) (held : c₁.Held) {input : List UInt8}
    (decoded : c₁.compDecode input = .ok c') :
    ∃ c₃, c₂.compDecode input = .ok c₃ ∧ Twin out₁ c' out₂ c₃ ∧ c'.Held :=
  twin.decodeLoop held _ input decoded

end Steps

/-! ### How much a call can add -/

/-- At most `count` characters more, and the output buffer still read from the
same place. -/
structure Grew (c : CompState) (count : Nat) (c' : CompState) : Prop where
  ohead : c'.ohead = c.ohead
  length : c'.obuf.length + c'.strData.length ≤ c.obuf.length + c.strData.length + count

theorem updateDict_grew {c c' : CompState} {ch : UInt8} (updated : c.updateDict ch = .ok c') :
    c'.ohead = c.ohead ∧ c'.obuf = c.obuf ∧ c'.strData = c.strData := by
  unfold updateDict at updated
  split at updated
  · obtain ⟨found, _, updated⟩ := bind_eq_ok.mp updated
    split at updated
    · obtain ⟨pair, _, updated⟩ := bind_eq_ok.mp updated
      obtain rfl := Except.ok.inj updated
      exact ⟨rfl, rfl, rfl⟩
    · obtain rfl := Except.ok.inj updated
      exact ⟨rfl, rfl, rfl⟩
  · obtain rfl := Except.ok.inj updated
    exact ⟨rfl, rfl, rfl⟩

theorem sendString_grew (c : CompState) : Grew c 0 c.sendString := by
  refine ⟨rfl, ?_⟩
  simp [sendString]

theorem decodeChar_grew {c c' : CompState} {ch : UInt8} {taken : Bool}
    (decoded : c.decodeChar ch = .ok (c', taken)) : Grew c 1 c' := by
  unfold decodeChar at decoded
  obtain ⟨c₀, updated, decoded⟩ := bind_eq_ok.mp decoded
  obtain ⟨cw, _, decoded⟩ := bind_eq_ok.mp decoded
  obtain ⟨oheadEq, obufEq, strEq⟩ := updateDict_grew updated
  split at decoded
  · obtain ⟨rfl, _⟩ := Prod.mk.inj (Except.ok.inj decoded)
    refine ⟨oheadEq, ?_⟩
    simp [sendString, obufEq, strEq]
  · split at decoded
    · obtain ⟨rfl, _⟩ := Prod.mk.inj (Except.ok.inj decoded)
      refine ⟨oheadEq, ?_⟩
      simp [sendString, obufEq, strEq]
    · obtain ⟨c₁, pushed, decoded⟩ := bind_eq_ok.mp decoded
      unfold pushChar at pushed
      split at pushed
      · obtain rfl := Except.ok.inj pushed
        split at decoded
        · obtain ⟨rfl, _⟩ := Prod.mk.inj (Except.ok.inj decoded)
          refine ⟨oheadEq, ?_⟩
          simp [sendString, obufEq, strEq, Nat.add_assoc]
        · obtain ⟨rfl, _⟩ := Prod.mk.inj (Except.ok.inj decoded)
          refine ⟨oheadEq, ?_⟩
          simp [obufEq, strEq, Nat.add_assoc]
      · cases pushed

theorem decodeUpdate_grew {c c' : CompState} {cw : Nat} (updated : c.decodeUpdate cw = .ok c') :
    c'.ohead = c.ohead ∧ c'.obuf = c.obuf ∧ c'.strData = c.strData := by
  unfold decodeUpdate at updated
  split at updated
  · obtain ⟨found, _, updated⟩ := bind_eq_ok.mp updated
    split at updated
    · obtain ⟨⟨dict, new⟩, _, updated⟩ := bind_eq_ok.mp updated
      simp only at updated
      split at updated
      · cases updated
      · obtain rfl := Except.ok.inj updated
        exact ⟨rfl, rfl, rfl⟩
    · split at updated
      · obtain rfl := Except.ok.inj updated
        exact ⟨rfl, rfl, rfl⟩
      · obtain rfl := Except.ok.inj updated
        exact ⟨rfl, rfl, rfl⟩
  · obtain rfl := Except.ok.inj updated
    exact ⟨rfl, rfl, rfl⟩

theorem decodeCodeword_grew {c c' : CompState} {cw : Nat}
    (decoded : c.decodeCodeword cw = .ok c') : Grew c compMaxString c' := by
  unfold decodeCodeword at decoded
  split at decoded
  · obtain rfl := Except.ok.inj decoded
    exact ⟨rfl, Nat.le_add_right _ _⟩
  · split at decoded
    · obtain rfl := Except.ok.inj decoded
      exact ⟨rfl, Nat.le_add_right _ _⟩
    · split at decoded
      · simp only at decoded
        split at decoded
        · cases decoded
        · obtain rfl := Except.ok.inj decoded
          exact ⟨rfl, Nat.le_add_right _ _⟩
      · unfold decodeString at decoded
        split at decoded
        · cases decoded
        · obtain ⟨c₁, received, decoded⟩ := bind_eq_ok.mp decoded
          obtain ⟨c₂, updated, decoded⟩ := bind_eq_ok.mp decoded
          obtain ⟨oheadEq, obufEq, strEq⟩ := decodeUpdate_grew updated
          obtain rfl := Except.ok.inj decoded
          unfold recvData at received
          obtain ⟨chars, _, received⟩ := bind_eq_ok.mp received
          split at received
          · obtain rfl := Except.ok.inj received
            refine ⟨oheadEq, ?_⟩
            simp only [finishString, sendString, obufEq, strEq, List.length_append, List.length_nil]
            omega
          · cases received

theorem fillBits_grew (c : CompState) (input : List UInt8) :
    (c.fillBits input).1.ohead = c.ohead ∧ (c.fillBits input).1.obuf = c.obuf ∧
      (c.fillBits input).1.strData = c.strData := by
  induction input generalizing c with
  | nil => exact ⟨rfl, rfl, rfl⟩
  | cons b rest ih =>
      unfold fillBits
      split
      · exact ih (c.pushByte b)
      · exact ⟨rfl, rfl, rfl⟩

theorem decodePass_grew {c c' : CompState} {input left : List UInt8}
    (passed : c.decodePass input = .ok (c', left)) : Grew c compMaxString c' := by
  unfold decodePass at passed
  split at passed
  · obtain ⟨rfl, _⟩ := Prod.mk.inj (Except.ok.inj passed)
    exact ⟨rfl, Nat.le_add_right _ _⟩
  · unfold decodeCompressed at passed
    split at passed
    · cases passed
    · rename_i b rest _ _
      obtain ⟨oheadEq, obufEq, strEq⟩ := fillBits_grew c (b :: rest)
      simp only at passed
      split at passed
      · have stateEq : (c.fillBits (b :: rest)).1 = c' :=
          congrArg Prod.fst (Except.ok.inj passed)
        rw [stateEq] at oheadEq obufEq strEq
        refine ⟨oheadEq, ?_⟩
        rw [obufEq, strEq]
        exact Nat.le_add_right _ _
      · obtain ⟨c₁, taken, passed⟩ := bind_eq_ok.mp passed
        obtain ⟨rfl, _⟩ := Prod.mk.inj (Except.ok.inj passed)
        obtain ⟨ohead, length⟩ := decodeCodeword_grew taken
        refine ⟨ohead.trans oheadEq, ?_⟩
        rw [← obufEq, ← strEq]
        exact length
  · rename_i b rest _
    have data : ∀ (c₁ : CompState) (ch : UInt8), c₁.decodeData ch rest = .ok (c', left) →
        Grew c₁ compMaxString c' := by
      intro c₁ ch decoded
      unfold decodeData at decoded
      obtain ⟨⟨c₂, taken⟩, passedChar, same⟩ := bind_eq_ok.mp decoded
      obtain ⟨rfl, _⟩ := Prod.mk.inj (Except.ok.inj same)
      obtain ⟨ohead, length⟩ := decodeChar_grew passedChar
      exact ⟨ohead, Nat.le_trans length (Nat.add_le_add_left (by decide) _)⟩
    have sent := (sendString_grew c).length
    unfold decodeTransparent at passed
    split at passed
    · simp only at passed
      split at passed
      · obtain ⟨rfl, _⟩ := Prod.mk.inj (Except.ok.inj passed)
        exact ⟨rfl, Nat.le_add_right_of_le sent⟩
      · split at passed
        · obtain ⟨ohead, length⟩ := data _ _ passed
          exact ⟨ohead, length⟩
        · split at passed
          · obtain ⟨rfl, _⟩ := Prod.mk.inj (Except.ok.inj passed)
            exact ⟨rfl, Nat.le_add_right_of_le sent⟩
          · cases passed
    · split at passed
      · obtain ⟨rfl, _⟩ := Prod.mk.inj (Except.ok.inj passed)
        exact ⟨rfl, Nat.le_add_right _ _⟩
      · exact data _ _ passed

theorem decodeLoop_grew (fuel : Nat) {c c' : CompState} {input : List UInt8}
    (decoded : decodeLoop fuel c input = .ok c') : Grew c (compMaxString * fuel) c' := by
  induction fuel generalizing c input with
  | zero =>
      cases input with
      | nil =>
          obtain rfl := Except.ok.inj decoded
          exact ⟨rfl, Nat.le_add_right _ _⟩
      | cons => cases decoded
  | succ fuel ih =>
      cases input with
      | nil =>
          obtain rfl := Except.ok.inj decoded
          exact ⟨rfl, Nat.le_add_right _ _⟩
      | cons b rest =>
          rw [decodeLoop] at decoded
          obtain ⟨⟨c₁, left⟩, passed, later⟩ := bind_eq_ok.mp decoded
          obtain ⟨ohead, length⟩ := decodePass_grew passed
          obtain ⟨ohead', length'⟩ := ih later
          refine ⟨ohead'.trans ohead, ?_⟩
          rw [Nat.mul_succ]
          omega

end CompState

end DModem.Comp
