/-
Encoder and decoder in step.

While the encoder takes characters, the decoder that has read everything sent so
far is always in one of a few positions relative to it.  In transparent mode it
lags by the pending string, and by one attempt when the next character has just
ended a string.  In compressed mode it lags by one dictionary update, which the
first character of the next string will make up for.
-/

import DModem.Comp.Link

namespace DModem.Comp

open View Dict

structure Even (e : CompState) (v : View) : Prop where
  strData : e.strData = []
  flushedLen : e.flushedLen = 0
  lastMatched : e.lastMatched = 0
  dict : e.dict = v.matcher.dict
  idle : v.matcher.lastMatched = 0
  closed : v.matcher.total = 0

/-- A string that starts with the pending characters, or with `x` if there are
none, is open in compressed mode: the encoder has already made the update that
the decoder will make when it gets the codeword. -/
structure Opened (e : CompState) (v : View) (x : UInt8) : Prop where
  flushedLen : e.flushedLen = 0
  idle : v.matcher.lastMatched = 0
  closed : v.matcher.total = 0
  grown : ∃ new,
    v.matcher.dict.grow v.matcher.updateAt ((e.strData ++ [x]).headD 0) = .ok (e.dict, new) ∧
      (new ≠ 0 → e.lastAdded = new ∧ e.lastMatched ≠ new)
  spells : (e.strData = [] ∧ e.lastMatched = 0) ∨
    (e.strData ≠ [] ∧ Spells v.matcher.dict e.lastMatched e.strData)

def Behind (e : CompState) (v : View) : Prop :=
  (e.mode = .transparent ∧ v.matcher.run e.strData = .ok e.matcher) ∨
    (e.mode = .compressed ∧ ∀ y, Opened e v y)

/-- Where the decoder stands when the characters of the list are still to be
encoded. -/
inductive Phase (e : CompState) (v : View) : List UInt8 → Prop where
  | text (input : List UInt8) (mode : e.mode = .transparent)
      (ran : v.matcher.run e.strData = .ok e.matcher) : Phase e v input
  | peek (x : UInt8) (rest : List UInt8) (mode : e.mode = .transparent)
      (strData : e.strData = []) (passed : v.matcher.pass x = .ok (e.matcher, false)) :
      Phase e v (x :: rest)
  | even (input : List UInt8) (mode : e.mode = .compressed) (even : Even e v)
      (same : e.updateAt = v.matcher.updateAt) : Phase e v input
  | stale (x : UInt8) (rest : List UInt8) (k : Nat) (even : Even e v) (settled : e.updateAt = 0)
      (added : e.mode = .transparent → e.lastAdded = v.matcher.lastAdded)
      (pending : v.matcher.updateAt ≠ 0) (found : k ≠ 0)
      (answer : v.matcher.dict.matchChar v.matcher.updateAt x = .ok k) : Phase e v (x :: rest)
  | opened (input : List UInt8) (mode : e.mode = .compressed) (nonempty : e.strData ≠ [])
      (settled : e.updateAt = 0) (opened : ∀ x, Opened e v x) : Phase e v input

/-- Where the decoder stands when the encoder has made its pending update and is
about to match `x`. -/
inductive Ahead (e : CompState) (v : View) (x : UInt8) : Prop where
  | text (m : Matcher) (mode : e.mode = .transparent) (ran : v.matcher.run e.strData = .ok m)
      (updated : m.update x = .ok e.matcher)
  | peek (m : Matcher) (mode : e.mode = .transparent) (strData : e.strData = [])
      (passed : v.matcher.pass x = .ok (m, false)) (updated : m.update x = .ok e.matcher)
  | opened (mode : e.mode = .compressed) (opened : Opened e v x)

/-- An encoder that has been given `text`, and the decoder behind it. -/
structure Paired (start : View) (sent text : List UInt8) (e : CompState) (v : View) : Prop
    extends Framed start sent e v where
  fits : e.maxString ≤ compMaxString
  maxEq : v.matcher.maxString = e.maxString
  okE : e.matcher.Ok
  okV : v.matcher.Ok
  sizeE : e.dict.dictSize ≤ 2048
  sizeV : v.matcher.dict.dictSize ≤ 2048
  said : v.text ++ e.strData = text

theorem CompState.mode_cases (c : CompState) : c.mode = .transparent ∨ c.mode = .compressed := by
  cases c.mode with
  | transparent => exact Or.inl rfl
  | compressed => exact Or.inr rfl

section Positions

variable {start v : View} {sent text : List UInt8} {e : CompState} {x : UInt8}

/-! ### The pending update -/

theorem Dict.Grown.live_old {d after : Dict} {above new e : Nat} {ch : UInt8}
    (outcome : Grown d above ch after new) (live : after.Live e) (old : new ≠ 0 → e ≠ new) :
    d.Live e := by
  cases outcome with
  | idle => exact live
  | known => exact live
  | fresh after _ _ positive _ spec =>
      rcases (spec.live_iff e).mp live with same | ⟨liveOld, _⟩
      · exact absurd same (old positive)
      · exact liveOld

theorem Dict.Grown.kept {d after : Dict} {above new e : Nat} {ch : UInt8}
    (outcome : Grown d above ch after new) (old : new ≠ 0 → e ≠ new) :
    (after.entry e).parent = (d.entry e).parent ∧ (after.entry e).ch = (d.entry e).ch := by
  cases outcome with
  | idle => exact ⟨rfl, rfl⟩
  | known => exact ⟨rfl, rfl⟩
  | fresh after _ _ positive _ spec => exact spec.kept e (old positive)

theorem Matcher.Ok.grown {m : Matcher} (ok : m.Ok) {ch : UInt8} {after : Dict} {new : Nat}
    (grew : m.dict.grow m.updateAt ch = .ok (after, new)) :
    Grown m.dict m.updateAt ch after new := by
  obtain ⟨after', new', grew', _, _, outcome⟩ := ok.update_spec ch
  rw [grew] at grew'
  obtain ⟨rfl, rfl⟩ : after = after' ∧ new = new' := by simpa using grew'
  exact outcome

/-- The update at the head of an iteration of `comp_encode`. -/
theorem Paired.begin {rest : List UInt8} (paired : Paired start sent text e v)
    (phase : Phase e v (x :: rest)) :
    ∃ e₁, e.updateDict x = .ok e₁ ∧ Paired start sent text e₁ v ∧ Ahead e₁ v x ∧
      e₁.updateAt = 0 ∧ e₁.lastMatched = e.lastMatched := by
  obtain ⟨after, new, grew, updated, ok₁, _⟩ := paired.okE.update_spec x
  have stepped := e.updateDict_eq x _ paired.okE updated
  have sizeEq := (paired.okE.update_sizes updated).2
  refine ⟨_, stepped, ?_, ?_, rfl, rfl⟩
  · refine ⟨paired.toFramed.congr rfl rfl rfl rfl rfl rfl rfl, paired.fits, paired.maxEq, ok₁,
      paired.okV, ?_, paired.sizeV, paired.said⟩
    exact Nat.le_trans (Nat.le_of_eq sizeEq) paired.sizeE
  · cases phase with
    | text _ mode ran => exact .text e.matcher mode ran updated
    | peek _ _ mode strData passed => exact .peek e.matcher mode strData passed updated
    | even _ mode even same =>
        refine .opened mode ⟨even.flushedLen, even.idle, even.closed, ⟨new, ?_, ?_⟩,
          Or.inl ⟨even.strData, even.lastMatched⟩⟩
        · rw [← even.dict, ← same]
          change e.dict.grow e.updateAt ((e.strData ++ [x]).headD 0) = _
          rw [even.strData]
          exact grew
        · intro positive
          refine ⟨if_neg positive, ?_⟩
          change e.lastMatched ≠ new
          rw [even.lastMatched]
          exact positive.symm
    | stale _ _ k even settled added pending found answer =>
        have unchanged : v.matcher.dict.grow v.matcher.updateAt x = .ok (v.matcher.dict, 0) := by
          unfold grow
          rw [if_neg pending, answer, ok_bind, if_neg found]
        have kept : (after, new) = (e.dict, 0) := by
          have idle : e.matcher.dict.grow e.matcher.updateAt x = .ok (e.dict, 0) := by
            change e.dict.grow e.updateAt x = .ok (e.dict, 0)
            rw [settled]
            rfl
          rw [grew] at idle
          exact Except.ok.inj idle
        obtain ⟨rfl, rfl⟩ : after = e.dict ∧ new = 0 := by simpa using kept
        rcases e.mode_cases with mode | mode
        · refine .text v.matcher mode ?_ ?_
          · change v.matcher.run e.strData = .ok v.matcher
            rw [even.strData]
            rfl
          · unfold Matcher.update
            rw [unchanged, ok_bind]
            simp only [if_true, CompState.matcher, Matcher.grownTo]
            rw [even.strData, even.flushedLen, even.lastMatched, even.dict, paired.maxEq,
              added mode, even.idle, even.closed]
            rfl
        · refine .opened mode ⟨even.flushedLen, even.idle, even.closed, ⟨0, ?_, ?_⟩,
            Or.inl ⟨even.strData, even.lastMatched⟩⟩
          · change v.matcher.dict.grow v.matcher.updateAt ((e.strData ++ [x]).headD 0) =
              .ok (e.dict, 0)
            rw [even.strData, even.dict]
            exact unchanged
          · intro positive
            exact absurd rfl positive
    | opened _ mode nonempty settled opened =>
        have same : e.matcher.grownTo after new = e.matcher := by
          rw [Matcher.update_settled settled] at updated
          exact (Except.ok.inj updated).symm
        have dictEq : after = e.dict := congrArg Matcher.dict same
        have addedEq : (e.matcher.grownTo after new).lastAdded = e.lastAdded :=
          congrArg Matcher.lastAdded same
        obtain ⟨flushedLen, idle, closed, ⟨new', grown, old⟩, spells⟩ := opened x
        refine .opened mode ⟨flushedLen, idle, closed, ⟨new', ?_, ?_⟩, spells⟩
        · rw [grown]
          simp only [Matcher.grownTo, dictEq]
        · intro positive
          exact ⟨addedEq.trans (old positive).1, (old positive).2⟩

/-! ### Sending the pending string -/

theorem Paired.live_lt (paired : Paired start sent text e v) {cw : Nat} (live : e.dict.Live cw) :
    cw < 2 ^ 11 := by
  obtain ⟨_, wf⟩ := paired.okE.wf
  exact Nat.lt_of_lt_of_le (wf.live_lt live) paired.sizeE

theorem Paired.room (paired : Paired start sent text e v) :
    11 ≤ v.matcher.dict.dictSize / 8 ∧ v.matcher.maxString ≤ v.matcher.dict.alloc := by
  obtain ⟨_, wf⟩ := paired.okV.wf
  have room := wf.room
  have allocated := wf.allocated
  simp only [firstFree, totalChars, firstEntry] at room
  omega

theorem Paired.takes (paired : Paired start sent text e v) (mode : e.mode = .compressed)
    (closed : v.matcher.total = 0) {cw new : Nat} {chars : List UInt8}
    (grown : v.matcher.dict.grow v.matcher.updateAt (chars.headD 0) = .ok (e.dict, new))
    (old : new ≠ 0 → cw ≠ new) (live : e.dict.Live cw) (spells : Spells v.matcher.dict cw chars)
    (short : chars.length ≤ e.maxString) (width : Nat) :
    Takes { v with cwSize := width } cw
      { v with
        cwSize := width
        escapeChar := cycleEscape v.escapeChar chars
        matcher :=
          { v.matcher with
            dict := e.dict
            updateAt := if chars.length = e.maxString then 0 else cw }
        text := v.text ++ chars } := by
  obtain ⟨_, wfV⟩ := paired.okV.wf
  obtain ⟨_, wfE⟩ := paired.okE.wf
  have liveV := (paired.okV.grown grown).live_old live old
  rw [← paired.maxEq] at short
  have fits : v.matcher.maxString ≤ compMaxString := by
    rw [paired.maxEq]
    exact paired.fits
  have takes := @takes_string { v with cwSize := width } cw chars e.dict new
    (paired.mode.trans mode) paired.blank closed fits paired.room.2 liveV
    (wfV.live_ne_free liveV) spells short grown (wfE.live_ne_free live)
  rw [paired.maxEq] at takes
  exact takes

/-- Sending the string that is open when `x` is offered. -/
theorem Paired.send (paired : Paired start sent text e v) (ahead : Ahead e v x)
    (pending : e.lastMatched ≠ 0) (updateAt lastAdded : Nat) :
    ∃ e' v',
      ({ e with updateAt := updateAt, lastAdded := lastAdded } : CompState).sendData
        e.lastMatched = .ok e' ∧
      CompState.Emptied { e with updateAt := updateAt, lastAdded := lastAdded } e' ∧
      Framed start sent e' v' ∧ v'.text = text ∧
      ((e.mode = .transparent ∧ v'.matcher.update x = .ok e.matcher ∧
          v.matcher.run e.strData = .ok v'.matcher) ∨
        (e.mode = .compressed ∧ v.matcher.lastMatched = 0 ∧ v.matcher.total = 0 ∧
          v'.matcher = { v.matcher with dict := e.dict, updateAt := e.lastMatched })) := by
  have framed : Framed start sent { e with updateAt := updateAt, lastAdded := lastAdded } v :=
    paired.toFramed.congr rfl rfl rfl rfl rfl rfl rfl
  have matched : e.dict.Live e.lastMatched ∧ e.strData.length < e.maxString := by
    have total := paired.okE.total_lt
    change e.flushedLen + e.strData.length < e.maxString at total
    rcases paired.okE.matched with ⟨idle, _⟩ | ⟨live, _⟩
    · exact absurd idle pending
    · exact ⟨live, by omega⟩
  cases ahead with
  | text m mode ran updated =>
      have fits : v.matcher.maxString ≤ compMaxString := by
        rw [paired.maxEq]
        exact paired.fits
      obtain ⟨e', v', sentEq, emptied, framed', matcherEq, textEq⟩ :=
        framed.sendData_transparent e.lastMatched mode paired.okV fits ran
      refine ⟨e', v', sentEq, emptied, framed', textEq.trans paired.said, Or.inl ⟨mode, ?_, ?_⟩⟩
      · rw [matcherEq]
        exact updated
      · rw [matcherEq]
        exact ran
  | peek m mode strData passed updated =>
      obtain ⟨_, m₂, _, _, _, passed', attempt, _, _⟩ := paired.okV.pass_spec x
      rw [passed] at passed'
      obtain ⟨rfl, rfl⟩ : m = m₂ ∧ _ = _ := by simpa using passed'
      have idle := attempt.idle_of_not_taken
      have same : e.lastMatched = m.lastMatched := congrArg Matcher.lastMatched
        (Matcher.update_eq updated)
      exact absurd (same.trans idle) pending
  | opened mode opened =>
      obtain ⟨_, idle, closed, ⟨new, grown, old⟩, spells⟩ := opened
      rcases spells with ⟨_, none⟩ | ⟨nonempty, spells⟩
      · exact absurd none pending
      · have headEq : (e.strData ++ [x]).headD 0 = e.strData.headD 0 := by
          cases strData : e.strData with
          | nil => exact absurd strData nonempty
          | cons => rfl
        rw [headEq] at grown
        have takes := paired.takes mode closed grown (fun positive => (old positive).2) matched.1
          spells (Nat.le_of_lt matched.2)
        rw [if_neg (Nat.ne_of_lt matched.2)] at takes
        obtain ⟨e', v', sentEq, emptied, framed', matcherEq, textEq⟩ :=
          framed.sendData_compressed e.lastMatched mode (paired.live_lt matched.1) paired.room.1 _
            takes
        exact ⟨e', v', sentEq, emptied, framed', textEq.trans paired.said,
          Or.inr ⟨mode, idle, closed, matcherEq⟩⟩

/-! ### Matching -/

/-- Where an iteration of `comp_encode` leaves the two sides. -/
structure Rested (start : View) (sent text : List UInt8) (e : CompState) (v : View)
    (left : List UInt8) : Prop where
  paired : Paired start sent text e v
  phase : Phase e v left
  settled : left = [] → e.updateAt = 0
  peeked : e.mode = .transparent → e.updateAt ≠ 0 →
    ∃ x rest, left = x :: rest ∧ e.strData = [] ∧ v.matcher.pass x = .ok (e.matcher, false)

/-- The string ends before `x`. -/
theorem Paired.stop (paired : Paired start sent text e v) (ahead : Ahead e v x)
    (pending : e.lastMatched ≠ 0) (updateAt lastAdded : Nat)
    (advanced : e.matcher.advance x =
      .ok ({ e.matcher with
        updateAt := updateAt, lastAdded := lastAdded, lastMatched := 0, total := 0 }, false))
    (ok' : Matcher.Ok { e.matcher with
        updateAt := updateAt, lastAdded := lastAdded, lastMatched := 0, total := 0 })
    (choice : updateAt = e.lastMatched ∨
      (updateAt = 0 ∧ ∃ k, k ≠ 0 ∧ e.dict.matchChar e.lastMatched x = .ok k))
    (rest : List UInt8) :
    ∃ e' v',
      ({ e with updateAt := updateAt, lastAdded := lastAdded } : CompState).sendData
        e.lastMatched = .ok e' ∧
      Rested start sent text { e' with lastMatched := 0 } v' (x :: rest) := by
  obtain ⟨e', v', sentEq, emptied, framed, textEq, position⟩ :=
    paired.send ahead pending updateAt lastAdded
  have matcherEq : ({ e' with lastMatched := 0 } : CompState).matcher =
      { e.matcher with
        updateAt := updateAt, lastAdded := lastAdded, lastMatched := 0, total := 0 } := by
    have sentMatcher := emptied.matcher_eq
    exact congrArg (fun m : Matcher => { m with lastMatched := 0 }) sentMatcher
  have framed' : Framed start sent { e' with lastMatched := 0 } v' :=
    framed.congr rfl rfl rfl rfl rfl rfl rfl
  have maxE : e'.maxString = e.maxString := emptied.maxString
  have dictE : e'.dict = e.dict := emptied.dict
  have modeE : e'.mode = e.mode := emptied.mode
  refine ⟨e', v', sentEq, ?_⟩
  rcases position with ⟨mode, updated, ran⟩ | ⟨mode, idle, closed, viewEq⟩
  · obtain ⟨_, ran', okV⟩ := paired.okV.run_spec e.strData
    rw [ran] at ran'
    obtain rfl := Except.ok.inj ran'
    obtain ⟨maxV, sizeV⟩ := paired.okV.run_sizes ran
    have passed : v'.matcher.pass x =
        .ok (({ e' with lastMatched := 0 } : CompState).matcher, false) := by
      unfold Matcher.pass
      rw [updated, ok_bind, advanced, matcherEq]
    constructor
    · refine ⟨framed', ?_, ?_, ?_, okV, ?_, ?_, ?_⟩
      · change e'.maxString ≤ compMaxString
        rw [maxE]
        exact paired.fits
      · change _ = e'.maxString
        rw [maxV, maxE, paired.maxEq]
      · rw [matcherEq]
        exact ok'
      · change e'.dict.dictSize ≤ 2048
        rw [dictE]
        exact paired.sizeE
      · rw [sizeV]
        exact paired.sizeV
      · change v'.text ++ e'.strData = text
        rw [emptied.strData, textEq, List.append_nil]
    · exact .peek x rest (modeE.trans mode) emptied.strData passed
    · intro empty
      cases empty
    · intro _ _
      exact ⟨x, rest, rfl, emptied.strData, passed⟩
  · have live : e.dict.Live e.lastMatched ∧
        ∃ chars, Spells e.dict e.lastMatched chars ∧ chars.length < e.maxString := by
      rcases paired.okE.matched with ⟨none, _⟩ | ⟨live, _, short, chars, spells, length⟩
      · exact absurd none pending
      · refine ⟨live, chars, spells, ?_⟩
        rw [length]
        exact short
    have even : Even { e' with lastMatched := 0 } v' := by
      refine ⟨emptied.strData, emptied.flushedLen, rfl, ?_, ?_, ?_⟩
      · rw [viewEq]
        exact dictE
      · rw [viewEq]
        exact idle
      · rw [viewEq]
        exact closed
    have updateE : e'.updateAt = updateAt := emptied.updateAt
    have compressed : e'.mode = .compressed := modeE.trans mode
    constructor
    · refine ⟨framed', ?_, ?_, ?_, ?_, ?_, ?_, ?_⟩
      · change e'.maxString ≤ compMaxString
        rw [maxE]
        exact paired.fits
      · change _ = e'.maxString
        rw [viewEq, maxE]
        exact paired.maxEq
      · rw [matcherEq]
        exact ok'
      · rw [viewEq]
        refine ⟨paired.okV.maxString_gt, ?_, Or.inr ⟨live.1, ?_⟩, Or.inl ⟨idle, closed⟩,
          paired.okV.added_ge⟩
        · have wf := paired.okE.wf
          simp only [paired.maxEq]
          exact wf
        · simp only [paired.maxEq]
          exact live.2
      · change e'.dict.dictSize ≤ 2048
        rw [dictE]
        exact paired.sizeE
      · rw [viewEq]
        exact paired.sizeE
      · change v'.text ++ e'.strData = text
        rw [emptied.strData, textEq, List.append_nil]
    · rcases choice with same | ⟨zero, k, found, answer⟩
      · refine .even _ compressed even ?_
        rw [viewEq]
        exact updateE.trans same
      · refine .stale x rest k even (updateE.trans zero) ?_ ?_ found ?_
        · intro transparent
          exact absurd (compressed.symm.trans transparent) (by decide)
        · rw [viewEq]
          exact pending
        · rw [viewEq]
          exact answer
    · intro empty
      cases empty
    · intro transparent
      exact absurd (compressed.symm.trans transparent) (by decide)

/-- The encoder's state after `x` joined the pending string. -/
def CompState.joined (e : CompState) (cw : Nat) (x : UInt8) : CompState :=
  { e with
    lastMatched := cw
    strData := e.strData ++ [x] }

theorem Ahead.run_joined (ahead : Ahead e v x)
    (mode : e.mode = .transparent) {m : Matcher} (advanced : e.matcher.advance x = .ok (m, true)) :
    v.matcher.run (e.strData ++ [x]) = .ok m := by
  cases ahead with
  | text m₁ _ ran updated =>
      rw [Matcher.run_append, ran, ok_bind]
      simp only [Matcher.run, Matcher.step, Matcher.pass, updated, ok_bind, advanced, if_true]
  | peek m₁ _ strData passed updated =>
      have passed₁ : m₁.pass x = .ok (m, true) := by
        unfold Matcher.pass
        rw [updated, ok_bind, advanced]
      rw [strData]
      simp only [List.nil_append, Matcher.run, Matcher.step, passed, passed₁, ok_bind,
        Bool.false_eq_true, if_false]
  | opened compressed _ => exact absurd (mode.symm.trans compressed) (by decide)

theorem Opened.extend (paired : Paired start sent text e v) (opened : Opened e v x) {cw : Nat}
    (live : e.dict.Live cw) (fresh : cw ≠ e.lastAdded)
    (answer : e.dict.matchChar e.lastMatched x = .ok cw) :
    ∃ new,
      v.matcher.dict.grow v.matcher.updateAt ((e.strData ++ [x]).headD 0) = .ok (e.dict, new) ∧
      (new ≠ 0 → e.lastAdded = new ∧ cw ≠ new) ∧ Spells v.matcher.dict cw (e.strData ++ [x]) := by
  obtain ⟨_, _, _, ⟨new, grown, old⟩, spells⟩ := opened
  have oldCw : new ≠ 0 → cw ≠ new := by
    intro positive
    rw [← (old positive).1]
    exact fresh
  refine ⟨new, grown, fun positive => ⟨(old positive).1, oldCw positive⟩, ?_⟩
  obtain ⟨_, wfV⟩ := paired.okV.wf
  have outcome := paired.okV.grown grown
  have liveV := outcome.live_old live oldCw
  obtain ⟨parentEq, chEq⟩ := outcome.kept oldCw
  have within : cw < v.matcher.dict.alloc :=
    Nat.lt_of_lt_of_le (wfV.live_lt liveV) wfV.allocated
  rcases paired.okE.next_spells live answer with ⟨none, _⟩ | ⟨lastNe, parent, ch, _⟩
  · rcases spells with ⟨empty, _⟩ | ⟨_, spells⟩
    · rw [show e.lastMatched = 0 from none, matchChar_zero] at answer
      have cwEq : x.toNat + firstEntry = cw := Except.ok.inj answer
      rw [empty, ← cwEq]
      exact wfV.char_spells x
    · exact absurd none spells.ne_zero
  · rcases spells with ⟨_, none⟩ | ⟨_, spells⟩
    · exact absurd none lastNe
    · have last : (v.matcher.dict.entry cw).ch = x := chEq.symm.trans ch
      have above : (v.matcher.dict.entry cw).parent = e.lastMatched := parentEq.symm.trans parent
      have longer := Spells.snoc (Nat.pos_iff_ne_zero.mp live.pos) within (by rw [above]; exact spells)
      rwa [last] at longer

/-- `x` joins the pending string. -/
theorem Paired.join (paired : Paired start sent text e v) (ahead : Ahead e v x) {cw : Nat}
    (live : e.dict.Live cw) (fresh : cw ≠ e.lastAdded)
    (answer : e.dict.matchChar e.lastMatched x = .ok cw)
    (advanced : e.matcher.advance x = .ok ((e.joined cw x).matcher, true))
    (ok' : (e.joined cw x).matcher.Ok) :
    Paired start sent (text ++ [x]) (e.joined cw x) v ∧
      Behind (e.joined cw x) v := by
  constructor
  · refine ⟨paired.toFramed.congr rfl rfl rfl rfl rfl rfl rfl, paired.fits, paired.maxEq, ok',
      paired.okV, paired.sizeE, paired.sizeV, ?_⟩
    rw [← paired.said, List.append_assoc]
    rfl
  · rcases e.mode_cases with mode | mode
    · exact Or.inl ⟨mode, ahead.run_joined mode advanced⟩
    · refine Or.inr ⟨mode, ?_⟩
      intro y
      cases ahead with
      | text _ transparent => exact absurd (mode.symm.trans transparent) (by decide)
      | peek _ transparent => exact absurd (mode.symm.trans transparent) (by decide)
      | opened _ opened =>
          obtain ⟨new, grown, old, spells⟩ := opened.extend paired live fresh answer
          refine ⟨opened.flushedLen, opened.idle, opened.closed, ⟨new, ?_, old⟩,
            Or.inr ⟨by simp [CompState.joined], spells⟩⟩
          have headEq : ((e.strData ++ [x]) ++ [y]).headD 0 = (e.strData ++ [x]).headD 0 := by
            cases e.strData <;> rfl
          change v.matcher.dict.grow _ (((e.strData ++ [x]) ++ [y]).headD 0) = _
          rw [headEq]
          exact grown

theorem Paired.joined_rested (paired : Paired start sent text e v) (settled : e.updateAt = 0)
    (nonempty : e.strData ≠ [])
    (behind : Behind e v) (left : List UInt8) :
    Rested start sent text e v left := by
  refine ⟨paired, ?_, fun _ => settled, fun _ pending => absurd settled pending⟩
  rcases behind with ⟨mode, ran⟩ | ⟨mode, opened⟩
  · exact .text _ mode ran
  · exact .opened _ mode nonempty settled opened

theorem Paired.full (paired : Paired start sent text e v) (ahead : Ahead e v x)
    (settled : e.updateAt = 0) {cw : Nat} (live : e.dict.Live cw) (fresh : cw ≠ e.lastAdded)
    (answer : e.dict.matchChar e.lastMatched x = .ok cw)
    (reached : e.flushedLen + e.strData.length + 1 = e.maxString)
    (advanced : e.matcher.advance x =
      .ok ({ e.matcher with lastMatched := 0, total := 0 }, true))
    (ok' : Matcher.Ok { e.matcher with lastMatched := 0, total := 0 }) (rest : List UInt8) :
    ∃ e' v', (e.joined cw x).sendData cw = .ok e' ∧
      Rested start sent (text ++ [x]) { e' with lastMatched := 0 } v' rest := by
  have framed : Framed start sent (e.joined cw x) v :=
    paired.toFramed.congr rfl rfl rfl rfl rfl rfl rfl
  have fits : v.matcher.maxString ≤ compMaxString := by
    rw [paired.maxEq]
    exact paired.fits
  have said : v.text ++ (e.strData ++ [x]) = text ++ [x] := by
    rw [← paired.said, List.append_assoc]
  have matcherOf : ∀ e' : CompState, CompState.Emptied (e.joined cw x) e' →
      ({ e' with lastMatched := 0 } : CompState).matcher =
        { e.matcher with lastMatched := 0, total := 0 } := by
    intro e' emptied
    exact congrArg (fun m : Matcher => { m with lastMatched := 0 }) emptied.matcher_eq
  -- everything but the position of the decoder is the same in both modes
  have finish : ∀ (e' : CompState) (v' : View), CompState.Emptied (e.joined cw x) e' →
      Framed start sent e' v' → v'.text = v.text ++ (e.strData ++ [x]) →
      v'.matcher.maxString = e.maxString → v'.matcher.Ok →
      v'.matcher.dict.dictSize ≤ 2048 →
      Phase { e' with lastMatched := 0 } v' rest →
      Rested start sent (text ++ [x]) { e' with lastMatched := 0 } v' rest := by
    intro e' v' emptied framed' textEq maxV okV sizeV phase
    have updateE : e'.updateAt = 0 := emptied.updateAt.trans settled
    refine ⟨⟨framed'.congr rfl rfl rfl rfl rfl rfl rfl, ?_, ?_, ?_, okV, ?_, sizeV, ?_⟩, phase,
      fun _ => updateE, fun _ pending => absurd updateE pending⟩
    · change e'.maxString ≤ compMaxString
      rw [emptied.maxString]
      exact paired.fits
    · change _ = e'.maxString
      rw [maxV, emptied.maxString]
      rfl
    · rw [matcherOf e' emptied]
      exact ok'
    · change e'.dict.dictSize ≤ 2048
      rw [emptied.dict]
      exact paired.sizeE
    · change v'.text ++ e'.strData = _
      rw [emptied.strData, textEq, List.append_nil, said]
  rcases e.mode_cases with mode | mode
  · have ran := ahead.run_joined mode advanced
    obtain ⟨e', v', sentEq, emptied, framed', viewEq, textEq⟩ :=
      framed.sendData_transparent cw mode paired.okV fits ran
    refine ⟨e', v', sentEq, finish e' v' emptied framed' textEq ?_ ?_ ?_ ?_⟩
    · rw [viewEq]
      rfl
    · rw [viewEq]
      exact ok'
    · rw [viewEq]
      exact paired.sizeE
    · refine .text _ (emptied.mode.trans mode) ?_
      have stands : v'.matcher.run e'.strData = .ok v'.matcher := by
        rw [emptied.strData]
        rfl
      exact stands.trans (congrArg Except.ok (viewEq.trans (matcherOf e' emptied).symm))
  · cases ahead with
    | text _ transparent => exact absurd (mode.symm.trans transparent) (by decide)
    | peek _ transparent => exact absurd (mode.symm.trans transparent) (by decide)
    | opened _ opened =>
        obtain ⟨new, grown, old, spells⟩ := opened.extend paired live fresh answer
        have unflushed := opened.flushedLen
        have length : (e.strData ++ [x]).length = e.maxString := by
          rw [List.length_append, List.length_singleton]
          omega
        have takes := paired.takes mode opened.closed grown (fun positive => (old positive).2) live
          spells (Nat.le_of_eq length)
        rw [if_pos length] at takes
        obtain ⟨e', v', sentEq, emptied, framed', viewEq, textEq⟩ :=
          framed.sendData_compressed cw mode (paired.live_lt live) paired.room.1 _ takes
        refine ⟨e', v', sentEq, finish e' v' emptied framed' textEq ?_ ?_ ?_ ?_⟩
        · rw [viewEq]
          exact paired.maxEq
        · rw [viewEq]
          refine ⟨paired.okV.maxString_gt, ?_, Or.inl rfl, Or.inl ⟨opened.idle, opened.closed⟩,
            paired.okV.added_ge⟩
          have wf := paired.okE.wf
          simp only [paired.maxEq]
          exact wf
        · rw [viewEq]
          exact paired.sizeE
        · refine .even _ (emptied.mode.trans mode) ⟨emptied.strData, emptied.flushedLen, rfl, ?_, ?_,
            ?_⟩ ?_
          · rw [viewEq]
            exact emptied.dict
          · rw [viewEq]
            exact opened.idle
          · rw [viewEq]
            exact opened.closed
          · rw [viewEq]
            exact emptied.updateAt.trans settled

theorem CompState.joined_matcher (e : CompState) (cw : Nat) (x : UInt8) :
    (e.joined cw x).matcher =
      { e.matcher with lastMatched := cw, total := e.matcher.total + 1 } := by
  simp [CompState.joined, CompState.matcher, Nat.add_assoc]

theorem Paired.pushChar_joined (paired : Paired start sent text e v) (cw : Nat) (x : UInt8) :
    ({ e with lastMatched := cw } : CompState).pushChar x = .ok (e.joined cw x) := by
  have short := paired.okE.total_lt
  change e.flushedLen + e.strData.length < e.maxString at short
  have fits := paired.fits
  unfold CompState.pushChar
  rw [if_pos (show e.strData.length < compMaxString by omega)]
  rfl

theorem Behind.ahead (behind : Behind e v)
    (settled : e.updateAt = 0) (y : UInt8) : Ahead e v y := by
  rcases behind with ⟨mode, ran⟩ | ⟨mode, opened⟩
  · exact .text e.matcher mode ran (Matcher.update_settled settled y)
  · exact .opened mode (opened y)

/-- What offering `x` to the open string does. -/
theorem Paired.offer (rest : List UInt8) (paired : Paired start sent text e v)
    (ahead : Ahead e v x) (settled : e.updateAt = 0) :
    (∃ e' v', e.matchString (x :: rest) = .ok (e', x :: rest) ∧
      Rested start sent text e' v' (x :: rest) ∧ e.lastMatched ≠ 0 ∧ e'.lastMatched = 0) ∨
    (∃ e' v', e.matchString (x :: rest) = .ok (e', rest) ∧
      Rested start sent (text ++ [x]) e' v' rest) ∨
    (∃ e', e.matchString (x :: rest) = e'.matchString rest ∧
      Paired start sent (text ++ [x]) e' v ∧ e'.updateAt = 0 ∧ e'.strData ≠ [] ∧
      Behind e' v) := by
  obtain ⟨m', taken, advanced, attempt, ok'⟩ := paired.okE.advance_spec x settled
  cases attempt with
  | mismatch live answer =>
      have pending : e.lastMatched ≠ 0 := Nat.pos_iff_ne_zero.mp live.pos
      obtain ⟨e', v', sentEq, rested⟩ := paired.stop ahead pending e.lastMatched e.lastAdded
        advanced ok' (Or.inl rfl) rest
      refine Or.inl ⟨_, v', ?_, rested, pending, rfl⟩
      unfold CompState.matchString
      rw [show e.dict.matchChar e.lastMatched x = .ok 0 from answer, ok_bind, if_pos rfl]
      exact congrArg (· >>= fun c => Except.ok
        (({ c with lastMatched := 0 } : CompState), x :: rest)) sentEq
  | reserved live nonzero answer =>
      have pending : e.lastMatched ≠ 0 := Nat.pos_iff_ne_zero.mp live.pos
      have answer' : e.dict.matchChar e.lastMatched x = .ok e.lastAdded := answer
      have addedNe : e.lastAdded ≠ 0 := nonzero
      have advanced' : e.matcher.advance x =
          .ok ({ e.matcher with
            updateAt := 0, lastAdded := 0, lastMatched := 0, total := 0 }, false) := by
        rw [advanced]
        have settled' : e.matcher.updateAt = 0 := settled
        rw [settled']
      have okStop : Matcher.Ok { e.matcher with
          updateAt := 0, lastAdded := 0, lastMatched := 0, total := 0 } := by
        have settled' : e.matcher.updateAt = 0 := settled
        rw [settled'] at ok'
        exact ok'
      obtain ⟨e', v', sentEq, rested⟩ := paired.stop ahead pending 0 0 advanced' okStop
        (Or.inr ⟨rfl, e.lastAdded, nonzero, answer'⟩) rest
      refine Or.inl ⟨_, v', ?_, rested, pending, rfl⟩
      have settledRecord : ({ e with updateAt := 0, lastAdded := 0 } : CompState) =
          { e with lastAdded := 0 } := by
        rw [← settled]
      rw [settledRecord] at sentEq
      unfold CompState.matchString
      rw [answer', ok_bind, if_neg addedNe, if_pos rfl]
      exact congrArg (· >>= fun c => Except.ok
        (({ c with lastMatched := 0 } : CompState), x :: rest)) sentEq
  | longest cw live fresh answer full =>
      have cwNonzero := Nat.pos_iff_ne_zero.mp live.pos
      have answer' : e.dict.matchChar e.lastMatched x = .ok cw := answer
      have freshE : cw ≠ e.lastAdded := fresh
      obtain ⟨e', v', sentEq, rested⟩ := paired.full ahead settled live fresh answer' full
        advanced ok' rest
      refine Or.inr (Or.inl ⟨_, v', ?_, rested⟩)
      unfold CompState.matchString
      have reached : (e.joined cw x).strData.length + (e.joined cw x).flushedLen =
          (e.joined cw x).maxString := by
        change (e.strData ++ [x]).length + e.flushedLen = e.maxString
        rw [List.length_append, List.length_singleton]
        change e.flushedLen + e.strData.length + 1 = e.maxString at full
        omega
      rw [answer', ok_bind, if_neg cwNonzero, if_neg freshE, paired.pushChar_joined, ok_bind,
        if_pos reached]
      exact congrArg (· >>= fun c => Except.ok
        (({ c with lastMatched := 0 } : CompState), rest)) sentEq
  | taken cw live fresh answer more =>
      have cwNonzero := Nat.pos_iff_ne_zero.mp live.pos
      have answer' : e.dict.matchChar e.lastMatched x = .ok cw := answer
      have freshE : cw ≠ e.lastAdded := fresh
      have matcherEq := e.joined_matcher cw x
      rw [← matcherEq] at advanced ok'
      obtain ⟨paired', behind⟩ := paired.join ahead live fresh answer' advanced ok'
      refine Or.inr (Or.inr ⟨e.joined cw x, ?_, paired', settled, by simp [CompState.joined],
        behind⟩)
      have unfinished : (e.joined cw x).strData.length + (e.joined cw x).flushedLen ≠
          (e.joined cw x).maxString := by
        change (e.strData ++ [x]).length + e.flushedLen ≠ e.maxString
        rw [List.length_append, List.length_singleton]
        change e.flushedLen + e.strData.length + 1 < e.maxString at more
        omega
      rw [CompState.matchString, answer', ok_bind, if_neg cwNonzero, if_neg freshE,
        paired.pushChar_joined, ok_bind, if_neg unfinished]

/-- The inner loop of `comp_encode`. -/
theorem Paired.matchString_spec (rest : List UInt8) (paired : Paired start sent text e v)
    (ahead : Ahead e v x) (settled : e.updateAt = 0) :
    ∃ e' v' used left, e.matchString (x :: rest) = .ok (e', left) ∧ x :: rest = used ++ left ∧
      Rested start sent (text ++ used) e' v' left ∧
      (used = [] → e.lastMatched ≠ 0 ∧ e'.lastMatched = 0) := by
  induction rest generalizing e text x with
  | nil =>
      rcases paired.offer [] ahead settled with ⟨e', v', matched, rested, ended⟩ |
        ⟨e', v', matched, rested⟩ | ⟨e', matched, paired', settled', nonempty, behind⟩
      · refine ⟨e', v', [], [x], matched, rfl, ?_, fun _ => ended⟩
        rwa [List.append_nil]
      · exact ⟨e', v', [x], [], matched, rfl, rested, by simp⟩
      · exact ⟨e', v, [x], [], matched, rfl,
          paired'.joined_rested settled' nonempty behind [], by simp⟩
  | cons y rest ih =>
      rcases paired.offer (y :: rest) ahead settled with ⟨e', v', matched, rested, ended⟩ |
        ⟨e', v', matched, rested⟩ | ⟨e', matched, paired', settled', nonempty, behind⟩
      · refine ⟨e', v', [], x :: y :: rest, matched, rfl, ?_, fun _ => ended⟩
        rwa [List.append_nil]
      · exact ⟨e', v', [x], y :: rest, matched, rfl, rested, by simp⟩
      · obtain ⟨e₂, v₂, used, left, matched₂, cut, rested, _⟩ :=
          ih paired' (behind.ahead settled' y) settled'
        refine ⟨e₂, v₂, x :: used, left, matched.trans matched₂, by rw [cut]; rfl, ?_, by simp⟩
        rwa [List.append_assoc] at rested

end Positions

end DModem.Comp
