/-
Mode switches, flushes and whole calls of the encoder.

Each of them keeps the two sides paired, so that a run of the encoder, however it
is cut into calls, produces a stream that the decoder can follow.
-/

import DModem.Comp.Sync

namespace DModem.Comp

open View Dict

section Switching

variable {start v : View} {sent text left : List UInt8} {e : CompState}

/-- The update points of two idle sides: equal, or the decoder's is one that the
next character will not extend. -/
def Aimed (e : CompState) (d : Dict) (updateAt : Nat) (left : List UInt8) : Prop :=
  e.updateAt = updateAt ∨
    (e.updateAt = 0 ∧ updateAt ≠ 0 ∧
      ∃ x rest k, left = x :: rest ∧ k ≠ 0 ∧ d.matchChar updateAt x = .ok k)

theorem Paired.open_cases (paired : Paired start sent text e v) :
    (e.lastMatched = 0 ∧ e.strData = [] ∧ e.flushedLen = 0) ∨
      (e.lastMatched ≠ 0 ∧ e.dict.Live e.lastMatched ∧ e.updateAt = 0 ∧
        e.dict.Growable e.maxString e.lastMatched) := by
  rcases paired.okE.matched with ⟨idle, total⟩ | ⟨live, settled, short, chars, spells, length⟩
  · have sum : e.flushedLen + e.strData.length = 0 := total
    exact Or.inl ⟨idle, List.eq_nil_of_length_eq_zero (by omega), by omega⟩
  · refine Or.inr ⟨Nat.pos_iff_ne_zero.mp live.pos, live, settled, Or.inr ⟨live, chars, spells, ?_⟩⟩
    rw [length]
    exact short

theorem sendPending_idle (idle : e.lastMatched = 0) : e.sendPending = .ok e := by
  unfold CompState.sendPending
  rw [if_neg (not_not_intro idle)]

/-- The encoder `e'` that has sent a string, with that string as update point. -/
def CompState.pointedAt (e' : CompState) (updateAt : Nat) : CompState :=
  { e' with
    updateAt := updateAt
    lastMatched := 0 }

theorem sendPending_open {e' : CompState} (pending : e.lastMatched ≠ 0)
    (sentEq : ({ e with updateAt := e.lastMatched } : CompState).sendData e.lastMatched =
      .ok e') (point : e'.updateAt = e.lastMatched) :
    e.sendPending = .ok (e'.pointedAt e.lastMatched) := by
  unfold CompState.sendPending CompState.pointedAt
  rw [if_pos pending, sentEq, ok_bind, ← point]

structure Sent (start : View) (sent text : List UInt8) (e e₁ : CompState) (v₁ : View) : Prop where
  paired : Paired start sent text e₁ v₁
  mode : e₁.mode = e.mode
  strData : e₁.strData = []
  flushedLen : e₁.flushedLen = 0
  lastMatched : e₁.lastMatched = 0
  dict : e₁.dict = v₁.matcher.dict

theorem Paired.send_open (paired : Paired start sent text e v) (behind : Behind e v)
    (pending : e.lastMatched ≠ 0) (updateAt : Nat) :
    ∃ e' v₁,
      ({ e with updateAt := updateAt } : CompState).sendData e.lastMatched = .ok e' ∧
      CompState.Emptied { e with updateAt := updateAt } e' ∧
      Framed start sent e' v₁ ∧ v₁.text = text ∧
      Sent start sent text e (e'.pointedAt e.lastMatched) v₁ ∧
      ((e.mode = .transparent ∧ v₁.matcher = e.matcher) ∨
        (e.mode = .compressed ∧ v₁.matcher.updateAt = e.lastMatched ∧
          v₁.matcher.lastMatched = 0 ∧ v₁.matcher.total = 0)) := by
  rcases paired.open_cases with ⟨idle, _⟩ | ⟨_, live, settled, growable⟩
  · exact absurd idle pending
  have ahead := behind.ahead settled 0
  obtain ⟨e', v', sentEq, emptied, framed, textEq, position⟩ :=
    paired.send ahead pending updateAt e.lastAdded
  have matcherEq : (e'.pointedAt e.lastMatched).matcher =
      { e.matcher with updateAt := e.lastMatched, lastMatched := 0, total := 0 } :=
    congrArg (fun m : Matcher => { m with updateAt := e.lastMatched, lastMatched := 0 })
      emptied.matcher_eq
  have okE : (e'.pointedAt e.lastMatched).matcher.Ok := by
    rw [matcherEq]
    exact ⟨paired.okE.maxString_gt, paired.okE.wf, growable, Or.inl ⟨rfl, rfl⟩,
      paired.okE.added_ge⟩
  have viewFacts : v'.matcher.Ok ∧ v'.matcher.maxString = e.maxString ∧
      v'.matcher.dict = e.dict ∧
      ((e.mode = .transparent ∧ v'.matcher = e.matcher) ∨
        (e.mode = .compressed ∧ v'.matcher.updateAt = e.lastMatched ∧
          v'.matcher.lastMatched = 0 ∧ v'.matcher.total = 0)) := by
    rcases position with ⟨mode, _, ran⟩ | ⟨mode, idle, closed, viewEq⟩
    · rcases behind with ⟨_, ran'⟩ | ⟨compressed, _⟩
      · rw [ran] at ran'
        have same : v'.matcher = e.matcher := Except.ok.inj ran'
        rw [same]
        exact ⟨paired.okE, rfl, rfl, Or.inl ⟨mode, rfl⟩⟩
      · exact absurd (mode.symm.trans compressed) (by decide)
    · rw [viewEq]
      refine ⟨⟨paired.okV.maxString_gt, ?_, ?_, Or.inl ⟨idle, closed⟩, paired.okV.added_ge⟩,
        paired.maxEq, rfl, Or.inr ⟨mode, rfl, idle, closed⟩⟩
      · have wf := paired.okE.wf
        simp only [paired.maxEq]
        exact wf
      · simp only [paired.maxEq]
        exact growable
  obtain ⟨okV, maxV, dictV, standing⟩ := viewFacts
  refine ⟨e', v', sentEq, emptied, framed, textEq, ?_, standing⟩
  refine ⟨⟨framed.congr rfl rfl rfl rfl rfl rfl rfl, ?_, ?_, okE, okV, ?_, ?_, ?_⟩, emptied.mode,
    emptied.strData, emptied.flushedLen, rfl, emptied.dict.trans dictV.symm⟩
  · change e'.maxString ≤ compMaxString
    rw [emptied.maxString]
    exact paired.fits
  · change _ = e'.maxString
    rw [maxV, emptied.maxString]
  · change e'.dict.dictSize ≤ 2048
    rw [emptied.dict]
    exact paired.sizeE
  · rw [dictV]
    exact paired.sizeE
  · change v'.text ++ e'.strData = text
    rw [emptied.strData, textEq, List.append_nil]

theorem Paired.phase_open (paired : Paired start sent text e v) (phase : Phase e v left)
    (pending : e.lastMatched ≠ 0) : Behind e v := by
  cases phase with
  | text _ mode ran => exact Or.inl ⟨mode, ran⟩
  | peek x rest mode strData passed =>
      obtain ⟨_, m, _, _, _, passed', attempt, _, _⟩ := paired.okV.pass_spec x
      rw [passed] at passed'
      obtain ⟨rfl, rfl⟩ : e.matcher = m ∧ _ = _ := by simpa using passed'
      exact absurd attempt.idle_of_not_taken pending
  | even _ mode even => exact absurd even.lastMatched pending
  | stale _ _ _ even => exact absurd even.lastMatched pending
  | opened _ mode _ _ opened => exact Or.inr ⟨mode, opened⟩

theorem Paired.peek_cases (paired : Paired start sent text e v) {x : UInt8}
    (passed : v.matcher.pass x = .ok (e.matcher, false)) :
    e.dict = v.matcher.dict ∧ e.lastMatched = 0 ∧ v.matcher.lastMatched ≠ 0 ∧
      (e.updateAt = v.matcher.lastMatched ∨
        (e.updateAt = 0 ∧
          ∃ k, k ≠ 0 ∧ v.matcher.dict.matchChar v.matcher.lastMatched x = .ok k)) := by
  obtain ⟨m₁, m, taken, updated, _, passed', attempt, _, lastEq⟩ := paired.okV.pass_spec x
  rw [passed] at passed'
  obtain ⟨rfl, rfl⟩ : e.matcher = m ∧ false = taken := by simpa using passed'
  have notIdle : v.matcher.lastMatched ≠ 0 := by
    intro idle
    have := attempt.taken_of_idle (lastEq.trans idle)
    cases this
  have settled : v.matcher.updateAt = 0 := by
    rcases paired.okV.matched with ⟨idle, _⟩ | ⟨_, settled, _⟩
    · exact absurd idle notIdle
    · exact settled
  rw [Matcher.update_settled settled] at updated
  obtain rfl := Except.ok.inj updated
  refine ⟨?_, attempt.idle_of_not_taken, notIdle, ?_⟩
  · generalize other : e.matcher = m at attempt
    have dictEq : e.dict = m.dict := congrArg Matcher.dict other
    rw [dictEq]
    cases attempt <;> rfl
  · generalize other : e.matcher = m at attempt
    have updateEq : e.updateAt = m.updateAt := congrArg Matcher.updateAt other
    rw [updateEq]
    cases attempt with
    | mismatch live answer => exact Or.inl rfl
    | reserved live nonzero answer => exact Or.inr ⟨settled, _, nonzero, answer⟩

theorem Rested.sendPending_spec (rested : Rested start sent text e v left) :
    ∃ e₁ v₁, e.sendPending = .ok e₁ ∧ Sent start sent text e e₁ v₁ ∧
      ((e.mode = .transparent ∧
          Aimed e₁ v₁.matcher.dict v₁.matcher.lastMatched left) ∨
        (e.mode = .compressed ∧ v₁.matcher.lastMatched = 0 ∧ v₁.matcher.total = 0 ∧
          Aimed e₁ v₁.matcher.dict v₁.matcher.updateAt left)) := by
  have paired := rested.paired
  rcases paired.open_cases with ⟨idle, strData, flushedLen⟩ | ⟨pending, _⟩
  · -- nothing is open: the encoder stays, and only the position of the decoder matters
    have stay : e.dict = v.matcher.dict → Sent start sent text e e v :=
      fun dict => ⟨paired, rfl, strData, flushedLen, idle, dict⟩
    have peeked : ∀ x rest, left = x :: rest → e.mode = .transparent →
        v.matcher.pass x = .ok (e.matcher, false) →
        Sent start sent text e e v ∧ Aimed e v.matcher.dict v.matcher.lastMatched left := by
      intro x rest leftEq _ passed
      obtain ⟨dictEq, _, notIdle, aim⟩ := paired.peek_cases passed
      refine ⟨stay dictEq, ?_⟩
      rcases aim with same | ⟨zero, k, found, answer⟩
      · exact Or.inl same
      · exact Or.inr ⟨zero, notIdle, x, rest, k, leftEq, found, answer⟩
    refine ⟨e, v, sendPending_idle idle, ?_⟩
    obtain phase := rested.phase
    cases phase with
    | text _ mode ran =>
        by_cases settled : e.updateAt = 0
        · rw [strData] at ran
          have same : v.matcher = e.matcher := Except.ok.inj ran
          refine ⟨stay (by rw [same]; rfl), Or.inl ⟨mode, Or.inl ?_⟩⟩
          rw [same]
          exact settled.trans idle.symm
        · obtain ⟨x, rest, leftEq, _, passed⟩ := rested.peeked mode settled
          obtain ⟨sentE, aimed⟩ := peeked x rest leftEq mode passed
          exact ⟨sentE, Or.inl ⟨mode, aimed⟩⟩
    | peek x rest mode _ passed =>
        obtain ⟨sentE, aimed⟩ := peeked x rest rfl mode passed
        exact ⟨sentE, Or.inl ⟨mode, aimed⟩⟩
    | even _ mode even same =>
        exact ⟨stay even.dict, Or.inr ⟨mode, even.idle, even.closed, Or.inl same⟩⟩
    | stale x rest k even settled _ pending found answer =>
        refine ⟨stay even.dict, ?_⟩
        rcases e.mode_cases with mode | mode
        · exact Or.inl ⟨mode, Or.inl (settled.trans even.idle.symm)⟩
        · exact Or.inr ⟨mode, even.idle, even.closed,
            Or.inr ⟨settled, pending, x, rest, k, rfl, found, answer⟩⟩
    | opened _ _ nonempty => exact absurd strData nonempty
  · have behind := paired.phase_open rested.phase pending
    obtain ⟨e', v₁, sentEq, emptied, _, _, sentE, position⟩ :=
      paired.send_open behind pending e.lastMatched
    refine ⟨e'.pointedAt e.lastMatched, v₁, sendPending_open pending sentEq emptied.updateAt,
      sentE, ?_⟩
    rcases position with ⟨mode, same⟩ | ⟨mode, pointEq, lastEq, closed⟩
    · exact Or.inl ⟨mode, Or.inl (congrArg Matcher.lastMatched same).symm⟩
    · exact Or.inr ⟨mode, lastEq, closed, Or.inl pointEq.symm⟩

theorem Aimed.phase {e₂ : CompState} {v₂ : View} (even : Even e₂ v₂)
    (maxEq : v₂.matcher.maxString = e₂.maxString)
    (added : e₂.mode = .transparent → e₂.lastAdded = v₂.matcher.lastAdded)
    (aimed : Aimed e₂ v₂.matcher.dict v₂.matcher.updateAt left) : Phase e₂ v₂ left := by
  rcases aimed with same | ⟨zero, pending, x, rest, k, rfl, found, answer⟩
  · rcases e₂.mode_cases with mode | mode
    · refine .text left mode ?_
      have stands : v₂.matcher.run e₂.strData = .ok v₂.matcher := by
        rw [even.strData]
        rfl
      rw [stands]
      unfold CompState.matcher
      rw [even.strData, even.flushedLen, even.lastMatched, even.dict, ← maxEq, added mode, same]
      congr 1
      have idle := even.idle
      have closed := even.closed
      generalize v₂.matcher = m at idle closed
      cases m
      simp only at idle closed
      rw [idle, closed]
      rfl
    · exact .even left mode even same
  · exact .stale x rest k even zero added pending found answer

theorem Sent.enterCompressed {e₁ : CompState} {v₁ : View} (sentE : Sent start sent text e e₁ v₁)
    (mode : e₁.mode = .transparent)
    (aimed : Aimed e₁ v₁.matcher.dict v₁.matcher.lastMatched left) :
    ∃ v₂, Paired start sent text
        { e₁ with
          obuf := e₁.obuf ++ [e₁.escapeChar, ccEcm]
          bitData := 0
          mode := .compressed } v₂ ∧
      Phase { e₁ with
          obuf := e₁.obuf ++ [e₁.escapeChar, ccEcm]
          bitData := 0
          mode := .compressed } v₂ left := by
  have paired := sentE.paired
  have fits : v₁.matcher.maxString ≤ compMaxString := by
    rw [paired.maxEq]
    exact paired.fits
  have clear := paired.toFramed.clear mode paired.okV fits
  have reads := clear.reads_ecm paired.idle
  have wide := paired.wideView
  obtain ⟨dataZero, link⟩ := paired.link.bytes (paired.aligned mode) (by exact paired.blank)
    (by exact wide) reads
  rw [paired.escapeChar] at link
  have framed : Framed start sent
      { e₁ with
        obuf := e₁.obuf ++ [e₁.escapeChar, ccEcm]
        bitData := 0
        mode := .compressed } v₁.toCompressed := by
    obtain ⟨short, _, w, earlier, owed⟩ := link
    rw [dataZero] at owed
    exact ⟨⟨rfl, paired.idle, paired.width, paired.wide, paired.narrow, paired.threshold,
      paired.blank, (fun impossible => CompMode.noConfusion impossible),
      ⟨short, Nat.two_pow_pos _, w, earlier, owed⟩⟩, paired.escapeChar⟩
  refine ⟨v₁.toCompressed, ⟨framed, paired.fits, paired.maxEq, paired.okE, paired.okV.restart,
    paired.sizeE, paired.sizeV, paired.said⟩, ?_⟩
  exact Aimed.phase ⟨sentE.strData, sentE.flushedLen, sentE.lastMatched, sentE.dict, rfl, rfl⟩
    paired.maxEq (fun impossible => CompMode.noConfusion impossible) aimed

theorem Sent.enterTransparent {e₁ : CompState} {v₁ : View} (sentE : Sent start sent text e e₁ v₁)
    (mode : e₁.mode = .compressed) (idle : v₁.matcher.lastMatched = 0)
    (closed : v₁.matcher.total = 0)
    (aimed : Aimed e₁ v₁.matcher.dict v₁.matcher.updateAt left) :
    ∃ obuf v₂,
      ((({ e₁ with lastAdded := 0 } : CompState).sendCw ccwEtm).alignBits).sendBits =
        ({ e₁ with lastAdded := 0 } : CompState).putting obuf 0 0 ∧
      Paired start sent text
        { ({ e₁ with lastAdded := 0 } : CompState).putting obuf 0 0 with mode := .transparent }
        v₂ ∧
      Phase
        { ({ e₁ with lastAdded := 0 } : CompState).putting obuf 0 0 with mode := .transparent }
        v₂ left := by
  have paired := sentE.paired
  have framed : Framed start sent { e₁ with lastAdded := 0 } v₁ :=
    paired.toFramed.congr rfl rfl rfl rfl rfl rfl rfl
  have aligns := aligns_etm (paired.mode.trans mode) paired.blank idle
  have smallCw : ccwEtm < 2 ^ v₁.cwSize := Nat.two_pow_pos _
  obtain ⟨obuf, sentEq, link⟩ := framed.link.align framed.wideView framed.narrowView framed.width
    smallCw aligns
  have framed' : Framed start sent
      { ({ e₁ with lastAdded := 0 } : CompState).putting obuf 0 0 with mode := .transparent }
      v₁.toTransparent :=
    ⟨⟨rfl, paired.idle, paired.width, paired.wide, paired.narrow, paired.threshold, paired.blank,
      fun _ => rfl, ⟨link.short, link.small, link.reads⟩⟩, paired.escapeChar⟩
  refine ⟨obuf, v₁.toTransparent, sentEq, ⟨framed', paired.fits, paired.maxEq, ?_, ?_,
    paired.sizeE, paired.sizeV, paired.said⟩, ?_⟩
  · exact ⟨paired.okE.maxString_gt, paired.okE.wf, paired.okE.growable, paired.okE.matched,
      Or.inl rfl⟩
  · exact ⟨paired.okV.maxString_gt, paired.okV.wf, paired.okV.growable, paired.okV.matched,
      Or.inl rfl⟩
  · exact Aimed.phase ⟨sentE.strData, sentE.flushedLen, sentE.lastMatched, sentE.dict, idle,
      closed⟩ paired.maxEq (fun _ => rfl) aimed

/-- `test_mode`. -/
theorem Rested.testMode_spec (rested : Rested start sent text e v left) :
    ∃ e' v', e.testMode = .ok e' ∧ Paired start sent text e' v' ∧ Phase e' v' left ∧
      (e'.lastMatched = e.lastMatched ∨ e'.lastMatched = 0) ∧
      (left = [] → e'.updateAt ≠ 0 → e'.bitLen = 0) := by
  have unchanged : e.testMode = .ok e →
      ∃ e' v', e.testMode = .ok e' ∧ Paired start sent text e' v' ∧ Phase e' v' left ∧
        (e'.lastMatched = e.lastMatched ∨ e'.lastMatched = 0) ∧
        (left = [] → e'.updateAt ≠ 0 → e'.bitLen = 0) := by
    intro same
    exact ⟨e, v, same, rested.paired, rested.phase, Or.inl rfl,
      fun empty pending => absurd (rested.settled empty) pending⟩
  obtain ⟨e₁, v₁, pendingSent, sentE, position⟩ := rested.sendPending_spec
  rcases position with ⟨mode, aimed⟩ | ⟨mode, idle, closed, aimed⟩
  · have testEq : e.testMode = if e.cmpLast < testSlice * 8 - 11 then (do
          let c ← e.sendPending
          .ok { c with
                obuf := c.obuf ++ [c.escapeChar, ccEcm]
                bitData := 0
                mode := .compressed }) else .ok e := by
      unfold CompState.testMode
      rw [mode]
    by_cases better : e.cmpLast < testSlice * 8 - 11
    · have mode₁ := sentE.mode.trans mode
      obtain ⟨v₂, paired, phase⟩ := sentE.enterCompressed mode₁ aimed
      refine ⟨_, v₂, ?_, paired, phase, Or.inr sentE.lastMatched,
        fun _ _ => sentE.paired.aligned mode₁⟩
      rw [testEq, if_pos better, pendingSent]
      rfl
    · apply unchanged
      rw [testEq, if_neg better]
  · have testEq : e.testMode = if e.cmpLast > testSlice * 8 then (do
          let c ← e.sendPending
          .ok { (({ c with lastAdded := 0 }.sendCw ccwEtm).alignBits).sendBits with
                mode := .transparent }) else .ok e := by
      unfold CompState.testMode
      rw [mode]
    by_cases worse : e.cmpLast > testSlice * 8
    · obtain ⟨obuf, v₂, sentEq, paired, phase⟩ :=
        sentE.enterTransparent (sentE.mode.trans mode) idle closed aimed
      refine ⟨_, v₂, ?_, paired, phase, Or.inr sentE.lastMatched, fun _ _ => rfl⟩
      rw [testEq, if_pos worse, pendingSent, ok_bind, sentEq]
    · apply unchanged
      rw [testEq, if_neg worse]

end Switching

/-! ### Calls of the encoder -/

/-- Encoder and decoder between two calls. -/
structure Waiting (start : View) (sent text : List UInt8) (e : CompState) (v : View) : Prop where
  paired : Paired start sent text e v
  phase : Phase e v []
  released : e.updateAt ≠ 0 → e.bitLen = 0

section Calls

variable {start v : View} {sent text : List UInt8} {e : CompState}

theorem Phase.anyInput {input : List UInt8} (phase : Phase e v []) : Phase e v input := by
  cases phase with
  | text _ mode ran => exact .text _ mode ran
  | even _ mode even same => exact .even _ mode even same
  | opened _ mode nonempty settled opened => exact .opened _ mode nonempty settled opened

theorem encodeLoop_spec (fuel : Nat) (input : List UInt8) (paired : Paired start sent text e v)
    (phase : Phase e v input) (released : input = [] → e.updateAt ≠ 0 → e.bitLen = 0)
    (enough : 2 * input.length ≤ fuel ∨ (e.lastMatched = 0 ∧ 2 * input.length ≤ fuel + 1)) :
    ∃ e' v', CompState.encodeLoop fuel e input = .ok e' ∧
      Waiting start sent (text ++ input) e' v' := by
  induction fuel generalizing e v text input with
  | zero =>
      cases input with
      | nil =>
          refine ⟨e, v, rfl, ?_, phase, released rfl⟩
          rw [List.append_nil]
          exact paired
      | cons x rest =>
          simp only [List.length_cons] at enough
          omega
  | succ fuel ih =>
      cases input with
      | nil =>
          refine ⟨e, v, rfl, ?_, phase, released rfl⟩
          rw [List.append_nil]
          exact paired
      | cons x rest =>
          obtain ⟨e₁, updated, paired₁, ahead, settled, lastEq⟩ := paired.begin phase
          obtain ⟨e₂, v₂, used, left, matched, cut, rested, stalled⟩ :=
            paired₁.matchString_spec rest ahead settled
          obtain ⟨e₃, v₃, tested, paired₃, phase₃, last₃, released₃⟩ := rested.testMode_spec
          have lengths := congrArg List.length cut
          rw [List.length_append, List.length_cons] at lengths
          have enough₃ : 2 * left.length ≤ fuel ∨
              (e₃.lastMatched = 0 ∧ 2 * left.length ≤ fuel + 1) := by
            rw [List.length_cons] at enough
            by_cases none : used = []
            · obtain ⟨pending, idle⟩ := stalled none
              rw [lastEq] at pending
              have idle₃ : e₃.lastMatched = 0 := by
                rcases last₃ with same | zero
                · exact same.trans idle
                · exact zero
              rw [none, List.length_nil] at lengths
              refine Or.inr ⟨idle₃, ?_⟩
              rcases enough with enough | ⟨idleE, _⟩
              · omega
              · exact absurd idleE pending
            · have := List.length_pos_iff.mpr none
              left
              omega
          obtain ⟨e', v', looped, waiting⟩ := ih left paired₃ phase₃ released₃ enough₃
          refine ⟨e', v', ?_, ?_⟩
          · rw [CompState.encodeLoop, updated, ok_bind, matched, ok_bind]
            simp only
            rw [tested, ok_bind]
            exact looped
          · rw [cut, ← List.append_assoc]
            exact waiting

theorem Waiting.compEncode_spec (waiting : Waiting start sent text e v) (input : List UInt8) :
    ∃ e' v', e.compEncode input = .ok e' ∧ Waiting start sent (text ++ input) e' v' :=
  encodeLoop_spec _ input waiting.paired waiting.phase.anyInput (fun _ => waiting.released)
    (Or.inl (Nat.le_refl _))

structure Flushed (start : View) (sent text : List UInt8) (e : CompState) (v : View) : Prop
    extends Waiting start sent text e v where
  strData : e.strData = []
  bitLen : e.bitLen = 0

/-- The `CCW_FLUSH` at the end of `comp_flush_encoder`. -/
theorem Paired.flush_aligned (paired : Paired start sent text e v) (mode : e.mode = .compressed)
    (even : Even e v) (same : e.updateAt = v.matcher.updateAt) :
    ∃ e', ((e.sendCw ccwFlush).alignBits).sendBits = e' ∧ Flushed start sent text e' v := by
  have aligns := aligns_flush (paired.mode.trans mode) paired.blank
  have smallCw : ccwFlush < 2 ^ v.cwSize :=
    calc ccwFlush < 2 ^ 9 := by decide
      _ ≤ 2 ^ v.cwSize := Nat.pow_le_pow_right (by decide) paired.wideView
  obtain ⟨obuf, sentEq, link⟩ := paired.link.align paired.wideView paired.narrowView paired.width
    smallCw aligns
  have framed : Framed start sent (e.putting obuf 0 0) v :=
    ⟨⟨paired.mode, paired.idle, paired.width, paired.wide, paired.narrow, paired.threshold,
      paired.blank, fun _ => rfl, link⟩, paired.escapeChar⟩
  refine ⟨_, sentEq, ⟨⟨framed, paired.fits, paired.maxEq, paired.okE, paired.okV, paired.sizeE,
    paired.sizeV, paired.said⟩, ?_, fun _ => rfl⟩, even.strData, rfl⟩
  exact .even [] mode ⟨even.strData, even.flushedLen, even.lastMatched, even.dict, even.idle,
    even.closed⟩ same

theorem flushCodeword_transparent (mode : e.mode = .transparent) : e.flushCodeword = e := by
  unfold CompState.flushCodeword
  rw [mode]

theorem flushCodeword_compressed (mode : e.mode = .compressed) :
    e.flushCodeword = (((({ e.pointedAt e.lastMatched with
      flushedLen := 0 } : CompState)).sendCw ccwFlush).alignBits).sendBits := by
  unfold CompState.flushCodeword
  split
  · rename_i transparent
    exact absurd (mode.symm.trans transparent) (by decide)
  · rfl

/-- `comp_flush_encoder` in transparent mode with a string open. -/
theorem Paired.flush_transparent (paired : Paired start sent text e v) (behind : Behind e v)
    (pending : e.lastMatched ≠ 0) (mode : e.mode = .transparent) :
    ∃ e' v', e.sendData e.lastMatched = .ok e' ∧
      Flushed start sent text
        ({ e' with flushedLen := e.flushedLen + e.strData.length } : CompState).flushCodeword
        v' := by
  obtain ⟨e', v', sentEq, emptied, framed, textEq, sentE, position⟩ :=
    paired.send_open behind pending e.updateAt
  have same : v'.matcher = e.matcher := by
    rcases position with ⟨_, same⟩ | ⟨compressed, _⟩
    · exact same
    · exact absurd (mode.symm.trans compressed) (by decide)
  have matcherEq : ({ e' with
      flushedLen := e.flushedLen + e.strData.length } : CompState).matcher = e.matcher := by
    unfold CompState.matcher
    rw [emptied.updateAt, emptied.lastMatched, emptied.lastAdded, emptied.maxString,
      emptied.dict, emptied.strData]
    rfl
  have mode' : e'.mode = .transparent := emptied.mode.trans mode
  have settled : e'.updateAt = 0 := by
    rcases paired.open_cases with ⟨idle, _⟩ | ⟨_, _, zero, _⟩
    · exact absurd idle pending
    · exact emptied.updateAt.trans zero
  have paired' := sentE.paired
  have stands : v'.matcher.run e'.strData = .ok v'.matcher := by
    rw [emptied.strData]
    rfl
  have unchanged := @flushCodeword_transparent
    { e' with flushedLen := e.flushedLen + e.strData.length } mode'
  refine ⟨e', v', sentEq, ?_⟩
  rw [unchanged]
  refine ⟨⟨⟨framed.congr rfl rfl rfl rfl rfl rfl rfl, paired'.fits, paired'.maxEq, ?_,
    paired'.okV, paired'.sizeE, paired'.sizeV, paired'.said⟩, ?_,
    fun unsettled => absurd settled unsettled⟩, emptied.strData, framed.aligned mode'⟩
  · rw [matcherEq]
    exact paired.okE
  · exact .text [] mode' (stands.trans (congrArg Except.ok (same.trans matcherEq.symm)))

/-- `comp_flush_encoder` in compressed mode with a string open. -/
theorem Paired.flush_compressed (paired : Paired start sent text e v) (behind : Behind e v)
    (pending : e.lastMatched ≠ 0) (mode : e.mode = .compressed) :
    ∃ e' v', e.sendData e.lastMatched = .ok e' ∧
      Flushed start sent text
        ({ e' with flushedLen := e.flushedLen + e.strData.length } : CompState).flushCodeword
        v' := by
  obtain ⟨e', v', sentEq, emptied, _, _, sentE, position⟩ :=
    paired.send_open behind pending e.updateAt
  obtain ⟨pointEq, lastEq, closed⟩ : v'.matcher.updateAt = e.lastMatched ∧
      v'.matcher.lastMatched = 0 ∧ v'.matcher.total = 0 := by
    rcases position with ⟨transparent, _⟩ | ⟨_, standing⟩
    · exact absurd (mode.symm.trans transparent) (by decide)
    · exact standing
  obtain ⟨e₂, flushedEq, flushed⟩ := sentE.paired.flush_aligned (emptied.mode.trans mode)
    ⟨sentE.strData, sentE.flushedLen, sentE.lastMatched, sentE.dict, lastEq, closed⟩ pointEq.symm
  refine ⟨e', v', sentEq, ?_⟩
  have recordEq : ({ ({ e' with flushedLen := e.flushedLen + e.strData.length } :
        CompState).pointedAt e'.lastMatched with flushedLen := 0 } : CompState) =
      e'.pointedAt e.lastMatched := by
    unfold CompState.pointedAt
    rw [← emptied.flushedLen, emptied.lastMatched]
  have sentFlush := @flushCodeword_compressed
    { e' with flushedLen := e.flushedLen + e.strData.length } (emptied.mode.trans mode)
  rw [sentFlush, recordEq, flushedEq]
  exact flushed

/-- `comp_flush_encoder`. -/
theorem Waiting.compFlushEncoder_spec (waiting : Waiting start sent text e v) :
    ∃ e' v', e.compFlushEncoder = .ok e' ∧ Flushed start sent text e' v' := by
  have paired := waiting.paired
  unfold CompState.compFlushEncoder
  by_cases settled : e.updateAt = 0
  · rw [if_neg (not_not_intro settled)]
    rcases paired.open_cases with ⟨idle, strData, flushedLen⟩ | ⟨pending, _⟩
    · rw [if_neg (not_not_intro idle)]
      obtain phase := waiting.phase
      cases phase with
      | text _ mode ran =>
          rw [flushCodeword_transparent mode]
          exact ⟨e, v, rfl, waiting, strData, paired.aligned mode⟩
      | even _ mode even same =>
          obtain ⟨e', sentEq, flushed⟩ := paired.flush_aligned mode even same
          have unchanged : ({ e.pointedAt e.lastMatched with flushedLen := 0 } : CompState) =
              e := by
            unfold CompState.pointedAt
            cases e
            simp only at idle settled flushedLen
            simp only [idle, settled, flushedLen]
          rw [flushCodeword_compressed mode, unchanged, sentEq]
          exact ⟨e', v, rfl, flushed⟩
      | opened _ _ nonempty => exact absurd strData nonempty
    · rw [if_pos pending]
      have behind := paired.phase_open waiting.phase pending
      rcases e.mode_cases with mode | mode
      · obtain ⟨e', v', sentEq, flushed⟩ := paired.flush_transparent behind pending mode
        rw [sentEq, ok_bind]
        exact ⟨_, v', rfl, flushed⟩
      · obtain ⟨e', v', sentEq, flushed⟩ := paired.flush_compressed behind pending mode
        rw [sentEq, ok_bind]
        exact ⟨_, v', rfl, flushed⟩
  · refine ⟨e, v, if_pos settled, waiting, ?_, waiting.released settled⟩
    rcases paired.open_cases with ⟨_, strData, _⟩ | ⟨_, _, zero, _⟩
    · exact strData
    · exact absurd zero settled

end Calls

end DModem.Comp
