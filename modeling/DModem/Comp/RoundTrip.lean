/-
The V.42bis link: an encoder, the byte stream it produces, and a decoder.

A session interleaves the calls of both sides in any order.  The joint invariant
is that the encoder's stream is readable from the common initial state and that
the decoder has read as much of it as it was given.
-/

import DModem.Comp.Encoder

namespace DModem.Comp

open View Dict

/-- A call of either side.  `decode count` offers the next `count` bytes of the
stream, or what there is of them, to one `comp_decode`. -/
inductive Act where
  | encode (input : List UInt8)
  | flushEncoder
  | decode (count : Nat)
  | flushDecoder
  deriving DecidableEq, Repr

/-- Both ends, the stream produced so far, how much of it was decoded, what was
typed in and what came out. -/
structure Session where
  enc : CompState
  stream : List UInt8
  pos : Nat
  dec : CompState
  out : List UInt8
  typed : List UInt8

namespace Session

def start (c : CompState) : Session :=
  { enc := c
    stream := []
    pos := 0
    dec := c
    out := []
    typed := [] }

def sentBy (s : Session) (e : CompState) (input : List UInt8) : Session :=
  { s with
    enc := e.drain
    stream := s.stream ++ e.obuf
    typed := s.typed ++ input }

def readBy (s : Session) (d : CompState) (count : Nat) : Session :=
  { s with
    dec := d.drain
    pos := s.pos + count
    out := s.out ++ d.obuf }

def step (s : Session) : Act → Except Fault Session
  | .encode input => do
      let e ← s.enc.compEncode input
      .ok (s.sentBy e input)
  | .flushEncoder => do
      let e ← s.enc.compFlushEncoder
      .ok (s.sentBy e [])
  | .decode count => do
      let input := (s.stream.drop s.pos).take count
      let d ← s.dec.compDecode input
      .ok (s.readBy d input.length)
  | .flushDecoder => .ok (s.readBy s.dec.compFlushDecoder 0)

def run : Session → List Act → Except Fault Session
  | s, [] => .ok s
  | s, act :: rest => do
      let s ← s.step act
      s.run rest

theorem run_append (s : Session) (first second : List Act) :
    s.run (first ++ second) = (do let s' ← s.run first; s'.run second) := by
  induction first generalizing s with
  | nil => rfl
  | cons act rest ih =>
      simp only [List.cons_append, run]
      cases s.step act with
      | error fault => rfl
      | ok s' => exact ih s'

end Session

/-- The characters that a list of calls gives to the encoder. -/
def charsOf : List Act → List UInt8
  | [] => []
  | .encode input :: rest => input ++ charsOf rest
  | _ :: rest => charsOf rest

theorem charsOf_append (first second : List Act) :
    charsOf (first ++ second) = charsOf first ++ charsOf second := by
  induction first with
  | nil => rfl
  | cons act rest ih =>
      cases act <;> simp [charsOf, ih]

/-- The joint invariant of a session between two copies of `c`. -/
structure InStep (c : CompState) (s : Session) : Prop where
  drainedE : s.enc.obuf = []
  waiting : ∃ v, Waiting (c.view []) s.stream s.typed s.enc v
  drainedD : s.dec.obuf = []
  within : s.pos ≤ s.stream.length
  reads : Reads (c.view []) (s.stream.take s.pos) (s.dec.view s.out)

section Invariant

variable {c : CompState} {s s' : Session}

theorem InStep.readable (inStep : InStep c s) :
    ∃ w, Reads (c.view []) s.stream w ∧ w.text <+: s.typed := by
  obtain ⟨v, waiting⟩ := inStep.waiting
  obtain ⟨w, reads, owed⟩ := waiting.paired.link.reads
  rw [inStep.drainedE, List.append_nil] at reads
  refine ⟨w, reads, ?_⟩
  rw [← waiting.paired.said]
  exact owed.drains.grows.trans (List.prefix_append _ _)

theorem InStep.ahead (inStep : InStep c s) :
    ∃ w, Reads (s.dec.view s.out) (s.stream.drop s.pos) w ∧ w.text <+: s.typed := by
  obtain ⟨w, reads, saying⟩ := inStep.readable
  rw [← List.take_append_drop s.pos s.stream] at reads
  obtain ⟨w₁, reads₁, later⟩ := reads.split
  obtain rfl := reads₁.unique inStep.reads rfl
  exact ⟨w, later, saying⟩

theorem InStep.text_eq (inStep : InStep c s) :
    (s.dec.view s.out).text = s.out ++ s.dec.strData := by
  unfold CompState.view
  rw [inStep.drainedD, List.append_nil]

theorem InStep.text_prefix (inStep : InStep c s) : s.out ++ s.dec.strData <+: s.typed := by
  obtain ⟨w, later, saying⟩ := inStep.ahead
  rw [← inStep.text_eq]
  exact later.grows.trans saying

theorem Waiting.drain {initial v : View} {sent text : List UInt8} {e : CompState}
    (waiting : Waiting initial sent text e v) :
    Waiting initial (sent ++ e.obuf) text e.drain v := by
  obtain ⟨paired, phase, released⟩ := waiting
  obtain ⟨short, small, w, reads, owed⟩ := paired.link
  have link : Link initial (sent ++ e.obuf) e.drain v := by
    refine ⟨short, small, w, ?_, owed⟩
    change Reads initial (sent ++ e.obuf ++ []) w
    rw [List.append_nil]
    exact reads
  refine ⟨⟨⟨⟨paired.mode, paired.idle, paired.width, paired.wide, paired.narrow, paired.threshold,
    paired.blank, paired.aligned, link⟩, paired.escapeChar⟩, paired.fits, paired.maxEq, paired.okE,
    paired.okV, paired.sizeE, paired.sizeV, paired.said⟩, ?_, released⟩
  cases phase with
  | text _ mode ran => exact .text _ mode ran
  | even _ mode even same =>
      exact .even _ mode ⟨even.strData, even.flushedLen, even.lastMatched, even.dict, even.idle,
        even.closed⟩ same
  | opened _ mode nonempty settled opened =>
      refine .opened _ mode nonempty settled ?_
      intro x
      obtain ⟨flushedLen, idle, closed, grown, spells⟩ := opened x
      exact ⟨flushedLen, idle, closed, grown, spells⟩

theorem InStep.sentBy (inStep : InStep c s) {e : CompState} {v : View} {input : List UInt8}
    (waiting : Waiting (c.view []) s.stream (s.typed ++ input) e v) :
    InStep c (s.sentBy e input) := by
  constructor
  · rfl
  · exact ⟨v, waiting.drain⟩
  · exact inStep.drainedD
  · change s.pos ≤ (s.stream ++ e.obuf).length
    rw [List.length_append]
    exact Nat.le_trans inStep.within (Nat.le_add_right _ _)
  · change Reads (c.view []) ((s.stream ++ e.obuf).take s.pos) (s.dec.view s.out)
    rw [List.take_append_of_le_length inStep.within]
    exact inStep.reads

theorem InStep.readBy (inStep : InStep c s) {d : CompState} {input : List UInt8}
    (cut : input <+: s.stream.drop s.pos) (reads : Reads (s.dec.view s.out) input (d.view s.out)) :
    InStep c (s.readBy d input.length) := by
  obtain ⟨rest, whole⟩ := cut
  have lengths := congrArg List.length whole
  rw [List.length_append, List.length_drop] at lengths
  have within := inStep.within
  constructor
  · exact inStep.drainedE
  · exact inStep.waiting
  · rfl
  · change s.pos + input.length ≤ s.stream.length
    omega
  · change Reads (c.view []) (s.stream.take (s.pos + input.length))
      (d.drain.view (s.out ++ d.obuf))
    rw [CompState.view_drain, List.take_add, ← whole, List.take_left]
    exact inStep.reads.append reads

theorem InStep.step (inStep : InStep c s) (act : Act) :
    ∃ s', s.step act = .ok s' ∧ InStep c s' ∧ s'.typed = s.typed ++ charsOf [act] ∧
      s.stream <+: s'.stream ∧ s.out <+: s'.out := by
  obtain ⟨v, waiting⟩ := inStep.waiting
  cases act with
  | encode input =>
      obtain ⟨e, v', encoded, waiting'⟩ := waiting.compEncode_spec input
      refine ⟨s.sentBy e input, ?_, inStep.sentBy waiting', ?_, List.prefix_append _ _,
        List.prefix_refl _⟩
      · simp only [Session.step, encoded, ok_bind]
      · simp [Session.sentBy, charsOf]
  | flushEncoder =>
      obtain ⟨e, v', flushed, waiting'⟩ := waiting.compFlushEncoder_spec
      have same : Waiting (c.view []) s.stream (s.typed ++ []) e v' := by
        rw [List.append_nil]
        exact waiting'.toWaiting
      refine ⟨s.sentBy e [], ?_, inStep.sentBy same, rfl, List.prefix_append _ _,
        List.prefix_refl _⟩
      simp only [Session.step, flushed, ok_bind]
  | decode count =>
      obtain ⟨w, later, _⟩ := inStep.ahead
      rw [← List.take_append_drop count (s.stream.drop s.pos)] at later
      obtain ⟨w₁, reads, _⟩ := later.split
      obtain ⟨d, decoded, shape⟩ := reads.compDecode s.dec s.out rfl
      rw [← shape] at reads
      refine ⟨s.readBy d _, ?_, inStep.readBy (List.take_prefix _ _) reads, ?_,
        List.prefix_refl _, List.prefix_append _ _⟩
      · simp only [Session.step, decoded, ok_bind]
      · simp [Session.readBy, charsOf]
  | flushDecoder =>
      have reads : Reads (s.dec.view s.out) [] (s.dec.compFlushDecoder.view s.out) := by
        rw [CompState.view_flush]
        exact .nil _
      refine ⟨s.readBy s.dec.compFlushDecoder 0, rfl,
        inStep.readBy (List.nil_prefix) reads, ?_, List.prefix_refl _, List.prefix_append _ _⟩
      simp [Session.readBy, charsOf]

theorem InStep.run (inStep : InStep c s) (acts : List Act) :
    ∃ s', s.run acts = .ok s' ∧ InStep c s' ∧ s'.typed = s.typed ++ charsOf acts ∧
      s.stream <+: s'.stream ∧ s.out <+: s'.out := by
  induction acts generalizing s with
  | nil =>
      exact ⟨s, rfl, inStep, by simp [charsOf], List.prefix_refl _, List.prefix_refl _⟩
  | cons act rest ih =>
      obtain ⟨s₁, stepped, inStep₁, typed₁, stream₁, out₁⟩ := inStep.step act
      obtain ⟨s', ran, inStep', typed', stream', out'⟩ := ih inStep₁
      refine ⟨s', ?_, inStep', ?_, stream₁.trans stream', out₁.trans out'⟩
      · simp only [Session.run, stepped, ok_bind, ran]
      · rw [typed', typed₁, List.append_assoc, ← charsOf_append]
        rfl

/-! ### Flushing -/

/-- The first `count` bytes of the stream carry everything typed. -/
def Carried (c : CompState) (s : Session) (count : Nat) : Prop :=
  ∃ w, Reads (c.view []) (s.stream.take count) w ∧ w.text = s.typed

/-- `comp_flush_encoder` leaves nothing in the encoder. -/
theorem InStep.flushEncoder (inStep : InStep c s) (stepped : s.step .flushEncoder = .ok s') :
    Carried c s' s'.stream.length := by
  obtain ⟨v, waiting⟩ := inStep.waiting
  obtain ⟨e, v', flushed, done⟩ := waiting.compFlushEncoder_spec
  have stepped' : s.step .flushEncoder = .ok (s.sentBy e []) := by
    simp only [Session.step, flushed, ok_bind]
  rw [stepped] at stepped'
  obtain rfl := Except.ok.inj stepped'
  obtain ⟨w, reads, owed⟩ := done.paired.link.reads
  have small := done.paired.link.small
  rw [done.bitLen] at small owed
  have dataZero : e.bitData = 0 := by omega
  rw [dataZero] at owed
  obtain rfl := owed.done
  refine ⟨v', ?_, ?_⟩
  · rw [List.take_length]
    exact reads
  · have said := done.paired.said
    rw [done.strData, List.append_nil] at said
    simpa [Session.sentBy] using said

theorem InStep.flushDecoder {count : Nat} (inStep : InStep c s) (carried : Carried c s count)
    (reached : count ≤ s.pos) (stepped : s.step .flushDecoder = .ok s') : s'.out = s'.typed := by
  obtain ⟨w, reads, textEq⟩ := carried
  have cut : s.stream.take s.pos =
      s.stream.take count ++ (s.stream.take s.pos).drop count := by
    have split := (List.take_append_drop count (s.stream.take s.pos)).symm
    rwa [List.take_take, Nat.min_eq_left reached] at split
  have readsD := inStep.reads
  rw [cut] at readsD
  obtain ⟨w₁, reads₁, later⟩ := readsD.split
  obtain rfl := reads₁.unique reads rfl
  have grows := later.grows
  rw [textEq, inStep.text_eq] at grows
  have same := List.IsPrefix.eq_of_length_le grows inStep.text_prefix.length_le
  obtain rfl := Except.ok.inj stepped
  have obufEq : s.dec.compFlushDecoder.obuf = s.dec.strData := by
    simp [CompState.compFlushDecoder, CompState.sendString, inStep.drainedD]
  simp only [Session.readBy, obufEq]
  exact same.symm

theorem Carried.later {count : Nat} (carried : Carried c s count) (reached : count ≤ s.stream.length)
    (longer : s.stream <+: s'.stream) (typedEq : s'.typed = s.typed) : Carried c s' count := by
  obtain ⟨w, reads, textEq⟩ := carried
  obtain ⟨more, whole⟩ := longer
  refine ⟨w, ?_, textEq.trans typedEq.symm⟩
  rw [← whole, List.take_append_of_le_length reached]
  exact reads

theorem InStep.out_stays (inStep : InStep c s) (complete : s.out = s.typed) (acts : List Act)
    (silent : charsOf acts = []) (ran : s.run acts = .ok s') : s'.out = s'.typed := by
  obtain ⟨s₂, ran₂, inStep₂, typed₂, _, grows⟩ := inStep.run acts
  rw [ran] at ran₂
  obtain rfl := Except.ok.inj ran₂
  rw [silent, List.append_nil] at typed₂
  have bounded := inStep₂.text_prefix
  have outPrefix : s'.out <+: s'.typed := (List.prefix_append _ _).trans bounded
  rw [complete, ← typed₂] at grows
  exact outPrefix.eq_of_length_le grows.length_le

end Invariant

/-! ### The initial state -/

theorem dictInit_wf (dictSize maxString : Nat) (room : firstFree + maxString + 1 < dictSize)
    (short : 1 ≤ maxString) :
    Wf (dictInit (compAlloc dictSize maxString)).dict maxString (fun _ => []) := by
  apply Wf.initial room (Nat.le_refl _) rfl short
  · intro e low high
    have inDict : e < dictSize := by omega
    simp only [dictInit, compAlloc, if_pos inDict, if_pos (And.intro low high)]
    rw [UInt8.toNat_ofNat']
    simp only [firstFree, totalChars, firstEntry] at low high ⊢
    omega
  · intro e inDict
    change e < dictSize at inDict
    constructor
    · change (if e < dictSize then _ else _ : DictEntry).parent = 0
      rw [if_pos inDict]
    · change (if e < dictSize then _ else _ : DictEntry).child = 0
      rw [if_pos inDict]

theorem dictInit_ok (dictSize maxString : Nat) (room : firstFree + maxString + 1 < dictSize)
    (short : 1 < maxString) : (dictInit (compAlloc dictSize maxString)).matcher.Ok :=
  { maxString_gt := short
    wf := ⟨_, dictInit_wf dictSize maxString room (Nat.le_of_lt short)⟩
    growable := Or.inl rfl
    matched := Or.inl ⟨rfl, rfl⟩
    added_ge := Or.inl rfl }

theorem dictInit_waiting (dictSize maxString : Nat) (room : firstFree + maxString + 1 < dictSize)
    (short : 1 < maxString) (fits : maxString ≤ compMaxString) (size : dictSize ≤ 2048) :
    Waiting ((dictInit (compAlloc dictSize maxString)).view []) [] []
      (dictInit (compAlloc dictSize maxString))
      ((dictInit (compAlloc dictSize maxString)).view []) := by
  have ok := dictInit_ok dictSize maxString room short
  have blank : ((dictInit (compAlloc dictSize maxString)).view []).Blank := ⟨rfl, rfl⟩
  have link : Link ((dictInit (compAlloc dictSize maxString)).view []) []
      (dictInit (compAlloc dictSize maxString))
      ((dictInit (compAlloc dictSize maxString)).view []) := by
    exact ⟨show 0 < 8 by decide, show 0 < 2 ^ 0 by decide, _, .nil _,
      Owed.refl blank (show 9 ≤ 9 by decide)⟩
  exact
    { paired :=
        { mode := rfl
          idle := rfl
          escapeChar := rfl
          width := rfl
          wide := show 9 ≤ 9 by decide
          narrow := show 9 ≤ 11 by decide
          threshold := rfl
          blank := blank
          aligned := fun _ => rfl
          link := link
          fits := fits
          maxEq := rfl
          okE := ok
          okV := ok
          sizeE := size
          sizeV := size
          said := rfl }
      phase := .text [] rfl rfl
      released := fun pending => absurd rfl pending }

theorem compInit_inStep (dictSize maxStr : Int) (sizeLow : 512 ≤ dictSize)
    (sizeHigh : dictSize ≤ 2048) (strLow : 6 ≤ maxStr) (strHigh : maxStr ≤ 34) :
    ∃ c, compInit dictSize maxStr = some c ∧ InStep c (Session.start c) := by
  have accepted : ¬(dictSize < minDictSize ∨ maxStr < minStrSize ∨ maxStr > maxStrSize) := by
    simp only [minDictSize, minStrSize, maxStrSize]
    omega
  refine ⟨dictInit (compAlloc dictSize.toNat maxStr.toNat), if_neg accepted, rfl, ?_, rfl,
    Nat.le_refl _, .nil _⟩
  refine ⟨_, dictInit_waiting dictSize.toNat maxStr.toNat ?_ ?_ ?_ ?_⟩
  · simp only [firstFree, totalChars, firstEntry]
    omega
  · omega
  · simp only [compMaxString]
    omega
  · omega

/-- Round trip.  In every interleaving of encoder and decoder calls no call
fails, and the output is always a prefix of what was typed; once an encoder flush
follows the last character, the stream up to there has been decoded and the
decoder is flushed, the output is what was typed. -/
theorem session_round_trip (dictSize maxStr : Int) (sizeLow : 512 ≤ dictSize)
    (sizeHigh : dictSize ≤ 2048) (strLow : 6 ≤ maxStr) (strHigh : maxStr ≤ 34) :
    ∃ c, compInit dictSize maxStr = some c ∧
      ∀ acts, ∃ s, (Session.start c).run acts = .ok s ∧ s.out <+: charsOf acts ∧
        ∀ before between after s₁ s₂,
          acts = before ++ .flushEncoder :: (between ++ .flushDecoder :: after) →
          charsOf between = [] → charsOf after = [] →
          (Session.start c).run (before ++ [.flushEncoder]) = .ok s₁ →
          (Session.start c).run (before ++ .flushEncoder :: between) = .ok s₂ →
          s₁.stream.length ≤ s₂.pos → s.out = charsOf acts := by
  obtain ⟨c, initialised, inStep⟩ :=
    compInit_inStep dictSize maxStr sizeLow sizeHigh strLow strHigh
  refine ⟨c, initialised, ?_⟩
  intro acts
  obtain ⟨s, ran, inStepS, typedS, _, _⟩ := inStep.run acts
  have typedEq : s.typed = charsOf acts := typedS
  refine ⟨s, ran, ?_, ?_⟩
  · rw [← typedEq]
    exact (List.prefix_append _ _).trans inStepS.text_prefix
  · intro before between after s₁ s₂ actsEq silentBetween silentAfter ran₁ ran₂ reached
    rw [← typedEq]
    obtain ⟨s₀, ran₀, inStep₀, _⟩ := inStep.run before
    obtain ⟨s₁', stepped₁, inStep₁, _⟩ := inStep₀.step .flushEncoder
    have same₁ : s₁' = s₁ := by
      rw [Session.run_append, ran₀, ok_bind, Session.run, stepped₁, ok_bind] at ran₁
      exact Except.ok.inj ran₁
    subst same₁
    have carried₁ := inStep₀.flushEncoder stepped₁
    obtain ⟨s₂', ran₂', inStep₂, typed₂, longer, _⟩ := inStep₁.run between
    have same₂ : s₂' = s₂ := by
      rw [Session.run_append, ran₀, ok_bind, Session.run, stepped₁, ok_bind, ran₂'] at ran₂
      exact Except.ok.inj ran₂
    subst same₂
    rw [silentBetween, List.append_nil] at typed₂
    have carried₂ := carried₁.later (Nat.le_refl _) longer typed₂
    obtain ⟨s₃, stepped₃, inStep₃, _⟩ := inStep₂.step .flushDecoder
    have complete := inStep₂.flushDecoder carried₂ reached stepped₃
    refine inStep₃.out_stays complete after silentAfter ?_
    rw [actsEq, Session.run_append, ran₀, ok_bind, Session.run, stepped₁, ok_bind,
      Session.run_append, ran₂', ok_bind, Session.run, stepped₃, ok_bind] at ran
    exact ran

/-- The round trip at the smallest sizes. -/
theorem session_round_trip_of_two_chars :
    ∃ c s, compInit 512 6 = some c ∧
      (Session.start c).run
        [.encode [97, 97], .flushEncoder, .decode 8, .flushDecoder] = .ok s ∧
      s.out = [97, 97] := by
  obtain ⟨c, initialised, all⟩ :=
    session_round_trip 512 6 (by decide) (by decide) (by decide) (by decide)
  obtain ⟨s, ran, _, complete⟩ := all [.encode [97, 97], .flushEncoder, .decode 8, .flushDecoder]
  have same : c = dictInit (compAlloc 512 6) := (Option.some.inj initialised).symm
  subst same
  refine ⟨_, s, initialised, ran, ?_⟩
  exact complete [.encode [97, 97]] [.decode 8] [] _ _ rfl rfl rfl rfl rfl (by decide)

end DModem.Comp
