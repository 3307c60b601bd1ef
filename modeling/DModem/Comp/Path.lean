/-
The compressed path: the characters that one modem takes from its queue, through the
encoder, the buffers of both modems and the decoder, to the terminal of the other.

Whatever `modem_comp_get_chars` hands out is a stream that a decoder can read, and says
no more than what was taken from the queue.
-/

import DModem.Comp.GetChars
import DModem.Comp.RoundTrip

namespace DModem.Comp

open View

/-! ### A readable stream, byte by byte -/

theorem View.Reads.decodeBytes {v v' : View} {bytes : List UInt8} (reads : Reads v bytes v')
    (c : CompState) (out : List UInt8) (shape : c.view out = v) :
    ∃ c', c.decodeBytes bytes = .ok c' ∧ c'.view out = v' := by
  induction reads generalizing c with
  | nil v => exact ⟨c, rfl, shape⟩
  | cons settled byte later ih =>
      obtain ⟨c₁, decoded, shape₁⟩ := byte.decodes c out shape
      obtain ⟨c', done, shape'⟩ := ih c₁ shape₁
      refine ⟨c', ?_, shape'⟩
      rw [CompState.decodeBytes, decoded, ok_bind]
      exact done

/-! ### What the calls of the encoder keep -/

def Spoken (c : CompState) (s : CompSource) : Prop :=
  ∃ v, Waiting (c.view []) s.emitted s.encoded s.encoder.drain v

/-- The stream says everything that the encoder was given, and nothing is left to send. -/
structure Finished (c : CompState) (s : CompSource) : Prop where
  queue : s.queue = []
  obuf : s.encoder.obuf = []
  said : ∃ w, Reads (c.view []) s.emitted w ∧ w.text = s.encoded

section Source

variable {c : CompState} {s s' : CompSource} {buf data : List UInt8} {n : Nat}

theorem Spoken.readable (spoken : Spoken c s) :
    ∃ w, Reads (c.view []) s.emitted w ∧ w.text <+: s.encoded := by
  obtain ⟨v, waiting⟩ := spoken
  obtain ⟨w, reads, owed⟩ := waiting.paired.link.reads
  have empty : s.encoder.drain.obuf = [] := rfl
  rw [empty, List.append_nil] at reads
  refine ⟨w, reads, ?_⟩
  rw [← waiting.paired.said]
  exact owed.drains.grows.trans (List.prefix_append _ _)

theorem Spoken.accepted (spoken : Spoken c s) {bytes : List UInt8} (cut : bytes <+: s.emitted) :
    ∃ d, c.decodeBytes bytes = .ok d ∧ d.obuf ++ d.strData <+: s.encoded := by
  obtain ⟨w, reads, saying⟩ := spoken.readable
  obtain ⟨rest, whole⟩ := cut
  rw [← whole] at reads
  obtain ⟨w₁, reads₁, later⟩ := reads.split
  obtain ⟨d, decoded, shape⟩ := reads₁.decodeBytes c [] rfl
  refine ⟨d, decoded, ?_⟩
  have text := congrArg View.text shape
  calc d.obuf ++ d.strData = w₁.text := text
    _ <+: w.text := later.grows
    _ <+: s.encoded := saying

theorem Finished.decoded (finished : Finished c s) {d : CompState}
    (decoded : c.decodeBytes s.emitted = .ok d) : d.obuf ++ d.strData = s.encoded := by
  obtain ⟨w, reads, text⟩ := finished.said
  obtain ⟨d', decoded', shape⟩ := reads.decodeBytes c [] rfl
  rw [decoded] at decoded'
  obtain rfl := Except.ok.inj decoded'
  exact (congrArg View.text shape).trans text

theorem getOdata_drain (e : CompState) (n : Nat) : (e.getOdata n).1.drain = e.drain := by
  unfold CompState.getOdata
  split
  · simp only
    split
    · rfl
    · rfl
  · rfl

theorem CompSource.Level.through_calls (level : CompSource.Level s buf) (room : s.Room n)
    {call : CompState → Except Fault CompState} {chars : List UInt8}
    (passed : s.through call chars n = .ok (s', data)) :
    ∃ e, call s.encoder.drain = .ok e ∧ s'.encoder.drain = e.drain ∧
      s'.emitted = s.emitted ++ e.obuf ∧ s'.encoded = s.encoded ++ chars := by
  have held := CompSource.getOdata_drawn n level.inside
  have less := held.whole room
  obtain ⟨empty, zero⟩ := held.all less
  have drained : (s.encoder.getOdata n).1 = s.encoder.drain := by
    rw [← getOdata_drain s.encoder n]
    generalize (s.encoder.getOdata n).1 = e at empty zero
    cases e
    simp only at empty zero
    rw [empty, zero]
    rfl
  unfold CompSource.through at passed
  simp only at passed
  rw [if_neg (by omega)] at passed
  obtain ⟨e, called, done⟩ := bind_eq_ok.mp passed
  obtain ⟨rfl, _⟩ := Prod.mk.inj (Except.ok.inj done)
  rw [drained] at called
  refine ⟨e, called, getOdata_drain e _, ?_, rfl⟩
  change s.emitted ++ e.obuf.drop (s.encoder.getOdata n).1.obuf.length = _
  rw [empty]
  rfl

theorem Spoken.modemCompEncode (spoken : Spoken c s) (level : CompSource.Level s buf)
    (room : s.Room n) {ch : UInt8} (passed : s.modemCompEncode ch n = .ok (s', data)) :
    Spoken c s' := by
  obtain ⟨e, called, drained, emitted, encoded⟩ := level.through_calls room passed
  obtain ⟨v, waiting⟩ := spoken
  obtain ⟨e', v', called', waiting'⟩ := waiting.compEncode_spec [ch]
  rw [called] at called'
  obtain rfl := Except.ok.inj called'
  refine ⟨v', ?_⟩
  rw [emitted, encoded, drained]
  exact waiting'.drain

theorem Spoken.modemCompFlushEncoder (spoken : Spoken c s) (level : CompSource.Level s buf)
    (room : s.Room n) (passed : s.modemCompFlushEncoder n = .ok (s', data)) :
    Spoken c s' ∧ ∃ w, Reads (c.view []) s'.emitted w ∧ w.text = s'.encoded := by
  obtain ⟨e, called, drained, emitted, encoded⟩ := level.through_calls room passed
  obtain ⟨v, waiting⟩ := spoken
  obtain ⟨e', v', called', flushed⟩ := waiting.compFlushEncoder_spec
  rw [called] at called'
  obtain rfl := Except.ok.inj called'
  rw [List.append_nil] at encoded
  constructor
  · refine ⟨v', ?_⟩
    rw [emitted, encoded, drained]
    exact flushed.toWaiting.drain
  · obtain ⟨w, reads, owed⟩ := flushed.paired.link.reads
    have small := flushed.paired.link.small
    rw [flushed.bitLen] at small owed
    have dataZero : e.bitData = 0 := by omega
    rw [dataZero] at owed
    obtain rfl := owed.done
    have said := flushed.paired.said
    rw [flushed.strData, List.append_nil] at said
    refine ⟨v', ?_, said.trans encoded.symm⟩
    rw [emitted]
    exact reads

theorem Spoken.getLoop (spoken : Spoken c s) (level : CompSource.Level s buf)
    (room : buf.length < n → s.Room (n - buf.length)) (queue : List UInt8) {buf' : List UInt8}
    (looped : CompSource.getLoop n s buf queue = .ok (s', buf')) :
    Spoken c s' ∧ (buf'.length < n → s'.queue = []) := by
  induction queue generalizing s buf with
  | nil =>
      obtain ⟨rfl, rfl⟩ := Prod.mk.inj (Except.ok.inj looped)
      exact ⟨spoken, fun _ => rfl⟩
  | cons ch rest ih =>
      rw [CompSource.getLoop] at looped
      by_cases more : buf.length < n
      · rw [if_pos more] at looped
        have taking : CompSource.Level { s with taken := s.taken ++ [ch] } buf :=
          ⟨level.encodes, level.bits, level.inside, level.few, level.output, level.peak⟩
        have spokenTaking : Spoken c { s with taken := s.taken ++ [ch] } := spoken
        obtain ⟨s₁, data, passed, short, drained, level₁, -⟩ :=
          taking.through (room more) [ch] (fun c => CompSource.encode_works c)
        have spoken₁ := spokenTaking.modemCompEncode taking (room more) passed
        unfold CompSource.modemCompEncode at looped
        rw [passed, ok_bind] at looped
        apply ih spoken₁ level₁ _ looped
        intro less
        rw [List.length_append] at less ⊢
        obtain ⟨empty, zero⟩ := drained (by omega)
        unfold CompSource.Room
        rw [empty, zero]
        simp only [List.length_nil]
        omega
      · rw [if_neg more] at looped
        obtain ⟨rfl, rfl⟩ := Prod.mk.inj (Except.ok.inj looped)
        exact ⟨spoken, fun less => absurd less more⟩

theorem Spoken.getChars (spoken : Spoken c s) (level : CompSource.Level s []) (wide : 128 ≤ n)
    (same : s.encoded = s.taken) (got : s.modemCompGetChars n = .ok (s', buf)) :
    Spoken c s' ∧ (buf.length < n → Finished c s') := by
  have room : s.Room n := by
    have few := level.few
    unfold CompSource.Room
    omega
  obtain ⟨s₁, buf₁, looped, level₁, few, room₁, -⟩ :=
    level.getLoop (Nat.zero_le n) (fun _ => room) same s.queue
  obtain ⟨spoken₁, emptied⟩ := spoken.getLoop level (fun _ => room) s.queue looped
  unfold CompSource.modemCompGetChars at got
  rw [looped, ok_bind] at got
  simp only at got
  by_cases more : buf₁.length < n
  · rw [if_pos more] at got
    obtain ⟨s₂, data₂, passed, -, drained, -, -, -, queued, -⟩ :=
      level₁.through (room₁ more) [] CompSource.flush_works
    obtain ⟨spoken₂, said⟩ := spoken₁.modemCompFlushEncoder level₁ (room₁ more) passed
    unfold CompSource.modemCompFlushEncoder at got
    rw [passed, ok_bind] at got
    obtain ⟨rfl, rfl⟩ := Prod.mk.inj (Except.ok.inj got)
    refine ⟨spoken₂, ?_⟩
    intro short
    have total : buf₁.length + data₂.length < n := by
      rw [← List.length_append]
      exact short
    have less : data₂.length < n - buf₁.length := by omega
    exact ⟨queued.trans (emptied more), (drained less).1, said⟩
  · rw [if_neg more] at got
    obtain ⟨rfl, rfl⟩ := Prod.mk.inj (Except.ok.inj got)
    exact ⟨spoken₁, fun less => absurd less more⟩

/-- The last call of the source was answered with fewer bytes than asked for, and nothing
has arrived since. -/
def CompSource.Idle (s : CompSource) : Prop :=
  s.queue = [] ∧ ∃ n buf, s.returned.getLast? = some (n, buf) ∧ buf.length < n

structure Speaks (c : CompState) (s : CompSource) (arrived : List UInt8) : Prop extends
    CompSource.Steady s arrived where
  spoken : Spoken c s
  idle : s.Idle → Finished c s

theorem Speaks.start (dictSize maxStr : Int) (sizeLow : 512 ≤ dictSize)
    (sizeHigh : dictSize ≤ 2048) (strLow : 6 ≤ maxStr) (strHigh : maxStr ≤ 34)
    (initialised : compInit dictSize maxStr = some c) : Speaks c (CompSource.start c) [] := by
  have sound := compInit_sound sizeLow sizeHigh strLow strHigh initialised
  obtain ⟨c', initialised', inStep⟩ := compInit_inStep dictSize maxStr sizeLow sizeHigh strLow
    strHigh
  rw [initialised] at initialised'
  obtain rfl := Option.some.inj initialised'
  obtain ⟨v, waiting⟩ := inStep.waiting
  have fresh : c.bitLen = 0 ∧ c.obuf = [] ∧ c.ohead = 0 := by
    unfold compInit at initialised
    split at initialised
    · cases initialised
    · obtain rfl := Option.some.inj initialised
      exact ⟨rfl, rfl, rfl⟩
  obtain ⟨bits, obuf, ohead⟩ := fresh
  have nothing : (CompSource.start c).emitted = [] ++ c.obuf := obuf.symm
  constructor
  · constructor
    · refine ⟨sound.enc, ?_, ?_, ?_, ?_, Nat.zero_le _⟩
      · change c.bitLen < 8
        omega
      · change c.ohead ≤ c.obuf.length
        omega
      · change c.obuf.length ≤ 122
        rw [obuf]
        decide
      · change [] ++ [] ++ c.obuf.drop c.ohead = []
        rw [obuf, List.drop_nil]
        rfl
    · rfl
    · rfl
    · exact fun _ none => absurd none (by simp [CompSource.start])
  · refine ⟨v, ?_⟩
    rw [nothing]
    exact waiting.drain
  · rintro ⟨-, n, buf, last, -⟩
    cases last

theorem Speaks.arrive {arrived : List UInt8} (speaks : Speaks c s arrived)
    (chars : List UInt8) :
    Speaks c { s with queue := s.queue ++ chars } (arrived ++ chars) := by
  obtain ⟨s', stepped, steady⟩ := speaks.toSteady.step (.arrive chars) (fun n same => by cases same)
  obtain rfl := Except.ok.inj stepped
  have joined : arrivals [.arrive chars] = chars := List.append_nil chars
  rw [joined] at steady
  refine ⟨steady, speaks.spoken, ?_⟩
  rintro ⟨empty, last⟩
  obtain ⟨queue, -⟩ := List.append_eq_nil_iff.mp empty
  have finished := speaks.idle ⟨queue, last⟩
  exact ⟨empty, finished.obuf, finished.said⟩

theorem Speaks.get {arrived : List UInt8} (speaks : Speaks c s arrived) (wide : 128 ≤ n) :
    ∃ s' buf, s.modemCompGetChars n = .ok (s', buf) ∧ buf.length ≤ n ∧
      Speaks c { s' with returned := s'.returned ++ [(n, buf)] } arrived ∧
      s'.returned = s.returned := by
  obtain ⟨s', buf, got, -, few, -, -, returned⟩ :=
    speaks.toLevel.getChars wide speaks.encoded
  obtain ⟨s₂, stepped, steady⟩ := speaks.toSteady.step (.get n)
    (fun m same => by cases same; exact wide)
  rw [CompSource.step, got, ok_bind] at stepped
  obtain rfl := Except.ok.inj stepped
  obtain ⟨spoken, finished⟩ := speaks.spoken.getChars speaks.toLevel wide speaks.encoded got
  have joined : arrived ++ arrivals [.get n] = arrived := List.append_nil arrived
  rw [joined] at steady
  refine ⟨s', buf, got, few, ⟨steady, spoken, ?_⟩, returned⟩
  rintro ⟨-, asked, answer, last, short⟩
  rw [List.getLast?_concat] at last
  obtain ⟨rfl, rfl⟩ := Prod.mk.inj (Option.some.inj last)
  have done := finished short
  exact ⟨done.queue, done.obuf, done.said⟩

theorem Speaks.heard {arrived : List UInt8} (speaks : Speaks c s arrived) {bytes : List UInt8}
    (cut : bytes <+: s.output) :
    ∃ d, c.decodeBytes bytes = .ok d ∧ d.obuf ++ d.strData <+: arrived := by
  have output := speaks.output
  rw [List.append_nil] at output
  have inside : bytes <+: s.emitted := by
    rw [← output]
    exact cut.trans (List.prefix_append _ _)
  obtain ⟨d, decoded, saying⟩ := speaks.spoken.accepted inside
  refine ⟨d, decoded, saying.trans ?_⟩
  rw [speaks.encoded, ← speaks.taken]
  exact List.prefix_append _ _

theorem Speaks.heard_all {arrived : List UInt8} (speaks : Speaks c s arrived) (idle : s.Idle)
    {d : CompState} (decoded : c.decodeBytes s.output = .ok d) :
    d.obuf ++ d.strData = arrived := by
  have finished := speaks.idle idle
  have output := speaks.output
  rw [List.append_nil, finished.obuf, List.drop_nil, List.append_nil] at output
  rw [output] at decoded
  rw [finished.decoded decoded, speaks.encoded, ← speaks.taken, finished.queue, List.append_nil]

theorem Speaks.run {arrived : List UInt8} (speaks : Speaks c s arrived) (calls : List SourceCall)
    (wide : ∀ n, .get n ∈ calls → 128 ≤ n) :
    ∃ s', s.run calls = .ok s' ∧ Speaks c s' (arrived ++ arrivals calls) := by
  induction calls generalizing s arrived with
  | nil =>
      refine ⟨s, rfl, ?_⟩
      rw [arrivals, List.append_nil]
      exact speaks
  | cons call rest ih =>
      have wideRest : ∀ n, .get n ∈ rest → 128 ≤ n := fun n member =>
        wide n (List.mem_cons_of_mem _ member)
      cases call with
      | arrive chars =>
          obtain ⟨s', ran, speaks'⟩ := ih (speaks.arrive chars) wideRest
          rw [List.append_assoc] at speaks'
          exact ⟨s', ran, speaks'⟩
      | get n =>
          obtain ⟨s₁, buf, got, -, speaks₁, -⟩ := speaks.get (wide n List.mem_cons_self)
          obtain ⟨s', ran, speaks'⟩ := ih speaks₁ wideRest
          refine ⟨s', ?_, speaks'⟩
          rw [CompSource.run, CompSource.step, got, ok_bind, ok_bind]
          exact ran

end Source

/-! ### The terminal at the other end -/

section Screen

variable {c : CompState} {r r' : Receiver}

def Receiver.Emptied (r : Receiver) : Prop := r.rest = [] → r.terminal.decoder.strData = []

theorem Terminal.sendOutput_decoder (t : Terminal) (answers : List Nat) :
    (t.sendOutput answers).1.decoder = t.decoder := by
  unfold Terminal.sendOutput
  split
  · simp only
    split
    · rfl
    · rfl
  · rfl

theorem Terminal.flushOutput_strData (t : Terminal) (answers : List Nat)
    (drained : t.decoder.obuf = []) (fresh : t.decoder.ohead = 0)
    (short : t.decoder.strData.length ≤ compMaxString) :
    (t.flushOutput answers).decoder.strData = [] := by
  have flushed := CompState.modemCompFlushDecoder_all drained fresh short
  unfold Terminal.flushOutput
  rw [Terminal.sendOutput_decoder, flushed]
  rfl

theorem Terminal.Linked.putChars_flushes {reference last : CompState} {t t' : Terminal}
    (linked : Terminal.Linked reference t) (data : List UInt8) (answers : List Nat)
    (accepted : reference.decodeBytes data = .ok last)
    (put : t.modemCompPutChars answers data = .ok (t', [])) :
    t'.decoder.strData = [] ∨ data = [] ∧ t'.decoder.strData = t.decoder.strData := by
  obtain ⟨t₁, ready, answers₁, sent, linked₁, same, done⟩ := linked.sendOutput answers
  unfold Terminal.modemCompPutChars at put
  rw [sent] at put
  cases ready with
  | false =>
      obtain ⟨rfl, rfl⟩ := Prod.mk.inj (Except.ok.inj put)
      exact Or.inr ⟨rfl, congrArg CompState.strData same⟩
  | true =>
      left
      obtain ⟨t₂, used, left, answers₂, reference₂, looped, -, -, linked₂⟩ :=
        linked₁.putLoop (done rfl) data answers₁ accepted
      simp only [looped, ok_bind] at put
      by_cases all : left = []
      · rw [if_pos all] at put
        obtain ⟨rfl, -⟩ := Prod.mk.inj (Except.ok.inj put)
        exact t₂.flushOutput_strData answers₂ linked₂.drained linked₂.fresh linked₂.string_short
      · rw [if_neg all] at put
        exact absurd (Prod.mk.inj (Except.ok.inj put)).2 all

theorem Receiver.Emptied.step (emptied : r.Emptied) (inOrder : Receiver.InOrder c r)
    (call : PutCall) {last : CompState}
    (accepted : c.decodeBytes (r.consumed ++ (r.rest ++ call.fresh)) = .ok last)
    (stepped : r.step call = .ok r') : r'.Emptied := by
  obtain ⟨reference, decoded, linked⟩ := inOrder.linked
  rw [CompState.decodeBytes_append, decoded, ok_bind] at accepted
  obtain ⟨⟨t', left⟩, put, result⟩ := bind_eq_ok.mp stepped
  obtain rfl := Except.ok.inj result
  unfold Receiver.Emptied
  simp only
  intro nothing
  subst nothing
  rcases linked.putChars_flushes _ call.answers accepted put with flushed | ⟨empty, same⟩
  · exact flushed
  · rw [same]
    exact emptied (List.append_eq_nil_iff.mp empty).1

theorem Receiver.InOrder.screen (inOrder : Receiver.InOrder c r) {reference : CompState}
    (decoded : c.decodeBytes r.consumed = .ok reference) :
    r.terminal.pty ++ r.terminal.window r.terminal.count ++ r.terminal.decoder.strData =
      reference.obuf ++ reference.strData := by
  obtain ⟨reference', decoded', linked⟩ := inOrder.linked
  rw [decoded] at decoded'
  obtain rfl := Except.ok.inj decoded'
  have text := linked.twin.text_eq
  rw [linked.drained, List.append_nil, List.nil_append] at text
  exact text.symm

structure Hears (c : CompState) (r : Receiver) : Prop extends Receiver.InOrder c r where
  emptied : r.Emptied

theorem Hears.start {dictSize maxStr : Int} (strHigh : maxStr ≤ 34)
    (initialised : compInit dictSize maxStr = some c) : Hears c (Receiver.start c) := by
  refine ⟨Receiver.compInit_inOrder strHigh initialised, ?_⟩
  unfold compInit at initialised
  split at initialised
  · cases initialised
  · obtain rfl := Option.some.inj initialised
    exact fun _ => rfl

theorem Hears.step (hears : Hears c r) (call : PutCall) (calm : r.Calm call) {last : CompState}
    (accepted : c.decodeBytes (r.consumed ++ (r.rest ++ call.fresh)) = .ok last) :
    ∃ r', r.step call = .ok r' ∧ Hears c r' ∧
      r'.consumed ++ r'.rest = r.consumed ++ (r.rest ++ call.fresh) := by
  obtain ⟨r', stepped, inOrder, bytes⟩ := hears.toInOrder.step call calm accepted
  exact ⟨r', stepped, ⟨inOrder, hears.emptied.step hears.toInOrder call accepted stepped⟩, bytes⟩

theorem Hears.run (hears : Hears c r) (calls : List PutCall)
    (calm : ∀ before call after r', calls = before ++ call :: after → r.run before = .ok r' →
      r'.Calm call) {last : CompState}
    (accepted : c.decodeBytes (r.consumed ++ (r.rest ++ offered calls)) = .ok last) :
    ∃ r', r.run calls = .ok r' ∧ Hears c r' ∧
      r'.consumed ++ r'.rest = r.consumed ++ (r.rest ++ offered calls) := by
  induction calls generalizing r with
  | nil => exact ⟨r, rfl, hears, by simp [offered]⟩
  | cons call rest ih =>
      have cut : r.consumed ++ (r.rest ++ offered (call :: rest)) =
          r.consumed ++ (r.rest ++ call.fresh) ++ offered rest := by
        simp [offered]
      have accepted₁ := accepted
      rw [cut, CompState.decodeBytes_append] at accepted₁
      obtain ⟨middle, first, -⟩ := bind_eq_ok.mp accepted₁
      obtain ⟨r₁, stepped, hears₁, bytes₁⟩ := hears.step call (calm [] call rest r rfl rfl) first
      rw [cut, ← bytes₁, List.append_assoc] at accepted
      have later : ∀ before call' after r₂, rest = before ++ call' :: after →
          r₁.run before = .ok r₂ → r₂.Calm call' := by
        intro before call' after r₂ callsEq reached
        apply calm (call :: before) call' after r₂ (by rw [callsEq]; rfl)
        rw [Receiver.run, stepped, ok_bind]
        exact reached
      obtain ⟨r', ran, hears', bytes'⟩ := ih hears₁ later accepted
      refine ⟨r', ?_, hears', ?_⟩
      · rw [Receiver.run, stepped, ok_bind]
        exact ran
      · rw [bytes', cut, ← bytes₁, List.append_assoc]

theorem Hears.shows {s : CompSource} {arrived : List UInt8} (hears : Hears c r)
    (speaks : Speaks c s arrived) (cut : r.consumed <+: s.output) :
    r.terminal.pty <+: arrived := by
  obtain ⟨d, decoded, saying⟩ := speaks.heard cut
  have screen := hears.toInOrder.screen decoded
  calc r.terminal.pty
    _ <+: d.obuf ++ d.strData := by
        rw [← screen, List.append_assoc]
        exact List.prefix_append _ _
    _ <+: arrived := saying

theorem Hears.shows_all {s : CompSource} {arrived : List UInt8} (hears : Hears c r)
    (speaks : Speaks c s arrived) (idle : s.Idle) (whole : r.consumed = s.output)
    (nothing : r.rest = []) (passed : r.terminal.count = 0) : r.terminal.pty = arrived := by
  obtain ⟨d, decoded, -⟩ := speaks.heard (List.prefix_refl s.output)
  rw [← whole] at decoded
  have screen := hears.toInOrder.screen decoded
  rw [hears.emptied nothing, passed, Terminal.window_zero, List.append_nil,
    List.append_nil] at screen
  rw [screen]
  rw [whole] at decoded
  exact speaks.heard_all idle decoded

end Screen

/-- Text through the codec.  For every run of the source and every run of the terminal on a
beginning of its output, however the calls are cut, no call fails and the terminal shows a
beginning of what arrived, if every call of `modem_comp_put_chars` is calm: its flush finds
nothing waiting for the pty, or no open string.  It shows all of it once the source has
answered a call with fewer bytes than asked for, and the terminal has consumed them and
passed them on. -/
theorem compressed_path_intact (dictSize maxStr : Int) (sizeLow : 512 ≤ dictSize)
    (sizeHigh : dictSize ≤ 2048) (strLow : 6 ≤ maxStr) (strHigh : maxStr ≤ 34) (c : CompState)
    (initialised : compInit dictSize maxStr = some c) (calls : List SourceCall)
    (wide : ∀ n, .get n ∈ calls → 128 ≤ n) :
    ∃ s, (CompSource.start c).run calls = .ok s ∧
      ∀ puts, offered puts <+: s.output →
        (∀ before call after r, puts = before ++ call :: after →
          (Receiver.start c).run before = .ok r → r.Calm call) →
        ∃ r, (Receiver.start c).run puts = .ok r ∧ r.terminal.pty <+: arrivals calls ∧
          (s.Idle → offered puts = s.output → r.rest = [] → r.terminal.count = 0 →
            r.terminal.pty = arrivals calls) := by
  have starting := Speaks.start dictSize maxStr sizeLow sizeHigh strLow strHigh initialised
  obtain ⟨s, ran, speaks⟩ := starting.run calls wide
  rw [List.nil_append] at speaks
  refine ⟨s, ran, ?_⟩
  intro puts cut calm
  have hearing := Hears.start strHigh initialised
  obtain ⟨d, decoded, -⟩ := speaks.heard cut
  obtain ⟨r, heard, hears, bytes⟩ := hearing.run puts calm decoded
  have consumed : r.consumed ++ r.rest = offered puts := bytes
  refine ⟨r, heard, ?_, ?_⟩
  · apply hears.shows speaks
    apply List.IsPrefix.trans _ cut
    rw [← consumed]
    exact List.prefix_append _ _
  · intro idle whole nothing passed
    apply hears.shows_all speaks idle _ nothing passed
    rw [← whole, ← consumed, nothing, List.append_nil]

/-- Two characters, at a terminal that takes everything. -/
theorem compressed_path_intact_of_two_chars :
    ∃ r, (Receiver.start (dictInit (compAlloc 512 6))).run
      [{ fresh := [97, 98], answers := [1, 1] }] = .ok r ∧ r.terminal.pty = [97, 98] := by
  obtain ⟨s, ran, heard⟩ := compressed_path_intact 512 6 (by decide) (by decide) (by decide)
    (by decide) (dictInit (compAlloc 512 6)) rfl [.arrive [97, 98], .get 128]
    (fun n member => by simp at member; omega)
  have output : ((CompSource.start (dictInit (compAlloc 512 6))).run
      [.arrive [97, 98], .get 128]).map CompSource.returned = .ok [(128, [97, 98])] := rfl
  rw [ran] at output
  have returned : s.returned = [(128, [97, 98])] := Except.ok.inj output
  have outputEq : s.output = [97, 98] := by
    unfold CompSource.output
    rw [returned]
    rfl
  obtain ⟨r, received, -, complete⟩ := heard [{ fresh := [97, 98], answers := [1, 1] }]
    (by rw [outputEq]; exact List.prefix_refl _)
    (by
      intro before call after r callsEq reached
      cases before with
      | cons first rest => simp at callsEq
      | nil =>
          obtain rfl := (List.cons.inj callsEq).1
          obtain rfl := Except.ok.inj reached
          intro t answers t' answers' sent looped
          obtain ⟨rfl, rest⟩ := Prod.mk.inj sent
          obtain ⟨-, rfl⟩ := Prod.mk.inj rest
          have count : ((Terminal.start (dictInit (compAlloc 512 6))).putLoop [1, 1] [97, 98]).map
              (fun result => result.1.count) = .ok 0 := rfl
          change (Terminal.start (dictInit (compAlloc 512 6))).putLoop [1, 1] [97, 98] = _
            at looped
          rw [looped] at count
          exact Or.inl (Except.ok.inj count))
  refine ⟨r, received, ?_⟩
  have final : ((Receiver.start (dictInit (compAlloc 512 6))).run
      [{ fresh := [97, 98], answers := [1, 1] }]).map
        (fun r => (r.rest, r.terminal.count)) = .ok ([], 0) := rfl
  rw [received] at final
  obtain ⟨nothing, passed⟩ := Prod.mk.inj (Except.ok.inj final)
  have queue : ((CompSource.start (dictInit (compAlloc 512 6))).run
      [.arrive [97, 98], .get 128]).map CompSource.queue = .ok [] := rfl
  rw [ran] at queue
  apply complete ⟨Except.ok.inj queue, 128, [97, 98], by rw [returned]; rfl, by decide⟩
    (by rw [outputEq]; rfl) nothing passed

end DModem.Comp
