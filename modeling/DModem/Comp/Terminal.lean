/-
From the decoder to the terminal: `comp_send_output` and `modem_comp_put_chars` of
`modem.c`.

The decoder's output goes through `comp.buf[head..head+count)` to the pty, which
may take any number of the bytes it is offered.  The flush at the end of
`modem_comp_put_chars` writes to the start of `comp.buf` also when bytes are still
waiting there.  A decoder error ends the model: the state it leaves behind is not
described.
-/

import DModem.Comp.Flush

namespace DModem.Comp

namespace CompState

/-- `get_odata`. -/
def getOdata (c : CompState) (n : Nat) : CompState × List UInt8 :=
  if c.obuf.length > 0 then
    let ret := min (c.obuf.length - c.ohead) n
    let data := (c.obuf.drop c.ohead).take ret
    if c.ohead + ret = c.obuf.length then ({ c with ohead := 0, obuf := [] }, data)
    else ({ c with ohead := c.ohead + ret }, data)
  else (c, [])

/-- `modem_comp_decode`. -/
def modemCompDecode (c : CompState) (ch : UInt8) (n : Nat) :
    Except Fault (CompState × List UInt8) :=
  let held := c.getOdata n
  if held.2.length = n then .ok held
  else do
    let c ← held.1.compDecode [ch]
    let more := c.getOdata (n - held.2.length)
    .ok (more.1, held.2 ++ more.2)

/-- `modem_comp_flush_decoder`. -/
def modemCompFlushDecoder (c : CompState) (n : Nat) : CompState × List UInt8 :=
  let held := c.getOdata n
  if held.2.length = n then held
  else
    let more := held.1.compFlushDecoder.getOdata (n - held.2.length)
    (more.1, held.2 ++ more.2)

/-- The decoder fed byte by byte, never flushed and never drained. -/
def decodeBytes : CompState → List UInt8 → Except Fault CompState
  | c, [] => .ok c
  | c, b :: rest => do
      let c ← c.compDecode [b]
      c.decodeBytes rest

end CompState

/-- `sizeof(m->comp.buf)`. -/
def compBufSize : Nat := 256

/-- The receive half of `struct comp_struct`, with everything the pty has taken. -/
structure Terminal where
  head : Nat
  count : Nat
  buf : Nat → UInt8
  decoder : CompState
  pty : List UInt8

namespace Terminal

def start (c : CompState) : Terminal :=
  { head := 0
    count := 0
    buf := fun _ => 0
    decoder := c
    pty := [] }

/-- `comp.buf[head..head+len)`. -/
def window (t : Terminal) (len : Nat) : List UInt8 :=
  (List.range len).map (fun i => t.buf (t.head + i))

/-- A decoder call that writes its output to the start of `comp.buf`. -/
def store (t : Terminal) (decoder : CompState) (data : List UInt8) : Terminal :=
  { t with
    decoder := decoder
    buf := fun i => data.getD i (t.buf i)
    count := t.count + data.length }

/-- `comp_send_output`.  The list holds what the pty accepts of each write; a
failed write and an exhausted list accept nothing.  The flag is the returned
value. -/
def sendOutput (t : Terminal) (answers : List Nat) : Terminal × Bool × List Nat :=
  if t.count > 0 then
    let cnt := min (answers.headD 0) t.count
    let t := { t with
      pty := t.pty ++ t.window cnt
      count := t.count - cnt
      head := t.head + cnt }
    if t.count > 0 then (t, false, answers.tail)
    else ({ t with head := 0 }, true, answers.tail)
  else (t, true, answers)

/-- The `while` of `modem_comp_put_chars`; the result holds the bytes that were
not consumed. -/
def putLoop : Terminal → List Nat → List UInt8 → Except Fault (Terminal × List UInt8 × List Nat)
  | t, answers, [] => .ok (t, [], answers)
  | t, answers, b :: rest => do
      let (decoder, data) ← t.decoder.modemCompDecode b compBufSize
      match (t.store decoder data).sendOutput answers with
      | (t, true, answers) => t.putLoop answers rest
      | (t, false, answers) => .ok (t, rest, answers)

/-- The flush at the end of `modem_comp_put_chars`. -/
def flushOutput (t : Terminal) (answers : List Nat) : Terminal :=
  let flushed := t.decoder.modemCompFlushDecoder compBufSize
  ((t.store flushed.1 flushed.2).sendOutput answers).1

/-- `modem_comp_put_chars`. -/
def modemCompPutChars (t : Terminal) (answers : List Nat) (data : List UInt8) :
    Except Fault (Terminal × List UInt8) :=
  match t.sendOutput answers with
  | (t, false, _) => .ok (t, data)
  | (t, true, answers) => do
      let (t, left, answers) ← t.putLoop answers data
      if left = [] then .ok (t.flushOutput answers, []) else .ok (t, left)

end Terminal

/-- A terminal, the bytes it has not consumed yet, and those it has. -/
structure Receiver where
  terminal : Terminal
  rest : List UInt8
  consumed : List UInt8

/-- A call: the new bytes, and what the pty accepts of each write. -/
structure PutCall where
  fresh : List UInt8
  answers : List Nat

namespace Receiver

def start (c : CompState) : Receiver :=
  { terminal := .start c
    rest := []
    consumed := [] }

/-- Bytes that were not consumed are offered again first. -/
def step (r : Receiver) (call : PutCall) : Except Fault Receiver := do
  let data := r.rest ++ call.fresh
  let (terminal, left) ← r.terminal.modemCompPutChars call.answers data
  .ok { terminal := terminal
        rest := left
        consumed := r.consumed ++ data.take (data.length - left.length) }

def run : Receiver → List PutCall → Except Fault Receiver
  | r, [] => .ok r
  | r, call :: rest => do
      let r ← r.step call
      r.run rest

/-- Nothing is lost, repeated or reordered: what the pty took, what waits for it
and what the decoder holds are together what a decoder says of the consumed
bytes. -/
def Intact (c : CompState) (r : Receiver) : Prop :=
  ∃ reference, c.decodeBytes r.consumed = .ok reference ∧
    r.terminal.pty ++ r.terminal.window r.terminal.count ++
      (r.terminal.decoder.obuf.drop r.terminal.decoder.ohead ++ r.terminal.decoder.strData) =
        reference.obuf ++ reference.strData

/-- The flush of this call does not find bytes waiting while the decoder holds
characters. -/
def Calm (r : Receiver) (call : PutCall) : Prop :=
  ∀ t answers t' answers', r.terminal.sendOutput call.answers = (t, true, answers) →
    t.putLoop answers (r.rest ++ call.fresh) = .ok (t', [], answers') →
    t'.count = 0 ∨ t'.decoder.strData = []

end Receiver

/-! ### One decoder call -/

namespace CompState

theorem getOdata_all {c : CompState} {n : Nat} (fresh : c.ohead = 0) (fits : c.obuf.length ≤ n) :
    c.getOdata n = (c.drain, c.obuf) := by
  unfold getOdata
  by_cases some : c.obuf.length > 0
  · rw [if_pos some, fresh]
    have all : min (c.obuf.length - 0) n = c.obuf.length := by omega
    simp only [all, Nat.zero_add, if_true, List.drop_zero, List.take_length]
    rfl
  · have empty : c.obuf = [] := List.eq_nil_of_length_eq_zero (by omega)
    rw [if_neg some, empty]
    have same : c.drain = c := by
      unfold drain
      cases c
      simp only at fresh empty
      rw [fresh, empty]
    rw [same]

theorem modemCompDecode_all {c c' : CompState} {b : UInt8} (drained : c.obuf = [])
    (fresh : c.ohead = 0) (held : c.strData.length ≤ compMaxString)
    (decoded : c.compDecode [b] = .ok c') :
    c.modemCompDecode b compBufSize = .ok (c'.drain, c'.obuf) := by
  obtain ⟨oheadEq, length⟩ := decodeLoop_grew _ decoded
  have fits : c'.obuf.length ≤ compBufSize := by
    rw [drained, List.length_nil] at length
    simp only [compMaxString, List.length_singleton] at length held
    simp only [compBufSize]
    omega
  have first : c.getOdata compBufSize = (c, []) := by
    unfold getOdata
    rw [drained]
    exact if_neg (by decide)
  unfold modemCompDecode
  simp only [first, List.length_nil]
  rw [if_neg (by decide), decoded, ok_bind, Nat.sub_zero,
    getOdata_all (oheadEq.trans fresh) fits]
  rfl

theorem modemCompFlushDecoder_all {c : CompState} (drained : c.obuf = []) (fresh : c.ohead = 0)
    (held : c.strData.length ≤ compMaxString) :
    c.modemCompFlushDecoder compBufSize = (c.compFlushDecoder.drain, c.strData) := by
  have first : c.getOdata compBufSize = (c, []) := by
    unfold getOdata
    rw [drained]
    exact if_neg (by decide)
  have obufEq : c.compFlushDecoder.obuf = c.strData := by
    simp [compFlushDecoder, sendString, drained]
  have fits : c.compFlushDecoder.obuf.length ≤ compBufSize := by
    rw [obufEq]
    exact Nat.le_trans held (by decide)
  unfold modemCompFlushDecoder
  simp only [first, List.length_nil]
  rw [if_neg (by decide), Nat.sub_zero,
    getOdata_all (show c.compFlushDecoder.ohead = 0 from fresh) fits, obufEq]
  rfl

theorem decodeBytes_append (c : CompState) (first second : List UInt8) :
    c.decodeBytes (first ++ second) = (do let c' ← c.decodeBytes first; c'.decodeBytes second) := by
  induction first generalizing c with
  | nil => rfl
  | cons b rest ih =>
      simp only [List.cons_append, decodeBytes]
      cases c.compDecode [b] with
      | error fault => rfl
      | ok c' => exact ih c'

end CompState

/-! ### The output buffer -/

namespace Terminal

variable {t t' : Terminal}

theorem window_zero (t : Terminal) : t.window 0 = [] := rfl

theorem window_split (t : Terminal) (first second : Nat) :
    t.window (first + second) =
      t.window first ++ ({ t with head := t.head + first } : Terminal).window second := by
  unfold window
  rw [List.range_add, List.map_append, List.map_map]
  simp only [Function.comp_def, Nat.add_assoc]

theorem window_store (t : Terminal) (decoder : CompState) (data : List UInt8)
    (fresh : t.head = 0) : (t.store decoder data).window data.length = data := by
  unfold window store
  simp only [fresh, Nat.zero_add]
  apply List.ext_getElem
  · simp
  · intro i _ inside
    simp [List.getD_eq_getElem?_getD, List.getElem?_eq_getElem inside]

theorem store_nil (t : Terminal) (decoder : CompState) :
    t.store decoder [] = { t with decoder := decoder } := rfl

/-- `comp_send_output` moves bytes from the buffer to the pty. -/
theorem sendOutput_spec (t : Terminal) (answers : List Nat) (resting : t.count = 0 → t.head = 0) :
    ∃ t' ready answers', t.sendOutput answers = (t', ready, answers') ∧
      t'.pty ++ t'.window t'.count = t.pty ++ t.window t.count ∧ t'.decoder = t.decoder ∧
      (t'.count = 0 → t'.head = 0) ∧ (ready = true → t'.count = 0) := by
  unfold sendOutput
  by_cases some : t.count > 0
  · rw [if_pos some]
    have split : t.window t.count = t.window (min (answers.headD 0) t.count) ++
        ({ t with head := t.head + min (answers.headD 0) t.count } : Terminal).window
          (t.count - min (answers.headD 0) t.count) := by
      rw [← window_split]
      congr 1
      omega
    by_cases left : t.count - min (answers.headD 0) t.count > 0
    · refine ⟨_, _, _, if_pos left, ?_, rfl, ?_, ?_⟩
      · rw [split, ← List.append_assoc]
        rfl
      · intro none
        exact absurd none (Nat.pos_iff_ne_zero.mp left)
      · intro impossible
        cases impossible
    · refine ⟨_, _, _, if_neg left, ?_, rfl, fun _ => rfl, ?_⟩
      · have none : t.count - min (answers.headD 0) t.count = 0 := by omega
        simp only [split, none, window_zero, List.append_nil]
      · intro _
        change t.count - min (answers.headD 0) t.count = 0
        omega
  · rw [if_neg some]
    exact ⟨t, true, answers, rfl, rfl, rfl, resting, fun _ => by omega⟩

/-- The terminal holds exactly what the reference decoder has said and the pty has
not taken. -/
structure Linked (reference : CompState) (t : Terminal) : Prop where
  twin : CompState.Twin [] reference (t.pty ++ t.window t.count) t.decoder
  held : reference.Held
  drained : t.decoder.obuf = []
  fresh : t.decoder.ohead = 0
  resting : t.count = 0 → t.head = 0

variable {reference : CompState}

theorem Linked.string_short (linked : Linked reference t) :
    t.decoder.strData.length ≤ compMaxString := by
  have fits := linked.held.fits
  have short := linked.held.short
  have total := linked.twin.total_eq
  omega

theorem Linked.sendOutput (linked : Linked reference t) (answers : List Nat) :
    ∃ t' ready answers', t.sendOutput answers = (t', ready, answers') ∧ Linked reference t' ∧
      t'.decoder = t.decoder ∧ (ready = true → t'.count = 0) := by
  obtain ⟨t', ready, answers', sent, bytes, decoderEq, resting, done⟩ :=
    sendOutput_spec t answers linked.resting
  refine ⟨t', ready, answers', sent, ⟨?_, linked.held, ?_, ?_, resting⟩, decoderEq, done⟩
  · rw [bytes, decoderEq]
    exact linked.twin
  · rw [decoderEq]
    exact linked.drained
  · rw [decoderEq]
    exact linked.fresh

theorem linked_store {decoder : CompState} (twin : CompState.Twin [] reference t.pty decoder)
    (held : reference.Held) (empty : t.count = 0) (resting : t.head = 0) :
    Linked reference (t.store decoder.drain decoder.obuf) := by
  have count : (t.store decoder.drain decoder.obuf).count = decoder.obuf.length := by
    change t.count + _ = _
    rw [empty, Nat.zero_add]
  refine ⟨?_, held, rfl, rfl, fun _ => resting⟩
  rw [count, window_store t _ _ resting]
  exact twin.drain

theorem Linked.putLoop (linked : Linked reference t) (empty : t.count = 0) (data : List UInt8)
    (answers : List Nat) {last : CompState} (accepted : reference.decodeBytes data = .ok last) :
    ∃ t' used left answers' reference', t.putLoop answers data = .ok (t', left, answers') ∧
      data = used ++ left ∧ reference.decodeBytes used = .ok reference' ∧
      Linked reference' t' := by
  induction data generalizing t reference answers with
  | nil => exact ⟨t, [], [], answers, reference, rfl, rfl, rfl, linked⟩
  | cons b rest ih =>
      rw [CompState.decodeBytes] at accepted
      obtain ⟨reference₁, decoded, later⟩ := bind_eq_ok.mp accepted
      have twin := linked.twin
      rw [empty, window_zero, List.append_nil] at twin
      obtain ⟨decoder, decoded₂, twin₁, held₁⟩ := twin.compDecode linked.held decoded
      have answered := CompState.modemCompDecode_all linked.drained linked.fresh
        linked.string_short decoded₂
      have linked₁ : Linked reference₁ (t.store decoder.drain decoder.obuf) :=
        linked_store twin₁ held₁ empty (linked.resting empty)
      obtain ⟨t₂, ready, answers₂, sent, linked₂, _, done⟩ := linked₁.sendOutput answers
      rw [Terminal.putLoop, answered, ok_bind]
      simp only [sent]
      cases ready with
      | true =>
          obtain ⟨t', used, left, answers', reference', looped, cut, consumed, linked'⟩ :=
            ih linked₂ (done rfl) answers₂ later
          refine ⟨t', b :: used, left, answers', reference', looped, by rw [cut]; rfl, ?_,
            linked'⟩
          rw [CompState.decodeBytes, decoded, ok_bind, consumed]
      | false =>
          refine ⟨t₂, [b], rest, answers₂, reference₁, rfl, rfl, ?_, linked₂⟩
          rw [CompState.decodeBytes, decoded]
          rfl

theorem Linked.flushOutput (linked : Linked reference t) (answers : List Nat)
    (calm : t.count = 0 ∨ t.decoder.strData = []) : Linked reference (t.flushOutput answers) := by
  have flushed := CompState.modemCompFlushDecoder_all linked.drained linked.fresh
    linked.string_short
  have stored : Linked reference
      (t.store t.decoder.compFlushDecoder.drain t.decoder.strData) := by
    have obufEq : t.decoder.compFlushDecoder.obuf = t.decoder.strData := by
      simp [CompState.compFlushDecoder, CompState.sendString, linked.drained]
    rcases calm with empty | nothing
    · have twin := linked.twin
      rw [empty, window_zero, List.append_nil] at twin
      have stored := linked_store twin.flush linked.held empty (linked.resting empty)
      rwa [obufEq] at stored
    · have twin := linked.twin.flush.drain
      rw [obufEq, nothing, List.append_nil] at twin
      rw [nothing, store_nil]
      exact ⟨twin, linked.held, rfl, rfl, linked.resting⟩
  obtain ⟨t', ready, answers', sent, linked', _⟩ := stored.sendOutput answers
  unfold Terminal.flushOutput
  simp only [flushed, sent]
  exact linked'

/-- `modem_comp_put_chars` on a stream that the decoder accepts. -/
theorem Linked.putChars (linked : Linked reference t) (data : List UInt8) (answers : List Nat)
    {last : CompState} (accepted : reference.decodeBytes data = .ok last)
    (calm : ∀ t₁ answers₁ t₂ answers₂, t.sendOutput answers = (t₁, true, answers₁) →
      t₁.putLoop answers₁ data = .ok (t₂, [], answers₂) →
      t₂.count = 0 ∨ t₂.decoder.strData = []) :
    ∃ t' used left reference', t.modemCompPutChars answers data = .ok (t', left) ∧
      data = used ++ left ∧ reference.decodeBytes used = .ok reference' ∧
      Linked reference' t' := by
  obtain ⟨t₁, ready, answers₁, sent, linked₁, _, done⟩ := linked.sendOutput answers
  unfold modemCompPutChars
  rw [sent]
  cases ready with
  | false => exact ⟨t₁, [], data, reference, rfl, rfl, rfl, linked₁⟩
  | true =>
      obtain ⟨t₂, used, left, answers₂, reference', looped, cut, consumed, linked₂⟩ :=
        linked₁.putLoop (done rfl) data answers₁ accepted
      simp only [looped, ok_bind]
      by_cases all : left = []
      · subst all
        rw [if_pos rfl]
        exact ⟨_, used, [], reference', rfl, cut, consumed,
          linked₂.flushOutput answers₂ (calm t₁ answers₁ t₂ answers₂ sent looped)⟩
      · rw [if_neg all]
        exact ⟨t₂, used, left, reference', rfl, cut, consumed, linked₂⟩

end Terminal

/-! ### Runs -/

/-- The new bytes of a list of calls. -/
def offered (calls : List PutCall) : List UInt8 := (calls.map PutCall.fresh).flatten

namespace Receiver

open Terminal

variable {c : CompState} {r : Receiver}

structure InOrder (c : CompState) (r : Receiver) : Prop where
  linked : ∃ reference, c.decodeBytes r.consumed = .ok reference ∧ Linked reference r.terminal

theorem InOrder.intact (inOrder : InOrder c r) : Intact c r := by
  obtain ⟨reference, decoded, linked⟩ := inOrder.linked
  refine ⟨reference, decoded, ?_⟩
  have text := linked.twin.text_eq
  rw [linked.drained] at text ⊢
  simpa using text.symm

theorem InOrder.step (inOrder : InOrder c r) (call : PutCall) (calm : r.Calm call)
    {last : CompState}
    (accepted : c.decodeBytes (r.consumed ++ (r.rest ++ call.fresh)) = .ok last) :
    ∃ r', r.step call = .ok r' ∧ InOrder c r' ∧
      r'.consumed ++ r'.rest = r.consumed ++ (r.rest ++ call.fresh) := by
  obtain ⟨reference, decoded, linked⟩ := inOrder.linked
  rw [CompState.decodeBytes_append, decoded, ok_bind] at accepted
  obtain ⟨t', used, left, reference', put, cut, consumed, linked'⟩ :=
    linked.putChars (r.rest ++ call.fresh) call.answers accepted calm
  have taken : (r.rest ++ call.fresh).take ((r.rest ++ call.fresh).length - left.length) = used := by
    rw [cut, List.length_append, Nat.add_sub_cancel, List.take_left]
  refine ⟨{ terminal := t', rest := left, consumed := r.consumed ++ used }, ?_, ⟨reference', ?_,
    linked'⟩, ?_⟩
  · simp only [Receiver.step, put, ok_bind, taken]
  · rw [CompState.decodeBytes_append, decoded, ok_bind, consumed]
  · rw [cut, List.append_assoc]

theorem InOrder.run (inOrder : InOrder c r) (calls : List PutCall)
    (calm : ∀ before call after r', calls = before ++ call :: after → r.run before = .ok r' →
      r'.Calm call) {last : CompState}
    (accepted : c.decodeBytes (r.consumed ++ (r.rest ++ offered calls)) = .ok last) :
    ∃ r', r.run calls = .ok r' ∧ InOrder c r' ∧
      r'.consumed ++ r'.rest = r.consumed ++ (r.rest ++ offered calls) := by
  induction calls generalizing r with
  | nil => exact ⟨r, rfl, inOrder, by simp [offered]⟩
  | cons call rest ih =>
      have cut : r.consumed ++ (r.rest ++ offered (call :: rest)) =
          r.consumed ++ (r.rest ++ call.fresh) ++ offered rest := by
        simp [offered]
      have accepted₁ := accepted
      rw [cut, CompState.decodeBytes_append] at accepted₁
      obtain ⟨middle, first, _⟩ := bind_eq_ok.mp accepted₁
      obtain ⟨r₁, stepped, inOrder₁, bytes₁⟩ :=
        inOrder.step call (calm [] call rest r rfl rfl) first
      rw [cut, ← bytes₁, List.append_assoc] at accepted
      obtain ⟨r', ran, inOrder', bytes'⟩ := ih inOrder₁
        (by
          intro before call' after r₂ callsEq reached
          apply calm (call :: before) call' after r₂ (by rw [callsEq]; rfl)
          rw [Receiver.run, stepped, ok_bind]
          exact reached) accepted
      refine ⟨r', ?_, inOrder', ?_⟩
      · rw [Receiver.run, stepped, ok_bind]
        exact ran
      · rw [bytes', cut, ← bytes₁, List.append_assoc]

theorem compInit_inOrder {dictSize maxStr : Int} (strHigh : maxStr ≤ 34)
    (initialised : compInit dictSize maxStr = some c) : InOrder c (Receiver.start c) := by
  unfold compInit at initialised
  split at initialised
  · cases initialised
  · rename_i accepted
    obtain rfl := Option.some.inj initialised
    simp only [minStrSize] at accepted
    refine ⟨⟨_, rfl, .refl [] _, ⟨?_, ?_, fun _ => rfl⟩, rfl, rfl, fun _ => rfl⟩⟩
    · change maxStr.toNat ≤ compMaxString
      simp only [compMaxString]
      omega
    · change 0 < maxStr.toNat
      omega

end Receiver

/-- On a stream that the decoder accepts, a run in which every call is calm keeps
the terminal intact in every state it reaches. -/
theorem receiver_intact_of_calm (dictSize maxStr : Int) (c : CompState) (strHigh : maxStr ≤ 34)
    (initialised : compInit dictSize maxStr = some c) (calls : List PutCall) (last : CompState)
    (accepted : c.decodeBytes (offered calls) = .ok last)
    (calm : ∀ before call after r, calls = before ++ call :: after →
      (Receiver.start c).run before = .ok r → r.Calm call) :
    ∀ before, before <+: calls → ∃ r, (Receiver.start c).run before = .ok r ∧ r.Intact c := by
  intro before cut
  obtain ⟨after, whole⟩ := cut
  have inOrder := Receiver.compInit_inOrder strHigh initialised
  have offeredEq : offered calls = offered before ++ offered after := by
    rw [← whole]
    simp [offered]
  rw [offeredEq, CompState.decodeBytes_append] at accepted
  obtain ⟨middle, first, _⟩ := bind_eq_ok.mp accepted
  obtain ⟨r, ran, inOrder', _⟩ := inOrder.run before
    (by
      intro earlier call later r' beforeEq reached
      apply calm earlier call (later ++ after) r' _ reached
      rw [← whole, beforeEq, List.append_assoc]
      rfl) first
  exact ⟨r, ran, inOrder'.intact⟩

namespace Receiver

instance (r : Receiver) (call : PutCall) : Decidable (r.Calm call) :=
  match sent : r.terminal.sendOutput call.answers with
  | (_, false, _) =>
      isTrue (by
        intro t answers t' answers' through
        rw [sent] at through
        cases through)
  | (t, true, answers) =>
      match looped : t.putLoop answers (r.rest ++ call.fresh) with
      | .ok (t', [], _) =>
          decidable_of_iff (t'.count = 0 ∨ t'.decoder.strData = []) (by
            constructor
            · intro quiet t₁ answers₁ t₂ answers₂ through done
              rw [sent] at through
              cases through
              rw [looped] at done
              cases done
              exact quiet
            · intro calm
              exact calm t answers t' _ sent looped)
      | .ok (_, _ :: _, _) =>
          isTrue (by
            intro t₁ answers₁ t₂ answers₂ through done
            rw [sent] at through
            cases through
            rw [looped] at done
            cases done)
      | .error _ =>
          isTrue (by
            intro t₁ answers₁ t₂ answers₂ through done
            rw [sent] at through
            cases through
            rw [looped] at done
            cases done)

end Receiver

def refusedCall : PutCall :=
  { fresh := [97, 98, 99]
    answers := [0] }

def repeatedCall : PutCall :=
  { fresh := []
    answers := [1, 1, 1] }

/-- The refused character waits, the byte after it is left over, and both go out in the next
call. -/
theorem receiver_intact_of_refusal :
    ∃ r r', (Receiver.start (dictInit (compAlloc 512 6))).run [refusedCall] = .ok r ∧
      r.Intact (dictInit (compAlloc 512 6)) ∧ r.terminal.count = 1 ∧ r.rest = [99] ∧
      (Receiver.start (dictInit (compAlloc 512 6))).run [refusedCall, repeatedCall] = .ok r' ∧
      r'.Intact (dictInit (compAlloc 512 6)) ∧ r'.terminal.pty = [97, 98, 99] := by
  have calm : metAlong Receiver.step Receiver.Calm (Receiver.start (dictInit (compAlloc 512 6)))
      [refusedCall, repeatedCall] = true := by decide +kernel
  have intact := receiver_intact_of_calm 512 6 (dictInit (compAlloc 512 6)) (by decide) rfl
    [refusedCall, repeatedCall] _ rfl (met_along (fun _ => rfl) (fun _ _ _ => rfl) calm)
  obtain ⟨r, ran, held⟩ := intact [refusedCall] (List.prefix_append [refusedCall] [repeatedCall])
  obtain ⟨r', ran', held'⟩ := intact _ (List.prefix_refl _)
  have waiting : ((Receiver.start (dictInit (compAlloc 512 6))).run [refusedCall]).map
      (fun r => (r.terminal.count, r.rest)) = .ok (1, [99]) := by decide +kernel
  have shown : ((Receiver.start (dictInit (compAlloc 512 6))).run
      [refusedCall, repeatedCall]).map (fun r => r.terminal.pty) = .ok [97, 98, 99] := by
    decide +kernel
  rw [ran] at waiting
  rw [ran'] at shown
  obtain ⟨count, rest⟩ := Prod.mk.inj (Except.ok.inj waiting)
  exact ⟨r, r', ran, held, count, rest, ran', held', Except.ok.inj shown⟩

/-- A short write on the last byte of a call: the flushed character lands on the
one that waits. -/
theorem receiver_not_intact :
    ¬∀ (dictSize maxStr : Int) (c : CompState), maxStr ≤ 34 → compInit dictSize maxStr = some c →
      ∀ calls last, c.decodeBytes (offered calls) = .ok last →
        ∃ r, (Receiver.start c).run calls = .ok r ∧ r.Intact c := by
  intro all
  obtain ⟨r, ran, reference, decoded, intact⟩ := all 512 6 (dictInit (compAlloc 512 6))
    (by decide) rfl [{ fresh := [97, 98], answers := [0] }] _ rfl
  obtain rfl := Except.ok.inj ran
  obtain rfl := Except.ok.inj decoded
  exact absurd intact (by decide)

end DModem.Comp
