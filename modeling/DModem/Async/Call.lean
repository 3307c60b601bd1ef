/-
A call without error correction, from the terminal that types to the other terminal.

What `modem_write` accepts waits in the `xmit` queue, the asynchronous packer takes it from
there through `modem_get_chars`, and at the far end every character of the line is given to
`put_chars`.
-/

import DModem.Async.RoundTrip
import DModem.Modem.Xmit

namespace DModem.Async

open DModem.Hdlc (BitsState symbolBits)
open DModem.Modem (XmitQueue)

/-! ### Any source of characters -/

section Source

variable {σ : Type} {getChars : σ → Option UInt8 × σ}

inductive Gives (getChars : σ → Option UInt8 × σ) : σ → List (Option UInt8) → σ → Prop where
  | nil (queue : σ) : Gives getChars queue [] queue
  | cons {queue queue' : σ} {given : List (Option UInt8)}
      (later : Gives getChars (getChars queue).2 given queue') :
      Gives getChars queue ((getChars queue).1 :: given) queue'

theorem Gives.append {queue queue₁ queue' : σ} {given more : List (Option UInt8)}
    (first : Gives getChars queue given queue₁) (second : Gives getChars queue₁ more queue') :
    Gives getChars queue (given ++ more) queue' := by
  induction first with
  | nil queue => exact second
  | cons later ih => exact .cons (ih second)

/-- The answers that are numbered from `asked` on begin with `given`. -/
def Agrees (answers : Nat → Option UInt8) (asked : Nat) (given : List (Option UInt8)) : Prop :=
  ∀ i (inside : i < given.length), answers (asked + i) = given[i]

theorem Agrees.append {answers : Nat → Option UInt8} {asked : Nat}
    {given more : List (Option UInt8)} (agrees : Agrees answers asked (given ++ more)) :
    Agrees answers asked given ∧ Agrees answers (asked + given.length) more := by
  constructor
  · intro i inside
    have here := agrees i (by rw [List.length_append]; omega)
    rwa [List.getElem_append_left inside] at here
  · intro i inside
    have here := agrees (given.length + i) (by rw [List.length_append]; omega)
    rw [List.getElem_append_right (by omega)] at here
    simpa [Nat.add_assoc] using here

theorem fill_gives (getChars : σ → Option UInt8 × σ) (nbits rounds : Nat) (s : BitsState)
    (queue : σ) :
    ∃ given, Gives getChars queue given (fill getChars nbits rounds s queue).2 ∧
      ∀ answers asked, Agrees answers asked given →
        fill (fetch answers) nbits rounds s asked =
          ((fill getChars nbits rounds s queue).1, asked + given.length) := by
  induction rounds generalizing s queue with
  | zero => exact ⟨[], .nil queue, fun _ _ _ => rfl⟩
  | succ rounds ih =>
      by_cases full : nbits ≤ s.bit
      · refine ⟨[], ?_, ?_⟩
        · rw [fill_full _ full]
          exact .nil queue
        · intro answers asked _
          rw [fill_full _ full, fill_full _ full]
          rfl
      · cases answer : (getChars queue).1 with
        | none =>
            have stays : fill getChars nbits (rounds + 1) s queue = (s, (getChars queue).2) := by
              simp only [fill, if_neg full, answer]
            refine ⟨[(getChars queue).1], ?_, ?_⟩
            · rw [stays]
              exact .cons (.nil _)
            · intro answers asked agrees
              have first : answers asked = none := (agrees 0 Nat.zero_lt_one).trans answer
              simp only [fill, if_neg full, fetch, first, answer]
              rfl
        | some ch =>
            rcases ih (pushChar s ch) (getChars queue).2 with ⟨given, gives, same⟩
            refine ⟨(getChars queue).1 :: given, ?_, ?_⟩
            · simp only [fill, if_neg full, answer] at gives ⊢
              rw [← answer]
              exact .cons gives
            · intro answers asked agrees
              have first : answers asked = some ch := (agrees 0 (Nat.zero_lt_succ _)).trans answer
              have split : Agrees answers asked ([(getChars queue).1] ++ given) := agrees
              have later : Agrees answers (asked + 1) given := split.append.2
              simp only [fill, if_neg full, fetch, first, answer]
              rw [same answers (asked + 1) later, List.length_cons]
              congr 1
              omega

theorem getBits_gives (getChars : σ → Option UInt8 × σ) (nbits bitCnt : Nat) (s : BitsState)
    (queue : σ) :
    ∃ given, Gives getChars queue given (modemAsyncGetBits getChars nbits bitCnt s queue).2.2 ∧
      ∀ answers asked, Agrees answers asked given →
        modemAsyncGetBits (fetch answers) nbits bitCnt s asked =
          ((modemAsyncGetBits getChars nbits bitCnt s queue).1,
            (modemAsyncGetBits getChars nbits bitCnt s queue).2.1, asked + given.length) := by
  induction bitCnt generalizing s queue with
  | zero => exact ⟨[], .nil queue, fun _ _ _ => rfl⟩
  | succ bitCnt ih =>
      rcases fill_gives getChars nbits nbits s queue with ⟨given, gives, same⟩
      simp only [modemAsyncGetBits]
      generalize fill getChars nbits nbits s queue = ready at gives same ⊢
      by_cases full : nbits ≤ ready.1.bit
      · rcases ih { ready.1 with bit := ready.1.bit - nbits } ready.2 with
          ⟨more, givesMore, sameMore⟩
        refine ⟨given ++ more, ?_, ?_⟩
        · simp only [if_pos full]
          exact gives.append givesMore
        · intro answers asked agrees
          rw [same answers asked agrees.append.1]
          simp only [if_pos full]
          rw [sameMore answers _ agrees.append.2, List.length_append, Nat.add_assoc]
      · refine ⟨given, ?_, ?_⟩
        · simp only [if_neg full]
          exact gives
        · intro answers asked agrees
          rw [same answers asked agrees]
          simp only [if_neg full]

end Source

/-! ### The answers so far -/

section Recorded

variable {given more : List (Option UInt8)} {tokens : List (Option UInt8)} {sent : List Bool}
  {s : BitsState}

def recorded (given : List (Option UInt8)) (n : Nat) : Option UInt8 := given.getD n none

theorem agrees_recorded (given more : List (Option UInt8)) :
    Agrees (recorded (given ++ more)) given.length more := by
  intro i inside
  unfold recorded
  rw [List.getD_eq_getElem?_getD, List.getElem?_append_right (by omega), Nat.add_sub_cancel_left,
    List.getElem?_eq_getElem inside]
  rfl

theorem fetched_recorded (given more : List (Option UInt8)) :
    fetched (recorded (given ++ more)) given.length = charsOf given := by
  unfold fetched
  congr 1
  apply List.ext_getElem
  · simp
  · intro n within inside
    simp [recorded, List.getD_eq_getElem?_getD, List.getElem?_append_left inside, inside]

theorem Sending.rebase (sending : Sending (recorded given) tokens sent s given.length)
    (more : List (Option UInt8)) :
    Sending (recorded (given ++ more)) tokens sent s given.length := by
  have chars := sending.chars
  have known := fetched_recorded given []
  rw [List.append_nil] at known
  exact
    { line := sending.line
      chars := by rw [chars, known, fetched_recorded] }

end Recorded

/-! ### The call -/

/-- `m->get_chars(m, &ch, 1)` of a modem whose queue is `q`. -/
def getChar (q : XmitQueue) : Option UInt8 × XmitQueue :=
  let out := q.modemGetChars 1
  (out.2.head?, out.1)

/-- `line` is on the way; `typed` was accepted by `modem_write`, and `put_chars` was called
with `shown`. -/
structure Call where
  queue : XmitQueue
  pack : BitsState
  line : List Bool
  unpack : BitsState
  typed : List UInt8
  shown : List UInt8
  deriving DecidableEq

inductive CallEvent where
  | write (buffer : List UInt8)
  | getBits (nbits count : Nat)
  | putBits (nbits : Nat) (symbols : List UInt8)

def Call.step (c : Call) : CallEvent → Call
  | .write buffer =>
      let out := c.queue.modemWrite buffer
      { c with queue := out.1, typed := c.typed ++ buffer.take out.2.toNat }
  | .getBits nbits count =>
      let out := modemAsyncGetBits getChar nbits count c.pack c.queue
      { c with
        queue := out.2.2
        pack := out.2.1
        line := c.line ++ out.1.flatMap (symbolBits nbits) }
  | .putBits nbits symbols =>
      if symbols.flatMap (symbolBits nbits) <+: c.line then
        let out := modemAsyncPutBits nbits symbols c.unpack
        { c with
          line := c.line.drop (symbols.flatMap (symbolBits nbits)).length
          unpack := out.1
          shown := c.shown ++ out.2 }
      else c

def Call.run (c : Call) : List CallEvent → Call
  | [] => c
  | event :: rest => (c.step event).run rest

def Call.start : Call :=
  { queue := XmitQueue.create
    pack := modemAsyncStart.pack
    line := []
    unpack := modemAsyncStart.unpack
    typed := []
    shown := [] }

/-- The lengths are `int`s, and symbols have 1 to 8 bits. -/
def CallEvent.Sized : CallEvent → Prop
  | .write buffer => buffer.length < 2 ^ 31
  | .getBits nbits _ | .putBits nbits _ => 1 ≤ nbits ∧ nbits ≤ 8

/-- The characters that were taken out of the queue are the tokens on the line; those in
`done` have been received. -/
structure Carried (c : Call) (given done left : List (Option UInt8)) (sent fed : List Bool) :
    Prop where
  queue : c.queue.Wf
  typed : c.typed = charsOf given ++ c.queue.items
  sending : Sending (recorded given) (done ++ left) sent c.pack given.length
  packLow : c.pack.bit ≤ 9
  receiving : Receiving done left fed c.unpack c.shown
  unpackLow : c.unpack.bit ≤ 9
  line : sent = fed ++ c.line

section Step

variable {c : Call} {given done left : List (Option UInt8)} {sent fed : List Bool}

theorem getChar_spec {q : XmitQueue} (wf : q.Wf) :
    (getChar q).2.Wf ∧ q.items = (getChar q).1.toList ++ (getChar q).2.items := by
  rcases wf.modemGetChars (n := 1) (by decide) with ⟨wf', items, out⟩
  unfold getChar
  simp only
  refine ⟨wf', ?_⟩
  rw [items, out]
  cases q.items with
  | nil => rfl
  | cons first rest => rfl

theorem gives_items {q q' : XmitQueue} {given : List (Option UInt8)}
    (gives : Gives getChar q given q') (wf : q.Wf) :
    q'.Wf ∧ q.items = charsOf given ++ q'.items := by
  induction gives with
  | nil queue => exact ⟨wf, rfl⟩
  | @cons queue queue' given later ih =>
      rcases getChar_spec wf with ⟨wf₁, items⟩
      rcases ih wf₁ with ⟨wf', itemsLater⟩
      refine ⟨wf', ?_⟩
      rw [items, itemsLater, ← List.append_assoc]
      congr 1
      cases (getChar queue).1 with
      | none => rfl
      | some ch => rfl

theorem Carried.getBits (carried : Carried c given done left sent fed) {nbits : Nat}
    (some' : 1 ≤ nbits) (small : nbits ≤ 8) (count : Nat) :
    ∃ given' left' sent', Carried (c.step (.getBits nbits count)) given' done left' sent' fed := by
  rcases getBits_gives getChar nbits count c.pack c.queue with ⟨more, gives, same⟩
  rcases gives_items gives carried.queue with ⟨wf, items⟩
  have run := same _ _ (agrees_recorded given more)
  have sending := carried.sending.rebase more
  rcases sending.getBits some' small count carried.packLow with ⟨tokens, sent', low⟩
  rw [run] at sent' low
  simp only at sent' low
  rw [← List.length_append, List.append_assoc] at sent'
  refine ⟨given ++ more, left ++ tokens,
    sent ++ (modemAsyncGetBits getChar nbits count c.pack c.queue).1.flatMap (symbolBits nbits), ?_⟩
  constructor
  · exact wf
  · change c.typed = _
    rw [carried.typed, items, charsOf_append, List.append_assoc]
    rfl
  · exact sent'
  · exact low
  · have ahead := carried.receiving.ahead
    exact
      { carried.receiving with
        ahead := by
          rw [asyncLine_append]
          exact ahead.trans (List.prefix_append _ _) }
  · exact carried.unpackLow
  · rw [carried.line, List.append_assoc]
    rfl

theorem Carried.putBits (carried : Carried c given done left sent fed) {nbits : Nat}
    (small : nbits ≤ 8) (symbols : List UInt8) :
    ∃ done' left' fed', Carried (c.step (.putBits nbits symbols)) given done' left' sent fed' := by
  simp only [Call.step]
  by_cases here : symbols.flatMap (symbolBits nbits) <+: c.line
  · rw [if_pos here]
    rcases here with ⟨rest, cut⟩
    have dropped : c.line.drop (symbols.flatMap (symbolBits nbits)).length = rest := by
      rw [← cut, List.drop_left]
    have onLine : fed ++ symbols.flatMap (symbolBits nbits) <+: asyncLine (done ++ left) := by
      rw [← carried.sending.line, carried.line, ← cut, List.append_assoc, List.append_assoc]
      exact (List.prefix_append_right_inj _).mpr (List.prefix_append _ _)
    rcases Receiving.putBits small symbols carried.receiving carried.unpackLow onLine with
      ⟨front, back, split, received, low⟩
    refine ⟨done ++ front, back, fed ++ symbols.flatMap (symbolBits nbits), ?_⟩
    constructor
    · exact carried.queue
    · exact carried.typed
    · have sending := carried.sending
      rw [split, ← List.append_assoc] at sending
      exact sending
    · exact carried.packLow
    · exact received
    · exact low
    · rw [dropped, List.append_assoc, cut]
      exact carried.line
  · rw [if_neg here]
    exact ⟨done, left, fed, carried⟩

theorem Carried.write (carried : Carried c given done left sent fed) {buffer : List UInt8}
    (small : buffer.length < 2 ^ 31) :
    Carried (c.step (.write buffer)) given done left sent fed := by
  have order : c.typed = charsOf given ++ c.queue.items := carried.typed
  have sized : (XmitQueue.Access.write buffer).Sized := small
  rcases XmitQueue.Wf.step
    (u := { queue := c.queue, accepted := c.typed, returned := charsOf given })
    carried.queue order sized with ⟨wf, typed⟩
  exact { carried with queue := wf, typed := typed }

theorem Carried.step (carried : Carried c given done left sent fed) {event : CallEvent}
    (sized : event.Sized) :
    ∃ given' done' left' sent' fed', Carried (c.step event) given' done' left' sent' fed' := by
  cases event with
  | write buffer => exact ⟨given, done, left, sent, fed, carried.write sized⟩
  | getBits nbits count =>
      rcases carried.getBits sized.1 sized.2 count with ⟨given', left', sent', carried'⟩
      exact ⟨given', done, left', sent', fed, carried'⟩
  | putBits nbits symbols =>
      rcases carried.putBits sized.2 symbols with ⟨done', left', fed', carried'⟩
      exact ⟨given, done', left', sent, fed', carried'⟩

theorem Carried.run (events : List CallEvent) (sized : ∀ event ∈ events, event.Sized)
    (carried : Carried c given done left sent fed) :
    ∃ given' done' left' sent' fed', Carried (c.run events) given' done' left' sent' fed' := by
  induction events generalizing c given done left sent fed with
  | nil => exact ⟨given, done, left, sent, fed, carried⟩
  | cons event rest ih =>
      rcases carried.step (sized event List.mem_cons_self) with ⟨_, _, _, _, _, carried'⟩
      exact ih (fun other member => sized other (List.mem_cons_of_mem event member)) carried'

theorem charsOf_sending (carried : Carried c given done left sent fed) :
    charsOf (done ++ left) = charsOf given := by
  have known := fetched_recorded given []
  rw [List.append_nil] at known
  rw [carried.sending.chars, known]

end Step

theorem carried_start : Carried Call.start [] [] [] [] [] := by
  constructor
  · exact XmitQueue.Wf.create
  · rfl
  · exact { line := rfl, chars := rfl }
  · exact Nat.zero_le 9
  · exact { place := rfl, delivered := rfl, ahead := List.nil_prefix }
  · exact Nat.zero_le 9
  · rfl

/-- Whatever is typed, sent and received, in any order and in symbols of any sizes, the far
terminal is given a beginning of what was typed, and all of it when nothing is left in the
queue, in the packer and on the line. -/
theorem async_text (events : List CallEvent) (sized : ∀ event ∈ events, event.Sized) :
    let c := Call.start.run events
    c.shown <+: c.typed ∧
      (c.queue.items = [] → c.pack.bit = 0 → c.line = [] → c.shown = c.typed) := by
  rcases carried_start.run events sized with ⟨given, done, left, sent, fed, carried⟩
  have chars := charsOf_sending carried
  have delivered := carried.receiving.delivered
  constructor
  · rw [carried.typed, ← chars, charsOf_append, delivered, List.append_assoc]
    exact List.prefix_append _ _
  · intro empty flushed nothing
    have wholeLine : asyncLine (done ++ left) = fed := by
      rw [← carried.sending.line, carried.line, nothing, BitsState.bits, flushed, Lib.window,
        List.append_nil, List.append_nil]
    have all := carried.receiving.prompt carried.unpackLow (n := (done ++ left).length)
      (by rw [List.take_length, wholeLine])
    rw [List.take_length, chars] at all
    rw [carried.typed, empty, List.append_nil]
    apply (all.eq_of_length_le _).symm
    rw [delivered, ← chars, charsOf_append, List.length_append]
    exact Nat.le_add_right _ _

def shortCall : List CallEvent :=
  [.write [72, 105], .getBits 7 4, .putBits 4 [0, 9, 5], .write [33], .putBits 4 [2, 13, 15],
    .getBits 8 2, .putBits 4 [15], .putBits 8 [66, 127]]

theorem async_text_shortCall :
    (Call.start.run shortCall).shown = (Call.start.run shortCall).typed ∧
      (Call.start.run shortCall).typed = [72, 105, 33] := by
  have sized : ∀ event ∈ shortCall, event.Sized := by
    simp [shortCall, CallEvent.Sized]
  have whole := (async_text shortCall sized).2
  constructor
  · apply whole
    · decide +kernel
    · decide +kernel
    · decide +kernel
  · decide +kernel

end DModem.Async
