/-
Compressed text over bits: two modems with everything between the terminal and the line.

What is typed goes through the compressor, LAPM and the HDLC packer to the line, and what
the line brings goes back through the unpacker, LAPM and the decompressor to the other
terminal.
-/

import DModem.Lapm.Wire

namespace DModem.Lapm

open DModem.Comp (CompState CompSource Terminal)
open DModem.Hdlc (HdlcState)

structure Cable where
  a : Station
  b : Station
  ha : HdlcState
  hb : HdlcState
  ab : List Bool
  ba : List Bool

def Cable.swap (l : Cable) : Cable :=
  { a := l.b, b := l.a, ha := l.hb, hb := l.ha, ab := l.ba, ba := l.ab }

def Cable.wire (l : Cable) : Wire :=
  { a := l.a.modem, b := l.b.modem, ha := l.ha, hb := l.hb, ab := l.ab, ba := l.ba }

/-- What happens at an end: characters are typed, `get_chars` is called and has nothing to
return, or the packer or LAPM do something. -/
inductive CableEvent where
  | typed (chars : List UInt8)
  | poll
  | deed (deed : WireDeed) (answers : List Nat)
  deriving DecidableEq, Repr

/-- The answers of the character routines, and what becomes of the source and the terminal
when they are called. -/
def Cable.answer (l : Cable) (deed : WireDeed) (answers : List Nat) :
    Except Comp.Fault (Chars × CompSource × Terminal) := do
  let (source, buf) ← l.a.ask
  let (terminal, accept) ← l.a.write (l.wire.offered deed) answers
  .ok ({ get := some buf, accept := accept, fails := false }, source, terminal)

def Cable.stepA (l : Cable) : CableEvent → Except Comp.Fault Cable
  | .typed chars =>
      .ok { l with a :=
        { l.a with source := { l.a.source with queue := l.a.source.queue ++ chars } } }
  | .poll => do
      let (source, buf) ← l.a.ask
      if buf = [] then .ok { l with a := { l.a with source := source } } else .ok l
  | .deed deed answers => do
      let (chars, source, terminal) ← l.answer deed answers
      let w := l.wire.stepA deed chars
      .ok
        { a :=
            { modem := w.a
              source := if w.a.taken = l.a.modem.taken then l.a.source else source
              terminal := terminal }
          b := { l.b with modem := w.b }
          ha := w.ha
          hb := w.hb
          ab := w.ab
          ba := w.ba }

inductive CableMove where
  | a (event : CableEvent)
  | b (event : CableEvent)
  deriving DecidableEq, Repr

def Cable.step (l : Cable) : CableMove → Except Comp.Fault Cable
  | .a event => l.stepA event
  | .b event => do
      let l ← l.swap.stepA event
      .ok l.swap

def Cable.run : Cable → List CableMove → Except Comp.Fault Cable
  | l, [] => .ok l
  | l, move :: rest => do
      let l ← l.step move
      l.run rest

def CableEvent.chars : CableEvent → List UInt8
  | .typed chars => chars
  | .poll | .deed _ _ => []

def CableMove.charsA : CableMove → List UInt8
  | .a event => event.chars
  | .b _ => []

def CableMove.charsB : CableMove → List UInt8
  | .a _ => []
  | .b event => event.chars

/-- What is asked of an event at `a`: the symbol has 1 to 8 bits, compression is in use, no
SABME, DISC, DM or XID is transmitted, and the flush of `put_chars` does not find bytes
waiting while the decoder holds characters. -/
structure Cable.Proper (l : Cable) (deed : WireDeed) (answers : List Nat) : Prop where
  sized : deed.Sized
  compressed : l.a.modem.getChars ≠ some .plain ∧ l.a.modem.putChars ≠ some .plain
  plain : ∀ chars source terminal, l.answer deed answers = .ok (chars, source, terminal) →
    HoldsPlain (l.wire.stepA deed chars).ha
  calm : ∀ bytes, l.wire.offered deed = some bytes →
    Comp.Receiver.Calm { terminal := l.a.terminal, rest := [], consumed := [] }
      { fresh := bytes, answers := answers }

def Cable.ProperMove (l : Cable) : CableMove → Prop
  | .a (.deed deed answers) => l.Proper deed answers
  | .b (.deed deed answers) => l.swap.Proper deed answers
  | _ => True

def Cable.ProperRun (l : Cable) : List CableMove → Prop
  | [] => True
  | move :: rest => l.ProperMove move ∧ ∀ l', l.step move = .ok l' → l'.ProperRun rest

/-! ### The frames behind the bits -/

def Cable.talk (l : Cable) (ab ba : List (List UInt8)) : Talk :=
  { a := l.a, b := l.b, ab := ab, ba := ba }

def Cable.Sound (c : CompState) (l : Cable) (typedA typedB : List UInt8) : Prop :=
  ∃ ab ba, (l.talk ab ba).Sound c typedA typedB ∧ l.wire.Shows (l.talk ab ba).pair

/-- What is offered does not depend on what `get_chars` and `put_chars` answer. -/
theorem Wire.Shows.offered {w : Wire} {p : Pair} (shows : w.Shows p) {deed : WireDeed}
    (sized : deed.Sized) :
    w.offered deed = none ∨ w.offered deed = p.offered deed.deed := by
  cases deed with
  | send nbits => exact Or.inl rfl
  | timeout => exact Or.inl rfl
  | push =>
      right
      change offeredRest w.a = offeredRest p.a
      rw [shows.a]
  | receive nbits symbol =>
      rcases shows.receive symbol { get := none, accept := 0, fails := false } sized.2 with
        ⟨-, nothing⟩ | ⟨-, same, -⟩
      · exact Or.inl nothing
      · exact Or.inr same

section Sound

variable {c : CompState} {l : Cable} {typedA typedB : List UInt8}

theorem Cable.Sound.swap (sound : l.Sound c typedA typedB) : l.swap.Sound c typedB typedA := by
  rcases sound with ⟨ab, ba, talks, shows⟩
  exact ⟨ba, ab, talks.swap, shows.swap⟩

theorem Cable.Sound.typed (sound : l.Sound c typedA typedB) (chars : List UInt8) :
    ∃ l', l.stepA (.typed chars) = .ok l' ∧ l'.Sound c (typedA ++ chars) typedB := by
  rcases sound with ⟨ab, ba, talks, shows⟩
  obtain ⟨t', stepped, talks'⟩ := talks.typed chars
  obtain rfl := Except.ok.inj stepped
  exact ⟨_, rfl, ab, ba, talks', shows⟩

theorem Cable.Sound.poll (sound : l.Sound c typedA typedB) :
    ∃ l', l.stepA .poll = .ok l' ∧ l'.Sound c typedA typedB := by
  rcases sound with ⟨ab, ba, talks, shows⟩
  obtain ⟨t', stepped, talks'⟩ := talks.poll
  obtain ⟨source, buf, asked, -⟩ := talks.wiredA.ask
  change l.a.ask = .ok (source, buf) at asked
  change (do
    let (source, buf) ← l.a.ask
    if buf = [] then Except.ok { l.talk ab ba with a := { l.a with source := source } }
      else Except.ok (l.talk ab ba)) = .ok t' at stepped
  rw [asked, Comp.ok_bind] at stepped
  simp only [Cable.stepA, asked, Comp.ok_bind]
  simp only at stepped
  by_cases nothing : buf = []
  · rw [if_pos nothing] at stepped ⊢
    obtain rfl := Except.ok.inj stepped
    exact ⟨_, rfl, ab, ba, talks', shows⟩
  · rw [if_neg nothing]
    exact ⟨l, rfl, ab, ba, talks, shows⟩

theorem Cable.Sound.deed (sound : l.Sound c typedA typedB) (deed : WireDeed) (answers : List Nat)
    (proper : l.Proper deed answers) :
    ∃ l', l.stepA (.deed deed answers) = .ok l' ∧ l'.Sound c typedA typedB := by
  rcases sound with ⟨ab, ba, talks, shows⟩
  obtain ⟨source, buf, asked, -⟩ := talks.wiredA.ask
  change l.a.ask = .ok (source, buf) at asked
  have readable : ∀ bytes, bytes <+: l.b.modem.taken.flatten →
      ∃ last, c.decodeBytes bytes = .ok last := by
    intro bytes cut
    rw [show l.b.modem.taken.flatten = l.b.source.output from talks.wiredB.fed] at cut
    obtain ⟨d, decoded, -⟩ := talks.wiredB.speaks.heard cut
    exact ⟨d, decoded⟩
  obtain ⟨terminal, accept, written⟩ : ∃ terminal accept,
      l.a.write (l.wire.offered deed) answers = .ok (terminal, accept) := by
    rcases shows.offered proper.sized with nothing | same
    · exact ⟨l.a.terminal, 0, by rw [nothing]; rfl⟩
    · rw [same]
      obtain ⟨terminal, accept, written, -⟩ := talks.wiredA.write answers
        (talks.inv.next deed.deed) readable
          (fun bytes offer => proper.calm bytes (same.trans offer))
      exact ⟨terminal, accept, written⟩
  have answered : l.answer deed answers =
      .ok ({ get := some buf, accept := accept, fails := false }, source, terminal) := by
    simp only [Cable.answer, asked, written, Comp.ok_bind]
  have follows := shows.stepA deed { get := some buf, accept := accept, fails := false }
    proper.sized (proper.plain _ _ _ answered)
  simp only [Cable.stepA, answered, Comp.ok_bind]
  generalize chosen : ({ get := some buf, accept := accept, fails := false } : Chars) = chars
    at answered follows ⊢
  rcases follows with ⟨stays, nothing⟩ | ⟨moves, same, harmless⟩
  · have kept : (l.wire.stepA deed chars).a = l.a.modem := stays.a
    have other : (l.wire.stepA deed chars).b = l.b.modem := stays.b
    rw [nothing] at written
    obtain ⟨rfl, -⟩ := Prod.mk.inj (Except.ok.inj written)
    refine ⟨_, rfl, ab, ba, ?_, ?_⟩
    · rw [kept, if_pos rfl, other]
      exact talks
    · rw [kept, other]
      exact { stays with a := rfl, b := rfl, fitA := shows.fitA, fitB := shows.fitB }
  · have answered' : (l.talk ab ba).answer deed.deed answers = .ok (chars, source, terminal) := by
      have offered : (l.talk ab ba).pair.offered deed.deed = l.wire.offered deed := same.symm
      unfold Talk.answer
      rw [offered]
      exact answered
    have proper' : (l.talk ab ba).Proper deed.deed answers := by
      constructor
      · exact proper.compressed
      · intro chars' source' terminal' answer
        rw [answered'] at answer
        obtain rfl := (Prod.mk.inj (Except.ok.inj answer)).1
        exact harmless
      · intro bytes offer
        exact proper.calm bytes (same.trans offer)
    obtain ⟨t', stepped, talks'⟩ := talks.deed deed.deed answers proper'
    simp only [Talk.stepA, answered', Comp.ok_bind] at stepped
    obtain rfl := Except.ok.inj stepped
    have a' : (l.wire.stepA deed chars).a =
        ((l.talk ab ba).pair.stepA (deed.deed.event chars)).a := moves.a
    have b' : (l.wire.stepA deed chars).b =
        ((l.talk ab ba).pair.stepA (deed.deed.event chars)).b := moves.b
    generalize (l.talk ab ba).pair.stepA (deed.deed.event chars) = p' at moves talks' a' b'
    refine ⟨_, rfl, p'.ab, p'.ba, ?_, ?_⟩
    · rw [a', b']
      exact talks'
    · obtain ⟨pa, pb, pab, pba⟩ := p'
      obtain rfl : _ = pa := a'
      obtain rfl : _ = pb := b'
      exact moves

theorem Cable.Sound.stepA (sound : l.Sound c typedA typedB) (event : CableEvent)
    (proper : ∀ deed answers, event = .deed deed answers → l.Proper deed answers) :
    ∃ l', l.stepA event = .ok l' ∧ l'.Sound c (typedA ++ event.chars) typedB := by
  cases event with
  | typed chars => exact sound.typed chars
  | poll =>
      rw [CableEvent.chars, List.append_nil]
      exact sound.poll
  | deed deed answers =>
      rw [CableEvent.chars, List.append_nil]
      exact sound.deed deed answers (proper deed answers rfl)

theorem Cable.Sound.step (sound : l.Sound c typedA typedB) (move : CableMove)
    (proper : l.ProperMove move) :
    ∃ l', l.step move = .ok l' ∧
      l'.Sound c (typedA ++ move.charsA) (typedB ++ move.charsB) := by
  cases move with
  | a event =>
      simp only [CableMove.charsA, CableMove.charsB, List.append_nil]
      apply sound.stepA event
      intro deed answers same
      subst same
      exact proper
  | b event =>
      simp only [CableMove.charsA, CableMove.charsB, List.append_nil]
      obtain ⟨l', stepped, sound'⟩ := sound.swap.stepA event (by
        intro deed answers same
        subst same
        exact proper)
      refine ⟨l'.swap, ?_, sound'.swap⟩
      simp only [Cable.step, stepped, Comp.ok_bind]

theorem Cable.Sound.run (sound : l.Sound c typedA typedB) (moves : List CableMove)
    (proper : l.ProperRun moves) :
    ∃ l', l.run moves = .ok l' ∧
      l'.Sound c (typedA ++ moves.flatMap CableMove.charsA)
        (typedB ++ moves.flatMap CableMove.charsB) := by
  induction moves generalizing l typedA typedB with
  | nil =>
      refine ⟨l, rfl, ?_⟩
      rw [List.flatMap_nil, List.flatMap_nil, List.append_nil, List.append_nil]
      exact sound
  | cons move rest ih =>
      obtain ⟨l₁, stepped, sound₁⟩ := sound.step move proper.1
      obtain ⟨l', ran, sound'⟩ := ih sound₁ (proper.2 l₁ stepped)
      refine ⟨l', ?_, ?_⟩
      · rw [Cable.run, stepped, Comp.ok_bind]
        exact ran
      · simp only [List.flatMap_cons, ← List.append_assoc]
        exact sound'

/-- Nothing is on the way from `a` to the terminal of `b`. -/
def Cable.Arrived (l : Cable) : Prop := (l.talk [] []).Arrived

theorem Cable.Sound.shows (sound : l.Sound c typedA typedB) :
    l.b.terminal.pty <+: typedA ∧ (l.Arrived → l.b.terminal.pty = typedA) := by
  rcases sound with ⟨ab, ba, talks, -⟩
  refine ⟨talks.shows, ?_⟩
  intro arrived
  exact talks.shows_all { arrived with }

end Sound

/-! ### Runs from a reset -/

/-- Two modems with their packers just started. -/
def Cable.start (c : CompState) (a b : Modem) : Cable :=
  { a := .start c a
    b := .start c b
    ha := Hdlc.modemHdlcStart
    hb := Hdlc.modemHdlcStart
    ab := []
    ba := [] }

/-- Text from terminal to terminal over bits.  In every run from a reset in which symbols
have 1 to 8 bits, compression stays in use, no SABME, DISC, DM or XID is transmitted and
every call of `put_chars` is calm, no call of the codec fails and each terminal shows a
beginning of what is typed at the other end; it shows all of it whenever nothing is on the
way. -/
theorem text_over_bits (dictSize maxStr : Int) (sizeLow : 512 ≤ dictSize)
    (sizeHigh : dictSize ≤ 2048) (strLow : 6 ≤ maxStr) (strHigh : maxStr ≤ 34) (c : CompState)
    (initialised : Comp.compInit dictSize maxStr = some c) (a b : Modem) (freshA : JustReset a)
    (freshB : JustReset b) (fitA : a.FramesFit) (fitB : b.FramesFit) (moves : List CableMove)
    (proper : (Cable.start c a b).ProperRun moves) :
    ∃ l, (Cable.start c a b).run moves = .ok l ∧
      l.b.terminal.pty <+: moves.flatMap CableMove.charsA ∧
      l.a.terminal.pty <+: moves.flatMap CableMove.charsB ∧
      (l.Arrived → l.b.terminal.pty = moves.flatMap CableMove.charsA) ∧
      (l.swap.Arrived → l.a.terminal.pty = moves.flatMap CableMove.charsB) := by
  have fresh : (Cable.start c a b).wire.Fresh :=
    { a := freshA
      b := freshB
      fitA := fitA
      fitB := fitB
      ha := rfl
      hb := rfl
      ab := rfl
      ba := rfl }
  have starting : (Cable.start c a b).Sound c [] [] := by
    refine ⟨[], [], ?_, fresh.shows⟩
    exact
      { inv := fresh.shows.inv
        wiredA := Station.start_wired sizeLow sizeHigh strLow strHigh initialised freshA
          fitA.limits.txInfoSize _
        wiredB := Station.start_wired sizeLow sizeHigh strLow strHigh initialised freshB
          fitB.limits.txInfoSize _ }
  obtain ⟨l, ran, sound⟩ := starting.run moves proper
  rw [List.nil_append, List.nil_append] at sound
  exact ⟨l, ran, sound.shows.1, sound.swap.shows.1, sound.shows.2, sound.swap.shows.2⟩

/-! ### A run that is checked -/

/-- `Comp.Receiver.Calm` of a call with `bytes`. -/
def calmCheck (t : Terminal) (bytes : List UInt8) (answers : List Nat) : Bool :=
  match t.sendOutput answers with
  | (t, true, answers) =>
      match t.putLoop answers bytes with
      | .ok (t, [], _) => t.count == 0 || t.decoder.strData.isEmpty
      | _ => true
  | _ => true

def Cable.check (l : Cable) (deed : WireDeed) (answers : List Nat) : Bool :=
  decide deed.Sized &&
    decide (l.a.modem.getChars ≠ some .plain ∧ l.a.modem.putChars ≠ some .plain) &&
    (match l.answer deed answers with
      | .ok (chars, _, _) => decide (HoldsPlain (l.wire.stepA deed chars).ha)
      | .error _ => true) &&
    (l.wire.offered deed).all fun bytes => calmCheck l.a.terminal bytes answers

def Cable.checkMove (l : Cable) : CableMove → Bool
  | .a (.deed deed answers) => l.check deed answers
  | .b (.deed deed answers) => l.swap.check deed answers
  | _ => true

def Cable.checkRun (l : Cable) : List CableMove → Bool
  | [] => true
  | move :: rest =>
      l.checkMove move &&
        match l.step move with
        | .ok l' => l'.checkRun rest
        | .error _ => true

theorem calm_of_check {t : Terminal} {bytes : List UInt8} {answers : List Nat}
    (checked : calmCheck t bytes answers = true) :
    Comp.Receiver.Calm { terminal := t, rest := [], consumed := [] }
      { fresh := bytes, answers := answers } := by
  intro t₁ answers₁ t₂ answers₂ sent looped
  simp only [List.nil_append] at looped
  simp only [calmCheck, sent, looped, Bool.or_eq_true, beq_iff_eq, List.isEmpty_iff] at checked
  exact checked

theorem Cable.proper_of_check {l : Cable} {deed : WireDeed} {answers : List Nat}
    (checked : l.check deed answers = true) : l.Proper deed answers := by
  simp only [Cable.check, Bool.and_eq_true, decide_eq_true_eq] at checked
  obtain ⟨⟨⟨sized, compressed⟩, plain⟩, calm⟩ := checked
  constructor
  · exact sized
  · exact compressed
  · intro chars source terminal answer
    rw [answer] at plain
    simp only [decide_eq_true_eq] at plain
    exact plain
  · intro bytes offer
    rw [offer] at calm
    exact calm_of_check calm

theorem Cable.properRun_of_check {l : Cable} {moves : List CableMove}
    (checked : l.checkRun moves = true) : l.ProperRun moves := by
  induction moves generalizing l with
  | nil => trivial
  | cons move rest ih =>
      simp only [Cable.checkRun, Bool.and_eq_true] at checked
      obtain ⟨here, later⟩ := checked
      constructor
      · cases move with
        | a event =>
            cases event with
            | typed | poll => trivial
            | deed deed answers => exact Cable.proper_of_check here
        | b event =>
            cases event with
            | typed | poll => trivial
            | deed deed answers => exact Cable.proper_of_check here
      · intro l' stepped
        rw [stepped] at later
        exact ih later

def shortCall : List CableMove :=
  .a (.typed [97, 98]) ::
    (List.replicate 11 (.a (.deed (.send 8) [])) ++
      [126, 192, 0, 0, 134, 70, 68, 119, 126, 126, 126].map fun symbol =>
        .b (.deed (.receive 8 symbol) [1, 1]))

theorem text_over_bits_of_two_chars :
    ∃ l, (Cable.start (Comp.dictInit (Comp.compAlloc 512 6)) (attachedEnd true)
      (attachedEnd false)).run shortCall = .ok l ∧ l.b.terminal.pty = [97, 98] ∧
      l.b.terminal.pty <+: shortCall.flatMap CableMove.charsA := by
  obtain ⟨l, ran, shows, -, -, -⟩ := text_over_bits 512 6 (by decide) (by decide) (by decide)
    (by decide) (Comp.dictInit (Comp.compAlloc 512 6)) rfl (attachedEnd true) (attachedEnd false)
    (attachedEnd_justReset true) (attachedEnd_justReset false) (attachedEnd_fit true)
    (attachedEnd_fit false) shortCall (Cable.properRun_of_check (by decide +kernel))
  refine ⟨l, ran, ?_, shows⟩
  have screen : (((Cable.start (Comp.dictInit (Comp.compAlloc 512 6)) (attachedEnd true)
      (attachedEnd false)).run shortCall).map fun l => l.b.terminal.pty).toOption =
      some [97, 98] := by
    decide +kernel
  rw [ran] at screen
  exact Option.some.inj screen

end DModem.Lapm
