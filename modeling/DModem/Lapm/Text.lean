/-
Compressed text over a link that loses frames: two modems with the queues that characters
are typed into, the compressors, the LAPM ends with the channel between them, the
decompressors and the terminals.

`get_chars` is `modem_comp_get_chars` and `put_chars` is `modem_comp_put_chars`, so that
what they answer to LAPM is computed here, where `Pair` takes any answer.
-/

import DModem.Comp.Path
import DModem.Lapm.Traffic

namespace DModem.Lapm

open DModem.Lib
open DModem.Comp (CompState CompSource Terminal Speaks)

structure Station where
  modem : Modem
  source : CompSource
  terminal : Terminal

inductive Deed where
  | fetch
  | deliver
  | lose (index : Nat)
  | timeout
  | push
  deriving DecidableEq, Repr

def Deed.event : Deed → Chars → Event
  | .fetch, chars => .fetch chars
  | .deliver, chars => .deliver chars
  | .lose index, _ => .lose index
  | .timeout, _ => .timeout
  | .push, chars => .push chars

/-- What LAPM offers to `put_chars` at the end `a`. -/
def Pair.offered (p : Pair) : Deed → Option (List UInt8)
  | .deliver =>
      match p.ba with
      | [] => none
      | bytes :: _ => offeredFrame p.a (frameOf bytes)
  | .push => offeredRest p.a
  | _ => none

structure Talk where
  a : Station
  b : Station
  ab : List (List UInt8)
  ba : List (List UInt8)

def Talk.swap (t : Talk) : Talk := { a := t.b, b := t.a, ab := t.ba, ba := t.ab }

def Talk.pair (t : Talk) : Pair := { a := t.a.modem, b := t.b.modem, ab := t.ab, ba := t.ba }

/-- `modem_comp_get_chars` with the size that `tx_info` passes. -/
def Station.ask (st : Station) : Except Comp.Fault (CompSource × List UInt8) := do
  let (s, buf) ← st.source.modemCompGetChars st.modem.lapm.txInfoSize
  .ok ({ s with returned := s.returned ++ [(st.modem.lapm.txInfoSize, buf)] }, buf)

/-- `modem_comp_put_chars` with what LAPM offers; the list says what the pty accepts. -/
def Station.write (st : Station) (offer : Option (List UInt8)) (answers : List Nat) :
    Except Comp.Fault (Terminal × Nat) :=
  match offer with
  | none => .ok (st.terminal, 0)
  | some bytes => do
      let (t, left) ← st.terminal.modemCompPutChars answers bytes
      .ok (t, bytes.length - left.length)

/-- What happens at an end: characters are typed, `get_chars` is called and has nothing to
return, or LAPM does something, where both routines are called if LAPM calls them. -/
inductive TextEvent where
  | typed (chars : List UInt8)
  | poll
  | deed (deed : Deed) (answers : List Nat)
  deriving DecidableEq, Repr

/-- The answers of the routines to LAPM, and what becomes of the source and the terminal
when they are called. -/
def Talk.answer (t : Talk) (deed : Deed) (answers : List Nat) :
    Except Comp.Fault (Chars × CompSource × Terminal) := do
  let (source, buf) ← t.a.ask
  let (terminal, accept) ← t.a.write (t.pair.offered deed) answers
  .ok ({ get := some buf, accept := accept, fails := false }, source, terminal)

def Talk.stepA (t : Talk) : TextEvent → Except Comp.Fault Talk
  | .typed chars =>
      .ok { t with a :=
        { t.a with source := { t.a.source with queue := t.a.source.queue ++ chars } } }
  | .poll => do
      let (source, buf) ← t.a.ask
      if buf = [] then .ok { t with a := { t.a with source := source } } else .ok t
  | .deed deed answers => do
      let (chars, source, terminal) ← t.answer deed answers
      let p := t.pair.stepA (deed.event chars)
      .ok
        { a :=
            { modem := p.a
              source := if p.a.taken = t.a.modem.taken then t.a.source else source
              terminal := terminal }
          b := { t.b with modem := p.b }
          ab := p.ab
          ba := p.ba }

inductive TextMove where
  | a (event : TextEvent)
  | b (event : TextEvent)
  deriving DecidableEq, Repr

def Talk.step (t : Talk) : TextMove → Except Comp.Fault Talk
  | .a event => t.stepA event
  | .b event => do
      let t ← t.swap.stepA event
      .ok t.swap

def Talk.run : Talk → List TextMove → Except Comp.Fault Talk
  | t, [] => .ok t
  | t, move :: rest => do
      let t ← t.step move
      t.run rest

def TextEvent.chars : TextEvent → List UInt8
  | .typed chars => chars
  | .poll | .deed _ _ => []

def TextMove.charsA : TextMove → List UInt8
  | .a event => event.chars
  | .b _ => []

def TextMove.charsB : TextMove → List UInt8
  | .a _ => []
  | .b event => event.chars

/-- What is typed at `a` in a run, and at `b`. -/
def typedA (moves : List TextMove) : List UInt8 := moves.flatMap TextMove.charsA

def typedB (moves : List TextMove) : List UInt8 := moves.flatMap TextMove.charsB

/-- What is asked of an event at `a`: compression is in use, no SABME, DISC, DM or XID is
transmitted, and the flush of `put_chars` does not find bytes waiting while the decoder
holds characters. -/
structure Talk.Proper (t : Talk) (deed : Deed) (answers : List Nat) : Prop where
  compressed : t.a.modem.getChars ≠ some .plain ∧ t.a.modem.putChars ≠ some .plain
  plain : ∀ chars source terminal, t.answer deed answers = .ok (chars, source, terminal) →
    ∀ bytes, t.pair.fetched (deed.event chars) = some bytes → ¬ Resets bytes
  calm : ∀ bytes, t.pair.offered deed = some bytes →
    Comp.Receiver.Calm { terminal := t.a.terminal, rest := [], consumed := [] }
      { fresh := bytes, answers := answers }

def Talk.ProperMove (t : Talk) : TextMove → Prop
  | .a (.deed deed answers) => t.Proper deed answers
  | .b (.deed deed answers) => t.swap.Proper deed answers
  | _ => True

def Talk.ProperRun (t : Talk) : List TextMove → Prop
  | [] => True
  | move :: rest => t.ProperMove move ∧ ∀ t', t.step move = .ok t' → t'.ProperRun rest

/-! ### The invariant of an end -/

/-- The source of an end has handed out what LAPM has taken, and the terminal was given
what LAPM has delivered; it holds a character back only while something is still to come. -/
structure Station.Wired (c : CompState) (st : Station) (typed peerTaken : List UInt8) : Prop where
  speaks : Speaks c st.source typed
  fed : st.modem.taken.flatten = st.source.output
  size : st.modem.lapm.txInfoSize = lapmMaxInfoSize
  inOrder : Comp.Receiver.InOrder c
    { terminal := st.terminal, rest := [], consumed := delivered st.modem }
  held : st.terminal.decoder.strData = [] ∨
    ∃ more, more ≠ [] ∧ delivered st.modem ++ more <+: peerTaken

section Wired

variable {c : CompState} {st : Station} {typed peerTaken : List UInt8}

theorem Station.Wired.later {peerTaken' : List UInt8} (wired : st.Wired c typed peerTaken)
    (longer : peerTaken <+: peerTaken') : st.Wired c typed peerTaken' := by
  refine { wired with held := ?_ }
  rcases wired.held with nothing | ⟨more, some', cut⟩
  · exact Or.inl nothing
  · exact Or.inr ⟨more, some', cut.trans longer⟩

theorem Station.Wired.ask (wired : st.Wired c typed peerTaken) :
    ∃ source buf, st.ask = .ok (source, buf) ∧ buf.length ≤ lapmMaxInfoSize ∧
      Speaks c source typed ∧ source.output = st.source.output ++ buf := by
  obtain ⟨s', buf, got, few, speaks, returned⟩ :=
    wired.speaks.get (show 128 ≤ lapmMaxInfoSize by decide)
  refine ⟨{ s' with returned := s'.returned ++ [(lapmMaxInfoSize, buf)] }, buf, ?_, few, speaks,
    ?_⟩
  · rw [Station.ask, wired.size, got, Comp.ok_bind]
  · unfold CompSource.output
    rw [returned]
    simp

theorem Station.Wired.write (wired : st.Wired c typed peerTaken) {offer : Option (List UInt8)}
    (answers : List Nat) (next : delivered st.modem ++ offer.getD [] <+: peerTaken)
    (readable : ∀ bytes, bytes <+: peerTaken → ∃ last, c.decodeBytes bytes = .ok last)
    (calm : ∀ bytes, offer = some bytes →
      Comp.Receiver.Calm { terminal := st.terminal, rest := [], consumed := [] }
        { fresh := bytes, answers := answers }) :
    ∃ terminal accept, st.write offer answers = .ok (terminal, accept) ∧
      Comp.Receiver.InOrder c
        { terminal := terminal
          rest := []
          consumed := delivered st.modem ++ (offer.getD []).take accept } ∧
      (terminal.decoder.strData = [] ∨ ∃ more, more ≠ [] ∧
        delivered st.modem ++ (offer.getD []).take accept ++ more <+: peerTaken) := by
  cases offer with
  | none =>
      refine ⟨st.terminal, 0, rfl, ?_, ?_⟩
      · simp only [Option.getD_none, List.take_nil, List.append_nil]
        exact wired.inOrder
      · simp only [Option.getD_none, List.take_nil, List.append_nil]
        exact wired.held
  | some bytes =>
      simp only [Option.getD_some] at next ⊢
      obtain ⟨reference, decoded, linked⟩ := wired.inOrder.linked
      obtain ⟨last, accepted⟩ := readable _ next
      rw [CompState.decodeBytes_append, decoded, Comp.ok_bind] at accepted
      obtain ⟨t', used, left, reference', put, cut, consumed, linked'⟩ :=
        linked.putChars bytes answers accepted (calm bytes rfl)
      have taken : bytes.take (bytes.length - left.length) = used := by
        rw [cut, List.length_append, Nat.add_sub_cancel, List.take_left]
      refine ⟨t', bytes.length - left.length, ?_, ⟨reference', ?_, linked'⟩, ?_⟩
      · simp only [Station.write, put, Comp.ok_bind]
      · simp only [taken]
        rw [CompState.decodeBytes_append, decoded, Comp.ok_bind, consumed]
      · rw [taken]
        by_cases all : left = []
        · subst all
          rcases linked.putChars_flushes bytes answers accepted put with flushed | ⟨empty, same⟩
          · exact Or.inl flushed
          · rw [same]
            rw [List.append_nil] at cut
            rw [← cut, empty, List.append_nil]
            exact wired.held
        · refine Or.inr ⟨left, all, ?_⟩
          rw [List.append_assoc, ← cut]
          exact next

end Wired

/-! ### A step of the link -/

section Link

variable {p : Pair}

theorem Pair.stepA_b (p : Pair) (event : Event) : (p.stepA event).b = p.b := by
  cases event with
  | deliver chars =>
      unfold Pair.stepA
      cases p.ba <;> rfl
  | fetch | lose | timeout | push => rfl

theorem Pair.Inv.traffic (inv : p.Inv) (deed : Deed) (chars : Chars) :
    ((traffic p.a).deliver (p.offered deed) chars.accept).Feeds chars
      (traffic (p.stepA (deed.event chars)).a) := by
  have nothing : (Lapm.traffic p.a).deliver none chars.accept = Lapm.traffic p.a := by
    simp [Traffic.deliver]
  cases deed with
  | fetch =>
      simp only [Pair.offered, nothing]
      exact traffic_getTxFrame p.a chars
  | lose index =>
      simp only [Pair.offered, nothing]
      exact Or.inl rfl
  | timeout =>
      simp only [Pair.offered, nothing]
      exact Or.inl (traffic_t401Timeout { p.a with bitTimer := 0 })
  | push => exact Or.inl (traffic_pushRestData p.a chars)
  | deliver =>
      rcases inv with ⟨ab, ba, sa, ra, qa, sb, rb, qb, joined⟩
      have frames := joined.framesBA
      unfold Pair.offered Deed.event Pair.stepA
      cases onWay : p.ba with
      | nil =>
          simp only [nothing]
          exact Or.inl rfl
      | cons bytes rest =>
          rw [onWay] at frames
          cases frames with
          | cons encodes later =>
              rename_i packet ba'
              apply traffic_rxComplete
              intro type xid
              cases encodes with
              | info addr seq chunk ack =>
                  rw [info_type] at type
                  exact absurd type (by decide)
              | super addr ctrl pf ack kind bit =>
                  rw [super_type addr ctrl pf ack kind] at type
                  exact absurd type (by decide)
              | unnum bytes kind =>
                  exact joined.plainBA _ List.mem_cons_self bytes rfl
                    ⟨type, Or.inr (Or.inr (Or.inr xid))⟩

theorem Pair.Inv.next (inv : p.Inv) (deed : Deed) :
    Lapm.delivered p.a ++ (p.offered deed).getD [] <+: p.b.taken.flatten := by
  have whole : ∀ chars : Chars, chars.accept = ((p.offered deed).getD []).length →
      (p.stepA (deed.event chars)).Inv →
        Lapm.delivered p.a ++ (p.offered deed).getD [] <+: p.b.taken.flatten := by
    intro chars accepts inv'
    have ordered := inv'.swap.delivered
    change Lapm.delivered (p.stepA (deed.event chars)).a <+:
      (p.stepA (deed.event chars)).b.taken.flatten at ordered
    rw [p.stepA_b] at ordered
    have logs : (Lapm.traffic (p.stepA (deed.event chars)).a).delivered =
        ((Lapm.traffic p.a).deliver (p.offered deed) chars.accept).delivered := by
      rcases inv.traffic deed chars with same | ⟨given, -, -, same⟩
      · rw [same]
      · rw [same]
    have full : ((Lapm.traffic p.a).deliver (p.offered deed) chars.accept).delivered =
        Lapm.delivered p.a ++ (p.offered deed).getD [] := by
      simp only [Traffic.deliver, accepts, List.take_length]
      rfl
    rw [← full, ← logs]
    exact ordered
  cases deed with
  | fetch | lose | timeout =>
      change Lapm.delivered p.a ++ [] <+: _
      rw [List.append_nil]
      exact inv.swap.delivered
  | deliver =>
      apply whole { get := none, accept := _, fails := false } rfl
      exact inv.stepA _ fun bytes sent => by cases sent
  | push =>
      apply whole { get := none, accept := _, fails := false } rfl
      exact inv.stepA _ fun bytes sent => by cases sent

end Link

/-! ### The joint invariant -/

structure Talk.Sound (c : CompState) (t : Talk) (typedA typedB : List UInt8) : Prop where
  inv : t.pair.Inv
  wiredA : t.a.Wired c typedA t.b.modem.taken.flatten
  wiredB : t.b.Wired c typedB t.a.modem.taken.flatten

section Sound

variable {c : CompState} {t : Talk} {typedA typedB : List UInt8}

theorem Talk.Sound.swap (sound : t.Sound c typedA typedB) : t.swap.Sound c typedB typedA :=
  { inv := sound.inv.swap
    wiredA := sound.wiredB
    wiredB := sound.wiredA }

theorem Talk.Sound.typed (sound : t.Sound c typedA typedB) (chars : List UInt8) :
    ∃ t', t.stepA (.typed chars) = .ok t' ∧ t'.Sound c (typedA ++ chars) typedB := by
  refine ⟨_, rfl, sound.inv, ?_, sound.wiredB⟩
  exact { sound.wiredA with speaks := sound.wiredA.speaks.arrive chars }

theorem Talk.Sound.poll (sound : t.Sound c typedA typedB) :
    ∃ t', t.stepA .poll = .ok t' ∧ t'.Sound c typedA typedB := by
  obtain ⟨source, buf, asked, -, speaks, output⟩ := sound.wiredA.ask
  simp only [Talk.stepA, asked, Comp.ok_bind]
  by_cases nothing : buf = []
  · rw [if_pos nothing]
    refine ⟨_, rfl, sound.inv, ?_, sound.wiredB⟩
    refine { sound.wiredA with speaks := speaks, fed := ?_ }
    rw [output, nothing, List.append_nil]
    exact sound.wiredA.fed
  · rw [if_neg nothing]
    exact ⟨t, rfl, sound⟩

theorem Talk.Sound.deed (sound : t.Sound c typedA typedB) (deed : Deed) (answers : List Nat)
    (proper : t.Proper deed answers) :
    ∃ t', t.stepA (.deed deed answers) = .ok t' ∧ t'.Sound c typedA typedB := by
  obtain ⟨source, buf, asked, few, speaks, output⟩ := sound.wiredA.ask
  have readable : ∀ bytes, bytes <+: t.b.modem.taken.flatten →
      ∃ last, c.decodeBytes bytes = .ok last := by
    intro bytes cut
    rw [sound.wiredB.fed] at cut
    obtain ⟨d, decoded, -⟩ := sound.wiredB.speaks.heard cut
    exact ⟨d, decoded⟩
  obtain ⟨terminal, accept, written, inOrder, held⟩ :=
    sound.wiredA.write answers (sound.inv.next deed) readable proper.calm
  have answered : t.answer deed answers =
      .ok ({ get := some buf, accept := accept, fails := false }, source, terminal) := by
    simp only [Talk.answer, asked, written, Comp.ok_bind]
  have inv' := sound.inv.stepA (deed.event { get := some buf, accept := accept, fails := false })
    (proper.plain _ _ _ answered)
  have fed := sound.inv.traffic deed { get := some buf, accept := accept, fails := false }
  have still := t.pair.stepA_b (deed.event { get := some buf, accept := accept, fails := false })
  simp only [Talk.stepA, answered, Comp.ok_bind]
  generalize t.pair.stepA (deed.event { get := some buf, accept := accept, fails := false }) = p'
    at inv' fed still ⊢
  have sizeA : t.pair.a.lapm.txInfoSize = lapmMaxInfoSize := sound.wiredA.size
  have bTaken : p'.b.taken = t.b.modem.taken := congrArg Modem.taken still
  have logs : delivered p'.a =
      delivered t.a.modem ++ ((t.pair.offered deed).getD []).take accept ∧
      p'.a.lapm.txInfoSize = lapmMaxInfoSize ∧
      (p'.a.taken = t.a.modem.taken ∨ buf ≠ [] ∧ p'.a.taken = t.a.modem.taken ++ [buf]) := by
    rcases fed with same | ⟨given, asked', some', same⟩
    · exact ⟨congrArg Traffic.delivered same, (congrArg Traffic.infoSize same).trans sizeA,
        Or.inl (congrArg Traffic.taken same)⟩
    · obtain rfl := Option.some.inj asked'
      have all : buf.take t.pair.a.lapm.txInfoSize = buf := by
        apply List.take_of_length_le
        rw [sizeA]
        exact few
      refine ⟨congrArg Traffic.delivered same, (congrArg Traffic.infoSize same).trans sizeA,
        Or.inr ⟨?_, ?_⟩⟩
      · rw [← all]
        exact some'
      · have taken := congrArg Traffic.taken same
        change p'.a.taken = t.a.modem.taken ++ [buf.take t.pair.a.lapm.txInfoSize] at taken
        rw [all] at taken
        exact taken
  obtain ⟨deliveredEq, size, takenEq⟩ := logs
  have inOrder' : Comp.Receiver.InOrder c
      { terminal := terminal, rest := [], consumed := delivered p'.a } := by
    rw [deliveredEq]
    exact inOrder
  have held' : terminal.decoder.strData = [] ∨
      ∃ more, more ≠ [] ∧ delivered p'.a ++ more <+: p'.b.taken.flatten := by
    rw [deliveredEq, bTaken]
    exact held
  refine ⟨_, rfl, inv', ?_, ?_⟩
  · rcases takenEq with same | ⟨some', more⟩
    · rw [if_pos same]
      refine ⟨sound.wiredA.speaks, ?_, size, inOrder', held'⟩
      exact (congrArg List.flatten same).trans sound.wiredA.fed
    · have grown : ¬p'.a.taken = t.a.modem.taken := by
        rw [more]
        simp
      rw [if_neg grown]
      refine ⟨speaks, ?_, size, inOrder', held'⟩
      change p'.a.taken.flatten = source.output
      rw [more, output, ← sound.wiredA.fed]
      simp
  · have wiredB : Station.Wired c { t.b with modem := p'.b } typedB t.a.modem.taken.flatten := by
      rw [still]
      exact sound.wiredB
    apply wiredB.later
    rcases takenEq with same | ⟨some', more⟩
    · rw [same]
    · simp [more]

theorem Talk.Sound.stepA (sound : t.Sound c typedA typedB) (event : TextEvent)
    (proper : ∀ deed answers, event = .deed deed answers → t.Proper deed answers) :
    ∃ t', t.stepA event = .ok t' ∧ t'.Sound c (typedA ++ event.chars) typedB := by
  cases event with
  | typed chars => exact sound.typed chars
  | poll =>
      rw [TextEvent.chars, List.append_nil]
      exact sound.poll
  | deed deed answers =>
      rw [TextEvent.chars, List.append_nil]
      exact sound.deed deed answers (proper deed answers rfl)

theorem Talk.Sound.step (sound : t.Sound c typedA typedB) (move : TextMove)
    (proper : t.ProperMove move) :
    ∃ t', t.step move = .ok t' ∧
      t'.Sound c (typedA ++ move.charsA) (typedB ++ move.charsB) := by
  cases move with
  | a event =>
      simp only [TextMove.charsA, TextMove.charsB, List.append_nil]
      apply sound.stepA event
      intro deed answers same
      subst same
      exact proper
  | b event =>
      simp only [TextMove.charsA, TextMove.charsB, List.append_nil]
      obtain ⟨t', stepped, sound'⟩ := sound.swap.stepA event (by
        intro deed answers same
        subst same
        exact proper)
      refine ⟨t'.swap, ?_, sound'.swap⟩
      simp only [Talk.step, stepped, Comp.ok_bind]

theorem Talk.Sound.run (sound : t.Sound c typedA typedB) (moves : List TextMove)
    (proper : t.ProperRun moves) :
    ∃ t', t.run moves = .ok t' ∧
      t'.Sound c (typedA ++ Lapm.typedA moves) (typedB ++ Lapm.typedB moves) := by
  induction moves generalizing t typedA typedB with
  | nil =>
      refine ⟨t, rfl, ?_⟩
      simp only [Lapm.typedA, Lapm.typedB, List.flatMap_nil, List.append_nil]
      exact sound
  | cons move rest ih =>
      obtain ⟨t₁, stepped, sound₁⟩ := sound.step move proper.1
      obtain ⟨t', ran, sound'⟩ := ih sound₁ (proper.2 t₁ stepped)
      refine ⟨t', ?_, ?_⟩
      · rw [Talk.run, stepped, Comp.ok_bind]
        exact ran
      · simp only [Lapm.typedA, Lapm.typedB, List.flatMap_cons, ← List.append_assoc]
        exact sound'

theorem Talk.Sound.shows (sound : t.Sound c typedA typedB) : t.b.terminal.pty <+: typedA := by
  have cut := sound.inv.delivered
  change delivered t.b.modem <+: t.a.modem.taken.flatten at cut
  rw [sound.wiredA.fed] at cut
  obtain ⟨d, decoded, saying⟩ := sound.wiredA.speaks.heard cut
  have screen := sound.wiredB.inOrder.screen decoded
  apply List.IsPrefix.trans _ saying
  rw [← screen, List.append_assoc]
  exact List.prefix_append _ _

/-- Nothing is on the way from `a` to the terminal of `b`: what `get_chars` has returned
was delivered, it had nothing more to return, and the pty has taken everything. -/
structure Talk.Arrived (t : Talk) : Prop where
  idle : t.a.source.Idle
  delivered : delivered t.b.modem = t.a.modem.taken.flatten
  passed : t.b.terminal.count = 0

theorem Talk.Sound.shows_all (sound : t.Sound c typedA typedB) (arrived : t.Arrived) :
    t.b.terminal.pty = typedA := by
  have whole : delivered t.b.modem = t.a.source.output :=
    arrived.delivered.trans sound.wiredA.fed
  obtain ⟨d, decoded, -⟩ := sound.wiredA.speaks.heard (List.prefix_refl _)
  rw [← whole] at decoded
  have screen := sound.wiredB.inOrder.screen decoded
  have nothing : t.b.terminal.decoder.strData = [] := by
    rcases sound.wiredB.held with nothing | ⟨more, some', cut⟩
    · exact nothing
    · have longer := cut.length_le
      rw [arrived.delivered, List.length_append] at longer
      have positive := List.length_pos_iff.mpr some'
      omega
  rw [nothing, arrived.passed, Comp.Terminal.window_zero, List.append_nil,
    List.append_nil] at screen
  rw [screen]
  rw [whole] at decoded
  exact sound.wiredA.speaks.heard_all arrived.idle decoded

end Sound

/-! ### Runs from a reset -/

def Station.start (c : CompState) (m : Modem) : Station :=
  { modem := m
    source := .start c
    terminal := .start c }

/-- Two modems with nothing on the way. -/
def Talk.start (c : CompState) (a b : Modem) : Talk :=
  { a := .start c a
    b := .start c b
    ab := []
    ba := [] }

theorem Station.start_wired {dictSize maxStr : Int} {c : CompState} (sizeLow : 512 ≤ dictSize)
    (sizeHigh : dictSize ≤ 2048) (strLow : 6 ≤ maxStr) (strHigh : maxStr ≤ 34)
    (initialised : Comp.compInit dictSize maxStr = some c) {m : Modem} (fresh : JustReset m)
    (size : m.lapm.txInfoSize = lapmMaxInfoSize) (peerTaken : List UInt8) :
    (Station.start c m).Wired c [] peerTaken := by
  have hears := Comp.Hears.start strHigh initialised
  constructor
  · exact Speaks.start dictSize maxStr sizeLow sizeHigh strLow strHigh initialised
  · exact congrArg List.flatten fresh.taken
  · exact size
  · have nothing : delivered (Station.start c m).modem = [] := fresh.delivered
    rw [nothing]
    exact hears.toInOrder
  · exact Or.inl (hears.emptied rfl)

/-- Compressed text over a link that loses frames.  In every run from a reset in which
compression stays in use, no SABME, DISC, DM or XID is transmitted and every call of
`put_chars` is calm, no call of the codec fails and each terminal shows a beginning of
what is typed at the other end; it shows all of it whenever nothing is on the way. -/
theorem text_over_link (dictSize maxStr : Int) (sizeLow : 512 ≤ dictSize)
    (sizeHigh : dictSize ≤ 2048) (strLow : 6 ≤ maxStr) (strHigh : maxStr ≤ 34) (c : CompState)
    (initialised : Comp.compInit dictSize maxStr = some c) (a b : Modem) (freshA : JustReset a)
    (freshB : JustReset b) (sizeA : a.lapm.txInfoSize = lapmMaxInfoSize)
    (sizeB : b.lapm.txInfoSize = lapmMaxInfoSize) (moves : List TextMove)
    (proper : (Talk.start c a b).ProperRun moves) :
    ∃ t, (Talk.start c a b).run moves = .ok t ∧
      t.b.terminal.pty <+: typedA moves ∧ t.a.terminal.pty <+: typedB moves ∧
      (t.Arrived → t.b.terminal.pty = typedA moves) ∧
      (t.swap.Arrived → t.a.terminal.pty = typedB moves) := by
  have fresh : (Talk.start c a b).pair.Fresh :=
    { a := freshA
      b := freshB
      ab := rfl
      ba := rfl }
  have starting : (Talk.start c a b).Sound c [] [] :=
    { inv := fresh.inv
      wiredA := Station.start_wired sizeLow sizeHigh strLow strHigh initialised freshA sizeA _
      wiredB := Station.start_wired sizeLow sizeHigh strLow strHigh initialised freshB sizeB _ }
  obtain ⟨t, ran, sound⟩ := starting.run moves proper
  rw [List.nil_append, List.nil_append] at sound
  exact ⟨t, ran, sound.shows, sound.swap.shows, sound.shows_all, sound.swap.shows_all⟩

def shortTalk : List TextMove :=
  [.a (.typed [97, 98]), .a (.deed .fetch []), .b (.deed .deliver [1, 1])]

theorem shortTalk_proper :
    (Talk.start (Comp.dictInit (Comp.compAlloc 512 6)) (linkedEnd true)
      (linkedEnd false)).ProperRun shortTalk := by
  constructor
  · trivial
  intro t₁ stepped₁
  obtain rfl := Except.ok.inj stepped₁
  constructor
  · constructor
    · exact ⟨by decide, by decide⟩
    · intro chars source terminal answered bytes sent
      have charsEq : { get := some [97, 98], accept := 0, fails := false } = chars :=
        Except.ok.inj (congrArg (Except.map Prod.fst) answered)
      subst charsEq
      have bytesEq : bytes = [3, 0, 0, 97, 98] := (Option.some.inj sent).symm
      rw [bytesEq]
      rintro ⟨type, _⟩
      exact absurd type (by decide)
    · intro bytes offered
      cases offered
  intro t₂ stepped₂
  obtain rfl := Except.ok.inj stepped₂
  constructor
  · constructor
    · exact ⟨by decide, by decide⟩
    · intro chars source terminal answered bytes sent
      cases sent
    · intro bytes offered
      have bytesEq : [97, 98] = bytes := Option.some.inj offered
      subst bytesEq
      intro t answers t' answers' sent looped
      obtain ⟨rfl, rest⟩ := Prod.mk.inj sent
      obtain ⟨-, rfl⟩ := Prod.mk.inj rest
      have count : ((Comp.Terminal.start (Comp.dictInit (Comp.compAlloc 512 6))).putLoop
          [1, 1] [97, 98]).map (fun result => result.1.count) = .ok 0 := rfl
      change (Comp.Terminal.start (Comp.dictInit (Comp.compAlloc 512 6))).putLoop
        [1, 1] [97, 98] = _ at looped
      rw [looped] at count
      exact Or.inl (Except.ok.inj count)
  intro t₃ stepped₃
  trivial

theorem text_over_link_of_two_chars :
    ∃ t, (Talk.start (Comp.dictInit (Comp.compAlloc 512 6)) (linkedEnd true)
      (linkedEnd false)).run shortTalk = .ok t ∧ t.b.terminal.pty = [97, 98] := by
  obtain ⟨t, ran, -, -, complete, -⟩ := text_over_link 512 6 (by decide) (by decide) (by decide)
    (by decide) (Comp.dictInit (Comp.compAlloc 512 6)) rfl (linkedEnd true) (linkedEnd false)
    (linkedEnd_justReset true) (linkedEnd_justReset false) rfl rfl shortTalk shortTalk_proper
  refine ⟨t, ran, complete ⟨⟨?_, 128, [97, 98], ?_, by decide⟩, ?_, ?_⟩⟩
  · exact (Except.ok.inj (congrArg (Except.map fun t => t.a.source.queue) ran)).symm
  · have last := Except.ok.inj (congrArg (Except.map fun t => t.a.source.returned.getLast?) ran)
    exact last.symm
  · have got : [97, 98] = delivered t.b.modem :=
      Except.ok.inj (congrArg (Except.map fun t : Talk => delivered t.b.modem) ran)
    have gave : [97, 98] = t.a.modem.taken.flatten :=
      Except.ok.inj (congrArg (Except.map fun t : Talk => t.a.modem.taken.flatten) ran)
    exact got.symm.trans gave
  · exact (Except.ok.inj (congrArg (Except.map fun t => t.b.terminal.count) ran)).symm

end DModem.Lapm
