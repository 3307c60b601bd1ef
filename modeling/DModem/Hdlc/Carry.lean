/-
Frames on the way between the packer of one modem and the unpacker of another.

`get_tx_frame` is any function here, and what it has answered so far is a list that grows.
A symbol that is sent may take one more frame from it; a symbol that is received may
deliver the oldest frame on the way.
-/

import DModem.Hdlc.RoundTrip

namespace DModem.Hdlc

open DModem.Lib

/-! ### The two halves of the state -/

def HdlcState.sender (h : HdlcState) : Option Frame × Nat × BitsState :=
  (h.txFrame, h.txOnes, h.pack)

def HdlcState.receiver (h : HdlcState) : Frame × Nat × Nat × BitsState :=
  (h.rxFrame, h.rxError, h.rxOnes, h.unpack)

namespace HdlcState

section Halves

variable (h : HdlcState)

theorem receiver_putBitsOf (left : Nat) (input : BitVec 8) :
    (putBitsOf left h input).receiver = h.receiver := by
  induction left generalizing h input with
  | zero => rfl
  | succ left ih =>
      rw [putBitsOf, ih]
      unfold putBit
      split_ifs
      · rfl
      · rfl
      · rfl

theorem receiver_refill {σ : Type} (getTxFrame : σ → Option Frame × σ) (framer : σ) :
    (refill getTxFrame h framer).1.receiver = h.receiver := by
  unfold refill
  cases h.txFrame with
  | none => rfl
  | some f =>
      simp only
      split
      · change (((h.hdlcPutByte _).hdlcPutByte _).receiver) = h.receiver
        rw [hdlcPutByte, receiver_putBitsOf, hdlcPutByte, receiver_putBitsOf]
      · rw [hdlcPutByte, receiver_putBitsOf]
        rfl

theorem receiver_refillFor {σ : Type} (getTxFrame : σ → Option Frame × σ) (nbits rounds : Nat)
    (framer : σ) : (refillFor getTxFrame nbits rounds h framer).1.receiver = h.receiver := by
  induction rounds generalizing h framer with
  | zero => rfl
  | succ rounds ih =>
      unfold refillFor
      split
      · rfl
      · simp only
        rw [ih, receiver_refill]

theorem receiver_getBits {σ : Type} (getTxFrame : σ → Option Frame × σ) (nbits bitCnt : Nat)
    (framer : σ) :
    (modemHdlcGetBits getTxFrame nbits bitCnt h framer).2.1.receiver = h.receiver := by
  induction bitCnt generalizing h framer with
  | zero => rfl
  | succ bitCnt ih =>
      rw [modemHdlcGetBits]
      simp only
      rw [ih]
      exact receiver_refillFor h getTxFrame nbits nbits framer

theorem sender_takeChar (left : Nat) (out : BitVec 8) :
    (takeChar left h out).1.sender = h.sender := by
  induction left generalizing h out with
  | zero => rfl
  | succ left ih =>
      rw [takeChar]
      simp only
      split
      · rfl
      · split
        · rw [ih]
          rfl
        · rw [ih]
          unfold takeBit
          split_ifs
          · rfl
          · rfl
          · rfl
          · rfl

theorem sender_putSymbol (nbits : Nat) (symbol : UInt8) :
    (h.putSymbol nbits symbol).1.sender = h.sender := by
  have taken := sender_takeChar (h.pushSymbol nbits symbol) 8 0
  unfold putSymbol
  simp only
  split
  · rfl
  · generalize takeChar 8 (h.pushSymbol nbits symbol) 0 = result at taken
    obtain ⟨h', outcome⟩ := result
    cases outcome with
    | flag frame => exact taken
    | char out =>
        simp only
        rw [← show h'.sender = h.sender from taken]
        unfold finishChar
        split_ifs
        · rfl
        · rfl
        · rfl

theorem putSymbol_atMost (nbits : Nat) (symbol : UInt8) :
    (h.putSymbol nbits symbol).2 = [] ∨ ∃ f, (h.putSymbol nbits symbol).2 = [f] := by
  unfold putSymbol
  simp only
  split
  · exact Or.inl rfl
  · generalize takeChar 8 (h.pushSymbol nbits symbol) 0 = result
    obtain ⟨h', outcome⟩ := result
    cases outcome with
    | char out => exact Or.inl rfl
    | flag frame =>
        cases frame with
        | none => exact Or.inl rfl
        | some f => exact Or.inr ⟨f, rfl⟩

end Halves

end HdlcState

theorem Receiving.of_receiver {all : List (Option (List UInt8))} {fed : List Bool}
    {h h' : HdlcState} {log : List (Nat × List UInt8)} (receiving : Receiving all fed h log)
    (same : h'.receiver = h.receiver) : Receiving all fed h' log := by
  obtain ⟨frame, rest⟩ := Prod.mk.inj same
  obtain ⟨error, rest⟩ := Prod.mk.inj rest
  obtain ⟨ones, unpack⟩ := Prod.mk.inj rest
  cases receiving with
  | waiting noisy empty size buffer place silent =>
      apply Receiving.waiting
      · rw [error]
        exact noisy
      · rw [frame]
        exact empty
      · rw [frame]
        exact size
      · rw [frame]
        exact buffer
      · rw [unpack]
        exact place
      · exact silent
  | inside done answer later octets left split cut holds place delivered =>
      apply Receiving.inside done answer later octets left split cut
      · constructor
        · rw [error]
          exact holds.clean
        · rw [ones]
          exact holds.ones
        · rw [frame]
          exact holds.count
        · rw [frame]
          exact holds.held
        · rw [frame]
          exact holds.fcs
        · rw [frame]
          exact holds.size
        · rw [frame]
          exact holds.buffer
      · rw [unpack]
        exact place
      · exact delivered

theorem Sending.of_sender {answers : Nat → Option (List UInt8)} {sent : List Bool}
    {h h' : HdlcState} {asked : Nat} (sending : Sending answers sent h asked)
    (same : h'.sender = h.sender) : Sending answers sent h' asked := by
  obtain ⟨frame, rest⟩ := Prod.mk.inj same
  obtain ⟨ones, pack⟩ := Prod.mk.inj rest
  constructor
  · rw [frame]
    exact sending.loaded
  · rw [ones]
    exact sending.few
  · rw [frame, ones]
    exact sending.idle
  · rw [← sending.line]
    unfold HdlcState.ahead HdlcState.unsent
    rw [frame, ones, pack]

/-! ### What the framer has answered -/

/-- The answers of a framer that has answered `all` so far. -/
def recorded (all : List (Option (List UInt8))) (n : Nat) : Option (List UInt8) := all.getD n none

theorem answered_recorded (all more : List (Option (List UInt8))) :
    answered (recorded (all ++ more)) all.length = all := by
  apply List.ext_getElem
  · simp [answered]
  · intro n within inside
    simp [answered, recorded, List.getD_eq_getElem?_getD, List.getElem?_append_left inside, inside]

theorem Sending.rebase {all : List (Option (List UInt8))} {answers : Nat → Option (List UInt8)}
    {sent : List Bool} {h : HdlcState} (sending : Sending answers sent h all.length)
    (same : answered answers all.length = all) (more : List (Option (List UInt8))) :
    Sending (recorded (all ++ more)) sent h all.length := by
  refine { sending with line := ?_ }
  have line := sending.line
  rw [same] at line
  rw [answered_recorded]
  exact line

theorem Receiving.grow {all : List (Option (List UInt8))} {fed : List Bool} {h : HdlcState}
    {log : List (Nat × List UInt8)} (receiving : Receiving all fed h log)
    (more : List (Option (List UInt8))) : Receiving (all ++ more) fed h log := by
  cases receiving with
  | waiting error empty size buffer place silent =>
      exact .waiting error empty size buffer place silent
  | inside done answer later octets left split cut holds place delivered =>
      apply Receiving.inside done answer (later ++ more) octets left _ cut holds place delivered
      rw [split, List.append_assoc, List.cons_append]

theorem Receiving.log_le {all : List (Option (List UInt8))} {fed : List Bool} {h : HdlcState}
    {log : List (Nat × List UInt8)} (receiving : Receiving all fed h log) :
    log <+: contents all := by
  cases receiving with
  | waiting error empty size buffer place silent =>
      rw [silent]
      exact List.nil_prefix
  | inside done answer later octets left split cut holds place delivered =>
      rw [delivered, split, contents_append]
      exact List.prefix_append _ _

/-! ### A refill -/

section Refill

variable {σ : Type}

def loadedFrame (text : List UInt8) : Frame :=
  { count := 0, size := text.length, fcs := 0, buf := text }

theorem refill_busy (getTxFrame : σ → Option Frame × σ) (h : HdlcState) (framer : σ)
    (answers : Nat → Option (List UInt8)) (asked : Nat) (busy : h.txFrame ≠ none) :
    HdlcState.refill getTxFrame h framer =
      ((HdlcState.refill (fetch answers) h asked).1, framer) ∧
      (HdlcState.refill (fetch answers) h asked).2 = asked := by
  unfold HdlcState.refill
  cases held : h.txFrame with
  | none => exact absurd held busy
  | some f =>
      simp only
      split
      · exact ⟨rfl, rfl⟩
      · exact ⟨rfl, rfl⟩

theorem refill_free (getTxFrame : σ → Option Frame × σ) (h : HdlcState) (framer : σ)
    (answers : Nat → Option (List UInt8)) (asked : Nat) (free : h.txFrame = none)
    (answer : (getTxFrame framer).1 = (answers asked).map loadedFrame) :
    HdlcState.refill getTxFrame h framer =
      ((HdlcState.refill (fetch answers) h asked).1, (getTxFrame framer).2) ∧
      (HdlcState.refill (fetch answers) h asked).2 = asked + 1 ∧
      (HdlcState.refill (fetch answers) h asked).1.txFrame.map Frame.buf = answers asked := by
  unfold HdlcState.refill fetch
  rw [free]
  simp only [answer]
  refine ⟨rfl, trivial, ?_⟩
  cases answers asked with
  | none => rfl
  | some text => rfl

theorem refillFor_once (getTxFrame : σ → Option Frame × σ) {nbits : Nat} (some' : 1 ≤ nbits)
    (h : HdlcState) (framer : σ)
    (enough : ¬nbits ≤ h.pack.bit →
      nbits ≤ (HdlcState.refill getTxFrame h framer).1.pack.bit) :
    HdlcState.refillFor getTxFrame nbits nbits h framer =
      if nbits ≤ h.pack.bit then (h, framer) else HdlcState.refill getTxFrame h framer := by
  obtain ⟨rounds, roundsEq⟩ : ∃ rounds, nbits = rounds + 1 := ⟨nbits - 1, by omega⟩
  have unrolled : HdlcState.refillFor getTxFrame nbits (rounds + 1) h framer =
      if nbits ≤ h.pack.bit then (h, framer) else HdlcState.refill getTxFrame h framer := by
    rw [HdlcState.refillFor]
    split
    · rfl
    · rename_i short
      have full := enough short
      simp only
      generalize HdlcState.refill getTxFrame h framer = next at full ⊢
      cases rounds with
      | zero => rfl
      | succ rounds =>
          rw [HdlcState.refillFor, if_pos full]
  rw [← unrolled, ← roundsEq]

end Refill

/-! ### Frames on the way -/

/-- `tx` has asked for the answers `all` and has put `sent` on the line, of which `rx` has
got all but `bits`.  Of the frames among the answers, `frames` are not yet delivered. -/
structure CarriesAt (all : List (Option (List UInt8))) (sent fed : List Bool)
    (log : List (Nat × List UInt8)) (tx rx : HdlcState) (bits : List Bool)
    (frames : List (List UInt8)) : Prop where
  sending : Sending (recorded all) sent tx all.length
  receiving : Receiving all fed rx log
  low : rx.unpack.bit ≤ 17
  sized : ∀ text, some text ∈ all → Sized text
  line : sent = fed ++ bits
  left : contents all = log ++ frames.map fun text => (text.length, text)

/-- The line carries `frames`, which were handed to `tx` and not yet delivered by `rx`. -/
def Carries (tx rx : HdlcState) (bits : List Bool) (frames : List (List UInt8)) : Prop :=
  ∃ all sent fed log, CarriesAt all sent fed log tx rx bits frames

section Carries

variable {tx rx : HdlcState} {bits : List Bool} {frames : List (List UInt8)}

theorem carries_start : Carries modemHdlcStart modemHdlcStart [] [] := by
  refine ⟨[], [], [], [], ?_⟩
  constructor
  · exact Sending.start _
  · exact Receiving.start []
  · exact Nat.zero_le 17
  · intro text member
    cases member
  · rfl
  · rfl

theorem Carries.of_sender {tx' : HdlcState} (carries : Carries tx rx bits frames)
    (same : tx'.sender = tx.sender) : Carries tx' rx bits frames := by
  rcases carries with ⟨all, sent, fed, log, at'⟩
  exact ⟨all, sent, fed, log, { at' with sending := at'.sending.of_sender same }⟩

theorem Carries.of_receiver {rx' : HdlcState} (carries : Carries tx rx bits frames)
    (same : rx'.receiver = rx.receiver) : Carries tx rx' bits frames := by
  rcases carries with ⟨all, sent, fed, log, at'⟩
  obtain ⟨-, rest⟩ := Prod.mk.inj same
  obtain ⟨-, rest⟩ := Prod.mk.inj rest
  obtain ⟨-, unpack⟩ := Prod.mk.inj rest
  exact ⟨all, sent, fed, log,
    { at' with
      receiving := at'.receiving.of_receiver same
      low := unpack ▸ at'.low }⟩

theorem CarriesAt.sends {all : List (Option (List UInt8))} {sent fed : List Bool}
    {log : List (Nat × List UInt8)} (at' : CarriesAt all sent fed log tx rx bits frames)
    {tx' : HdlcState} {more : List Bool}
    (sending : Sending (recorded all) (sent ++ more) tx' all.length) :
    Carries tx' rx (bits ++ more) frames := by
  refine ⟨all, sent ++ more, fed, log, ?_⟩
  exact
    { at' with
      sending := sending
      line := by rw [at'.line, List.append_assoc] }

theorem CarriesAt.take {all : List (Option (List UInt8))} {sent fed : List Bool}
    {log : List (Nat × List UInt8)} (at' : CarriesAt all sent fed log tx rx bits frames)
    {σ : Type} {getTxFrame : σ → Option Frame × σ} {framer framer' : σ} {tx₀ : HdlcState}
    {nbits : Nat} (ready : HdlcState.refillFor getTxFrame nbits nbits tx₀ framer = (tx, framer'))
    (small : nbits ≤ 8) (full : nbits ≤ tx.pack.bit) :
    let next := HdlcState.modemHdlcGetBits getTxFrame nbits 1 tx₀ framer
    next.2.2 = framer' ∧ next.2.1.txFrame = tx.txFrame ∧
      Carries next.2.1 rx (bits ++ next.1.flatMap (symbolBits nbits)) frames := by
  have taken := at'.sending.take_symbol small full
  simp only [HdlcState.modemHdlcGetBits, ready, List.flatMap_cons, List.flatMap_nil,
    List.append_nil]
  exact ⟨trivial, trivial, at'.sends taken⟩

theorem CarriesAt.ask {all : List (Option (List UInt8))} {sent fed : List Bool}
    {log : List (Nat × List UInt8)} (at' : CarriesAt all sent fed log tx rx bits frames)
    {answer : Option (List UInt8)} (sized : ∀ text, answer = some text → Sized text)
    {tx' : HdlcState}
    (sending : Sending (recorded (all ++ [answer])) sent tx' (all ++ [answer]).length) :
    CarriesAt (all ++ [answer]) sent fed log tx' rx bits (frames ++ answer.toList) := by
  constructor
  · exact sending
  · exact at'.receiving.grow [answer]
  · exact at'.low
  · intro text member
    rcases List.mem_append.mp member with old | new
    · exact at'.sized text old
    · exact sized text (List.mem_singleton.mp new).symm
  · exact at'.line
  · rw [contents_append, at'.left]
    cases answer with
    | none => simp [contents]
    | some text => simp [contents]

/-- A symbol is sent.  Either the framer was not asked, or it was asked once, and the frame
that it handed out is on the way too. -/
theorem Carries.get {σ : Type} (carries : Carries tx rx bits frames)
    (getTxFrame : σ → Option Frame × σ) (framer : σ) (answer : Option (List UInt8))
    (answers : (getTxFrame framer).1 = answer.map loadedFrame)
    (sized : ∀ text, answer = some text → Sized text) {nbits : Nat} (some' : 1 ≤ nbits)
    (small : nbits ≤ 8) :
    let next := HdlcState.modemHdlcGetBits getTxFrame nbits 1 tx framer
    (next.2.2 = framer ∧
        Carries next.2.1 rx (bits ++ next.1.flatMap (symbolBits nbits)) frames) ∨
      (next.2.2 = (getTxFrame framer).2 ∧ next.2.1.txFrame.map Frame.buf = answer ∧
        Carries next.2.1 rx (bits ++ next.1.flatMap (symbolBits nbits))
          (frames ++ answer.toList)) := by
  rcases carries with ⟨all, sent, fed, log, at'⟩
  have known := answered_recorded all []
  rw [List.append_nil] at known
  have sending := at'.sending.rebase known [answer]
  have last : recorded (all ++ [answer]) all.length = answer := by
    simp [recorded]
  by_cases full : nbits ≤ tx.pack.bit
  · left
    have ready := refillFor_once getTxFrame some' tx framer (fun short => absurd full short)
    rw [if_pos full] at ready
    obtain ⟨same, -, carries⟩ := at'.take ready small full
    exact ⟨same, carries⟩
  · have refilled := sending.refill_spec (by omega)
    have enough := small.trans refilled.2
    by_cases free : tx.txFrame = none
    · right
      obtain ⟨once, asked, held⟩ := refill_free getTxFrame tx framer (recorded (all ++ [answer]))
        all.length free (by rw [last]; exact answers)
      have ready := refillFor_once getTxFrame some' tx framer (fun _ => by rw [once]; exact enough)
      rw [if_neg full, once] at ready
      have more := refilled.1
      rw [asked, ← show (all ++ [answer]).length = all.length + 1 from List.length_append] at more
      obtain ⟨same, frame, carries⟩ := (at'.ask sized more).take ready small enough
      refine ⟨same, ?_, carries⟩
      rw [frame, held, last]
    · left
      obtain ⟨once, asked⟩ := refill_busy getTxFrame tx framer (recorded (all ++ [answer]))
        all.length free
      have ready := refillFor_once getTxFrame some' tx framer (fun _ => by rw [once]; exact enough)
      rw [if_neg full, once] at ready
      have more := refilled.1
      rw [asked] at more
      have back := Sending.rebase more (answered_recorded all [answer]) []
      rw [List.append_nil] at back
      have going : CarriesAt all sent fed log _ rx bits frames := { at' with sending := back }
      obtain ⟨same, -, carries⟩ := going.take ready small enough
      exact ⟨same, carries⟩

theorem Carries.put {nbits : Nat} {symbol : UInt8} {rest : List Bool}
    (carries : Carries tx rx (symbolBits nbits symbol ++ rest) frames) (small : nbits ≤ 8) :
    let next := rx.putSymbol nbits symbol
    (next.2 = [] ∧ Carries tx next.1 rest frames) ∨
      ∃ text later f, frames = text :: later ∧ next.2 = [f] ∧ f.content = (text.length, text) ∧
        Carries tx next.1 rest later := by
  rcases carries with ⟨all, sent, fed, log, at'⟩
  have line : fed ++ symbolBits nbits symbol <+: lineBits all := by
    have whole := at'.sending.line
    have same := answered_recorded all []
    rw [List.append_nil] at same
    rw [same, at'.line, ← List.append_assoc, List.append_assoc] at whole
    rw [← whole]
    exact List.prefix_append _ _
  have received := at'.receiving.putSymbol at'.low at'.sized small symbol line
  have behind := received.1.log_le
  simp only at received behind ⊢
  rcases rx.putSymbol_atMost nbits symbol with nothing | ⟨f, one⟩
  · left
    rw [nothing, List.map_nil, List.append_nil] at received
    refine ⟨nothing, all, sent, fed ++ symbolBits nbits symbol, log, ?_⟩
    exact
      { at' with
        receiving := received.1
        low := received.2
        line := by rw [at'.line, List.append_assoc] }
  · right
    rw [one, List.map_singleton] at received behind
    rw [at'.left, List.prefix_append_right_inj] at behind
    cases frames with
    | nil =>
        simp at behind
    | cons text later =>
        rw [List.map_cons, List.cons_prefix_cons] at behind
        refine ⟨text, later, f, rfl, one, behind.1, all, sent, fed ++ symbolBits nbits symbol,
          log ++ [f.content], ?_⟩
        exact
          { at' with
            receiving := received.1
            low := received.2
            line := by rw [at'.line, List.append_assoc]
            left := by rw [at'.left, List.map_cons, behind.1, List.append_assoc]; rfl }

end Carries

end DModem.Hdlc
