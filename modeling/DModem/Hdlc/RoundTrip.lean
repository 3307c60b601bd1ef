/-
Frames that go through the packer of one modem and the unpacker of another.

The invariant of the receiver names the place on the line up to which it has
taken bits out of its register: inside the octets that follow some flag.  What is
left in the register is at most 17 bits, which bounds the delay of a delivery.
-/

import DModem.Hdlc.Receive

namespace DModem.Hdlc

open DModem.Lib

def Frame.content (f : Frame) : Nat × List UInt8 := (f.count, f.buf.take f.count)

def contents (answers : List (Option (List UInt8))) : List (Nat × List UInt8) :=
  answers.filterMap fun answer => answer.map fun text => (text.length, text)

theorem contents_append (front back : List (Option (List UInt8))) :
    contents (front ++ back) = contents front ++ contents back :=
  List.filterMap_append

def Sized (text : List UInt8) : Prop := 1 ≤ text.length ∧ text.length ≤ 510

structure HdlcState.Holds (h : HdlcState) (octets : List UInt8) : Prop where
  clean : h.rxError = 0
  ones : h.rxOnes = onesAfter 0 (bitsOf octets)
  count : h.rxFrame.count = octets.length
  held : h.rxFrame.buf.take octets.length = octets
  fcs : h.rxFrame.fcs = fcsOf octets
  size : h.rxFrame.size = 512
  buffer : h.rxFrame.buf.length = 512

/-- The receiver has got the bits `fed` of the line of `all`, and has delivered
what `log` says. -/
inductive Receiving (all : List (Option (List UInt8))) (fed : List Bool) (h : HdlcState)
    (log : List (Nat × List UInt8)) : Prop where
  | waiting (error : h.rxError ≠ 0) (empty : h.rxFrame.count = 0)
      (size : h.rxFrame.size = 512) (buffer : h.rxFrame.buf.length = 512)
      (place : fed = h.unpack.bits) (silent : log = [])
  | inside (done : List (Option (List UInt8))) (answer : Option (List UInt8))
      (later : List (Option (List UInt8))) (octets left : List UInt8)
      (split : all = done ++ answer :: later)
      (cut : answer.elim [] checked = octets ++ left) (holds : h.Holds octets)
      (place : fed = lineBits done ++ flagBits ++ stuff 0 (bitsOf octets) ++ h.unpack.bits)
      (delivered : log = contents done)

theorem lineBits_head (answers : List (Option (List UInt8))) :
    (lineBits answers).head? ≠ some true := by
  cases answers with
  | nil => simp [lineBits]
  | cons answer rest => simp [lineBits, answerBits, flagBits]

theorem flag_of_line {answers : List (Option (List UInt8))} {bits : List Bool}
    (line : bits <+: lineBits answers) (enough : 8 ≤ bits.length) :
    ∃ answer rest, answers = answer :: rest ∧ flagBits <+: bits := by
  cases answers with
  | nil =>
      rw [lineBits, List.flatMap_nil, List.prefix_nil] at line
      rw [line] at enough
      simp at enough
  | cons answer rest =>
      refine ⟨answer, rest, rfl, ?_⟩
      apply List.prefix_of_prefix_length_le _ line
      · exact enough
      · rw [lineBits, List.flatMap_cons, answerBits, List.append_assoc]
        exact List.prefix_append _ _

namespace HdlcState

variable {h : HdlcState} {octets : List UInt8}

theorem finishFrame_bits (enough : 8 ≤ h.unpack.bit) (flag : flagBits <+: h.unpack.bits) :
    h.unpack.bits = flagBits ++ h.finishFrame.unpack.bits := by
  rw [finishFrame, bits_drop h.unpack 8 enough]
  conv_lhs => rw [← List.take_append_drop 8 h.unpack.bits]
  rw [List.prefix_iff_eq_take] at flag
  rw [flag]
  rfl

theorem finishFrame_holds (size : h.rxFrame.size = 512) (buffer : h.rxFrame.buf.length = 512) :
    h.finishFrame.Holds [] := by
  constructor
  · rfl
  · rfl
  · rfl
  · rfl
  · rfl
  · exact size
  · exact buffer

theorem Holds.finished {answer : Option (List UInt8)} (holds : h.Holds (answer.elim [] checked))
    (sized : ∀ text, answer = some text → Sized text) :
    (h.finishedFrame 0).toList.map Frame.content = contents [answer] := by
  have count := holds.count
  have fcs := holds.fcs
  have held := holds.held
  unfold finishedFrame
  cases answer with
  | none => simp [count, contents]
  | some text =>
      have bounds := sized text rfl
      simp only [Option.elim_some] at count fcs held
      rw [fcsOf_checked] at fcs
      have lengthEq : (checked text).length = text.length + 2 := by simp [checked]
      rw [lengthEq] at count held
      have bigEnough := bounds.1
      have taken : h.rxFrame.buf.take text.length = text := by
        have shorter := congrArg (List.take text.length) held
        rwa [List.take_take, Nat.min_eq_left (by omega), checked, List.take_left] at shorter
      rw [if_neg (by omega), if_neg (by simp [holds.clean]), if_neg (by simp), if_neg (by omega),
        if_neg (by simp [fcs])]
      simp [Frame.content, count, taken, contents]

theorem Holds.finishChar {h' : HdlcState} (holds : h.Holds octets) {c : UInt8}
    (took : Took h (octetBits c) h') (room : octets.length < 512) :
    (h'.finishChar c).Holds (octets ++ [c]) := by
  have frameEq : h'.rxFrame = h.rxFrame := by rw [took.frame]
  have errorEq : h'.rxError = h.rxError := by rw [took.frame]
  have noError : ¬ h'.rxError ≠ 0 := by
    rw [errorEq, holds.clean]
    exact fun absurdly => absurdly rfl
  have below : h'.rxFrame.count < h'.rxFrame.size := by
    rw [frameEq, holds.count, holds.size]
    exact room
  unfold HdlcState.finishChar
  rw [if_neg noError, if_pos below, frameEq, holds.count]
  constructor
  · exact errorEq.trans holds.clean
  · simp only [took.ones, holds.ones, bitsOf_append, onesAfter_append]
    rfl
  · simp
  · have stored : octets.length < h.rxFrame.buf.length := by
      rw [holds.buffer]
      exact room
    simp only [List.length_append, List.length_cons, List.length_nil]
    rw [List.take_succ_eq_append_getElem (by simpa using stored), List.take_set_of_le (Nat.le_refl _),
      holds.held, List.getElem_set_self]
  · simp only [holds.fcs, fcsOf, List.foldl_append, List.foldl_cons, List.foldl_nil]
  · exact holds.size
  · simpa using holds.buffer

end HdlcState

/-! ### One symbol -/

section Step

open HdlcState

variable {all : List (Option (List UInt8))} {fed : List Bool} {h : HdlcState}
  {log : List (Nat × List UInt8)}

theorem Receiving.push (receiving : Receiving all fed h log) (low : h.unpack.bit ≤ 17)
    {nbits : Nat} (small : nbits ≤ 8) (symbol : UInt8) :
    Receiving all (fed ++ symbolBits nbits symbol) (h.pushSymbol nbits symbol) log := by
  have bits := pushSymbol_bits h small symbol (by omega)
  cases receiving with
  | waiting error empty size buffer place silent =>
      exact .waiting error empty size buffer (by rw [place, bits]) silent
  | inside done answer later octets left split cut holds place delivered =>
      apply Receiving.inside done answer later octets left split cut
      · exact { holds with }
      · rw [place, bits, List.append_assoc]
      · exact delivered

theorem Receiving.take (receiving : Receiving all fed h log)
    (sized : ∀ text, some text ∈ all → Sized text) (line : fed <+: lineBits all)
    (enough : 18 ≤ h.unpack.bit) (bound : h.unpack.bit ≤ 25) :
    let next : HdlcState × List Frame :=
      match takeChar 8 h 0 with
      | (h, .flag frame) => (h, frame.toList)
      | (h, .char out) => (h.finishChar (UInt8.ofBitVec out), [])
    Receiving all fed next.1 (log ++ next.2.map Frame.content) ∧ next.1.unpack.bit ≤ 17 := by
  have lengthEq : h.unpack.bits.length = h.unpack.bit := window_length _ _
  cases receiving with
  | waiting error empty size buffer place silent =>
      rw [place] at line
      obtain ⟨answer, rest, split, flag⟩ := flag_of_line line (by omega)
      simp only [takeFlag_spec h (by omega) flag 0]
      constructor
      · apply Receiving.inside [] answer rest [] (answer.elim [] checked) split rfl
        · exact finishFrame_holds size buffer
        · rw [place, finishFrame_bits (by omega) flag]
          simp [lineBits, bitsOf, stuff]
        · simp [finishedFrame, empty, silent, contents]
      · simp only [finishFrame]
        omega
  | inside done answer later octets left split cut holds place delivered =>
      have lineEq : lineBits all = lineBits done ++ flagBits ++
          stuff 0 (bitsOf (octets ++ left)) ++ lineBits later := by
        rw [split, lineBits_append, lineBits, lineBits, List.flatMap_cons, answerBits, cut]
        simp [lineBits]
      have ahead : h.unpack.bits <+: stuff h.rxOnes (bitsOf left) ++ lineBits later := by
        rw [place, lineEq, bitsOf_append, stuff_append, ← holds.ones] at line
        simpa [List.append_assoc, List.prefix_append_right_inj] using line
      cases left with
      | nil =>
          rw [List.append_nil] at cut
          rw [← cut] at holds
          simp only [bitsOf, List.flatMap_nil, stuff, List.nil_append] at ahead
          obtain ⟨after, rest, laterEq, flag⟩ := flag_of_line ahead (by omega)
          have answerSized : ∀ text, answer = some text → Sized text := by
            intro text same
            apply sized text
            rw [split, same]
            simp
          simp only [takeFlag_spec h (by omega) flag 0]
          constructor
          · apply Receiving.inside (done ++ [answer]) after rest [] (after.elim [] checked)
            · rw [split, laterEq]
              simp
            · rfl
            · exact finishFrame_holds holds.size holds.buffer
            · rw [place, finishFrame_bits (by omega) flag, lineBits_append, ← cut]
              simp [lineBits, answerBits, bitsOf, stuff]
            · rw [holds.finished answerSized, delivered, contents_append]
          · simp only [finishFrame]
            omega
      | cons c left =>
          have few : h.rxOnes ≤ 4 := by
            rw [holds.ones]
            exact onesAfter_le (Nat.zero_le 4) _
          have room : octets.length < 512 := by
            have sizes := congrArg List.length cut
            cases answer with
            | none => simp at sizes
            | some text =>
                have bounds := sized text (by rw [split]; simp)
                simp only [Option.elim_some, checked, List.length_append, List.length_cons,
                  List.length_nil] at sizes
                have := bounds.2
                omega
          obtain ⟨h', took, charEq⟩ := takeOctet_spec c (bitsOf left) (lineBits later) h
            holds.clean few (lineBits_head later) enough ahead
          have sizes := took.length
          have grows := octet_grows h.rxOnes c
          have sameUnpack : (h'.finishChar c).unpack = h'.unpack := by
            unfold HdlcState.finishChar
            split_ifs <;> rfl
          simp only [charEq, UInt8.ofBitVec_toBitVec, List.map_nil, List.append_nil]
          constructor
          · apply Receiving.inside done answer later (octets ++ [c]) left split
            · rw [cut]
              simp
            · exact holds.finishChar took room
            · rw [place, sameUnpack, took.register, bitsOf_append, stuff_append, ← holds.ones]
              simp [bitsOf]
            · exact delivered
          · rw [sameUnpack]
            omega

theorem Receiving.putSymbol (receiving : Receiving all fed h log) (low : h.unpack.bit ≤ 17)
    (sized : ∀ text, some text ∈ all → Sized text) {nbits : Nat} (small : nbits ≤ 8)
    (symbol : UInt8) (line : fed ++ symbolBits nbits symbol <+: lineBits all) :
    let next := h.putSymbol nbits symbol
    Receiving all (fed ++ symbolBits nbits symbol) next.1 (log ++ next.2.map Frame.content) ∧
      next.1.unpack.bit ≤ 17 := by
  have pushed := receiving.push low small symbol
  have bit : (h.pushSymbol nbits symbol).unpack.bit = h.unpack.bit + nbits := rfl
  by_cases few : (h.pushSymbol nbits symbol).unpack.bit < 8 + 8 + 2
  · simp only [HdlcState.putSymbol, few, if_true, List.map_nil, List.append_nil]
    exact ⟨pushed, by omega⟩
  · have taken := pushed.take sized line (by omega) (by omega)
    simp only [HdlcState.putSymbol, few, if_false]
    exact taken

end Step

/-! ### Whole runs -/

/-- Calls of `modem_hdlc_get_bits`, each a symbol size with a count of symbols:
the bits they put on the line, and the state and the number of questions after. -/
def transmit (answers : Nat → Option (List UInt8)) :
    List (Nat × Nat) → HdlcState → Nat → List Bool × HdlcState × Nat
  | [], h, asked => ([], h, asked)
  | call :: rest, h, asked =>
      let next := HdlcState.modemHdlcGetBits (fetch answers) call.1 call.2 h asked
      let later := transmit answers rest next.2.1 next.2.2
      (next.1.flatMap (symbolBits call.1) ++ later.1, later.2)

/-- Calls of `modem_hdlc_put_bits`, each a symbol size with the symbols. -/
def receive : List (Nat × List UInt8) → HdlcState → HdlcState × List Frame
  | [], h => (h, [])
  | call :: rest, h =>
      let next := HdlcState.modemHdlcPutBits call.1 call.2 h
      let later := receive rest next.1
      (later.1, next.2 ++ later.2)

def fedBits (calls : List (Nat × List UInt8)) : List Bool :=
  calls.flatMap fun call => call.2.flatMap (symbolBits call.1)

/-- The number of bits up to the end of the flag that closes the answer `m - 1`. -/
def closedAt (answers : Nat → Option (List UInt8)) (m : Nat) : Nat :=
  (lineBits (answered answers m) ++ flagBits).length

theorem transmit_line {answers : Nat → Option (List UInt8)} {calls : List (Nat × Nat)}
    (symbols : ∀ call ∈ calls, 1 ≤ call.1 ∧ call.1 ≤ 8) {sent : List Bool} {h : HdlcState}
    {asked : Nat} (sending : Sending answers sent h asked) :
    let out := transmit answers calls h asked
    Sending answers (sent ++ out.1) out.2.1 out.2.2 := by
  induction calls generalizing sent h asked with
  | nil => simpa [transmit] using sending
  | cons call rest ih =>
      have size := symbols call List.mem_cons_self
      have once := sending.getBits_spec size.1 size.2 call.2
      have later := ih (fun other member => symbols other (List.mem_cons_of_mem call member)) once
      simpa [transmit, List.append_assoc] using later

section Receiver

variable {all : List (Option (List UInt8))} {fed : List Bool} {h : HdlcState}
  {log : List (Nat × List UInt8)}

theorem Receiving.putBits (sized : ∀ text, some text ∈ all → Sized text) {nbits : Nat}
    (small : nbits ≤ 8) (symbols : List UInt8) (receiving : Receiving all fed h log)
    (low : h.unpack.bit ≤ 17)
    (line : fed ++ symbols.flatMap (symbolBits nbits) <+: lineBits all) :
    let next := HdlcState.modemHdlcPutBits nbits symbols h
    Receiving all (fed ++ symbols.flatMap (symbolBits nbits)) next.1
      (log ++ next.2.map Frame.content) ∧ next.1.unpack.bit ≤ 17 := by
  induction symbols generalizing fed h log with
  | nil => simpa [HdlcState.modemHdlcPutBits] using ⟨receiving, low⟩
  | cons symbol rest ih =>
      rw [List.flatMap_cons, ← List.append_assoc] at line
      have once := receiving.putSymbol low sized small symbol
        ((List.prefix_append _ _).trans line)
      have later := ih once.1 once.2 line
      simpa [HdlcState.modemHdlcPutBits, List.append_assoc] using later

theorem Receiving.receive (sized : ∀ text, some text ∈ all → Sized text)
    (cuts : List (Nat × List UInt8)) (symbols : ∀ cut ∈ cuts, 1 ≤ cut.1 ∧ cut.1 ≤ 8)
    (receiving : Receiving all fed h log) (low : h.unpack.bit ≤ 17)
    (line : fed ++ fedBits cuts <+: lineBits all) :
    let next := Hdlc.receive cuts h
    Receiving all (fed ++ fedBits cuts) next.1 (log ++ next.2.map Frame.content) ∧
      next.1.unpack.bit ≤ 17 := by
  induction cuts generalizing fed h log with
  | nil => simpa [Hdlc.receive, fedBits] using ⟨receiving, low⟩
  | cons cut rest ih =>
      rw [fedBits, List.flatMap_cons, ← List.append_assoc] at line
      have size := symbols cut List.mem_cons_self
      have once := Receiving.putBits sized size.2 cut.2 receiving low
        ((List.prefix_append _ _).trans line)
      have later := ih (fun other member => symbols other (List.mem_cons_of_mem cut member))
        once.1 once.2 line
      simpa [Hdlc.receive, fedBits, List.append_assoc] using later

theorem Receiving.start (all : List (Option (List UInt8))) :
    Receiving all [] modemHdlcStart [] := by
  apply Receiving.waiting
  · decide
  · rfl
  · rfl
  · exact List.length_replicate
  · rfl
  · rfl

/-- The frames that were delivered are those up to some answer, and at most 17
bits of the line after them are still in the register. -/
theorem Receiving.progress (receiving : Receiving all fed h log) (low : h.unpack.bit ≤ 17) :
    ∃ n, n ≤ all.length ∧ log = contents (all.take n) ∧
      ∀ m, (lineBits (all.take m) ++ flagBits).length + 18 ≤ fed.length → m ≤ n := by
  have lengthEq : h.unpack.bits.length = h.unpack.bit := window_length _ _
  cases receiving with
  | waiting error empty size buffer place silent =>
      refine ⟨0, Nat.zero_le _, silent, ?_⟩
      intro m far
      rw [place, lengthEq] at far
      omega
  | inside done answer later octets left split cut holds place delivered =>
      refine ⟨done.length, ?_, ?_, ?_⟩
      · rw [split, List.length_append]
        omega
      · rw [delivered, split, List.take_left]
      · intro m far
        by_contra beyond
        have longer : (done ++ [answer]) <+: all.take m := by
          rw [List.prefix_take_iff]
          constructor
          · rw [split]
            exact ⟨later, by simp⟩
          · simp only [List.length_append, List.length_cons, List.length_nil]
            omega
        obtain ⟨more, moreEq⟩ := longer
        rw [← moreEq, lineBits_append, lineBits_append, place] at far
        simp only [lineBits, List.flatMap_cons, List.flatMap_nil, List.append_nil, answerBits, cut,
          bitsOf_append, stuff_append, List.length_append, lengthEq] at far
        omega

end Receiver

theorem answered_take (answers : Nat → Option (List UInt8)) {m asked : Nat} (le : m ≤ asked) :
    (answered answers asked).take m = answered answers m := by
  rw [answered, answered, ← List.map_take, List.take_range, Nat.min_eq_left le]

/-- The bits of any calls of the packer are a beginning of the line that the
answers of `get_tx_frame` describe.  Fed to a fresh unpacker in any cut, they make
it deliver the first frames, in order and unchanged, and every frame whose closing
flag is 18 bits back is among them. -/
theorem hdlc_round_trip (answers : Nat → Option (List UInt8))
    (sized : ∀ n text, answers n = some text → 1 ≤ text.length ∧ text.length ≤ 510)
    (calls : List (Nat × Nat)) (symbols : ∀ call ∈ calls, 1 ≤ call.1 ∧ call.1 ≤ 8)
    (cuts : List (Nat × List UInt8)) (cutSymbols : ∀ cut ∈ cuts, 1 ≤ cut.1 ∧ cut.1 ≤ 8)
    (fed : fedBits cuts <+: (transmit answers calls modemHdlcStart 0).1) :
    (transmit answers calls modemHdlcStart 0).1 <+:
        lineBits (answered answers (transmit answers calls modemHdlcStart 0).2.2) ∧
      ∃ n, n ≤ (transmit answers calls modemHdlcStart 0).2.2 ∧
        (receive cuts modemHdlcStart).2.map Frame.content = contents (answered answers n) ∧
        ∀ m, closedAt answers m + 18 ≤ (fedBits cuts).length → m ≤ n := by
  have sent := transmit_line symbols (Sending.start answers)
  obtain ⟨asked, askedEq⟩ : ∃ asked, (transmit answers calls modemHdlcStart 0).2.2 = asked :=
    ⟨_, rfl⟩
  simp only [List.nil_append, askedEq] at sent ⊢
  have onLine : (transmit answers calls modemHdlcStart 0).1 <+:
      lineBits (answered answers asked) := by
    rw [← sent.line]
    exact List.prefix_append _ _
  have allSized : ∀ text, some text ∈ answered answers asked → Sized text := by
    intro text member
    obtain ⟨n, _, same⟩ := List.mem_map.mp member
    exact sized n text same
  have received := Receiving.receive allSized cuts cutSymbols
    (Receiving.start (answered answers asked)) (Nat.zero_le 17)
    (by simpa using fed.trans onLine)
  simp only [List.nil_append] at received
  obtain ⟨n, nLe, log, prompt⟩ := received.1.progress received.2
  have lengthEq : (answered answers asked).length = asked := by simp [answered]
  rw [lengthEq] at nLe
  rw [answered_take answers nLe] at log
  refine ⟨onLine, n, nLe, log, ?_⟩
  intro m far
  by_cases within : m ≤ asked
  · apply prompt m
    rw [answered_take answers within]
    exact far
  · have shorter := (fed.trans onLine).length_le
    have all : (answered answers asked).take m = answered answers asked :=
      List.take_of_length_le (by omega)
    have front : answered answers m = answered answers asked ++ (answered answers m).drop asked := by
      rw [← answered_take answers (show asked ≤ m by omega), List.take_append_drop]
    rw [closedAt, front, lineBits_append] at far
    simp only [List.length_append] at far
    omega

def oneFrame (n : Nat) : Option (List UInt8) := if n = 0 then some [0x41] else none

def oneFrameCuts : List (Nat × List UInt8) := [(8, [126, 130, 175, 162, 191, 63, 63, 63])]

theorem hdlc_round_trip_of_one_frame :
    closedAt oneFrame 1 + 18 ≤ (fedBits oneFrameCuts).length ∧
      ∃ n, 1 ≤ n ∧ (receive oneFrameCuts modemHdlcStart).2.map Frame.content =
        contents (answered oneFrame n) := by
  have far : closedAt oneFrame 1 + 18 ≤ (fedBits oneFrameCuts).length := by decide +kernel
  have sized : ∀ n text, oneFrame n = some text → 1 ≤ text.length ∧ text.length ≤ 510 := by
    intro n text given
    unfold oneFrame at given
    split_ifs at given
    cases given
    decide
  have fed : fedBits oneFrameCuts <+: (transmit oneFrame [(8, 8)] modemHdlcStart 0).1 := by
    decide +kernel
  obtain ⟨_, n, _, log, prompt⟩ := hdlc_round_trip oneFrame sized [(8, 8)] (by decide)
    oneFrameCuts (by decide) fed
  exact ⟨far, n, prompt 1 far, log⟩

end DModem.Hdlc
