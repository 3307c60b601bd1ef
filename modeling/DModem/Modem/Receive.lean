/-
From the bits of the line to `rx_info`: the lengths of received frames.

`modem_hdlc_put_bits` hands on every frame of at least three octets, check sequence
included, whose check sequence is good, and `lapm_rx_complete` takes every frame with
an even control octet for an information frame.  Neither of them compares the length
with the header of an information frame or with `LAPM_MAX_INFO_SIZE`.
-/

import DModem.Hdlc.Receive
import DModem.Modem.Waiting
import DModem.Modem.Window

namespace DModem

namespace Hdlc.HdlcState

/-! ### The frame that a symbol completes -/

def MeetsFlag (h : HdlcState) (nbits : Nat) (symbol : UInt8) : Prop :=
  18 ≤ (h.pushSymbol nbits symbol).unpack.bit ∧ (h.pushSymbol nbits symbol).lookAhead = hdlcFlag

instance (h : HdlcState) (nbits : Nat) (symbol : UInt8) : Decidable (h.MeetsFlag nbits symbol) :=
  inferInstanceAs (Decidable (_ ∧ _))

theorem takeChar_inside (left : Nat) (h : HdlcState) (out : BitVec 8) (inside : left < 8)
    {h' : HdlcState} {frame : Option Frame} (taken : takeChar left h out = (h', .flag frame)) :
    frame = none := by
  induction left generalizing h out with
  | zero =>
      rw [takeChar] at taken
      cases taken
  | succ left ih =>
      rw [takeChar] at taken
      simp only at taken
      split at taken
      · obtain ⟨_, same⟩ := Prod.mk.inj taken
        obtain rfl := Taken.flag.inj same
        have later : 8 - (left + 1) ≠ 0 := by omega
        unfold finishedFrame
        split_ifs <;> rfl
      · split at taken
        · exact ih _ _ (by omega) taken
        · exact ih _ _ (by omega) taken

/-- A symbol completes a frame exactly when it brings a flag to the front while the
frame received so far is good. -/
theorem putSymbol_frames (h : HdlcState) (nbits : Nat) (symbol : UInt8) :
    (h.putSymbol nbits symbol).2 =
      if h.MeetsFlag nbits symbol then (h.finishedFrame 0).toList else [] := by
  unfold putSymbol
  simp only
  by_cases enough : (h.pushSymbol nbits symbol).unpack.bit < 8 + 8 + 2
  · have early : ¬h.MeetsFlag nbits symbol := by
      intro meets
      have := meets.1
      omega
    rw [if_pos enough, if_neg early]
  · rw [if_neg enough]
    by_cases flag : (h.pushSymbol nbits symbol).lookAhead = hdlcFlag
    · have first : takeChar 8 (h.pushSymbol nbits symbol) 0 =
          ((h.pushSymbol nbits symbol).finishFrame,
            .flag ((h.pushSymbol nbits symbol).finishedFrame 0)) := by
        rw [takeChar]
        exact if_pos flag
      have meets : h.MeetsFlag nbits symbol := ⟨by omega, flag⟩
      rw [first, if_pos meets]
      rfl
    · have misses : ¬h.MeetsFlag nbits symbol := fun meets => flag meets.2
      rw [if_neg misses]
      cases taken : takeChar 8 (h.pushSymbol nbits symbol) 0 with
      | mk h' result =>
          cases result with
          | char out => rfl
          | flag frame =>
              rw [takeChar] at taken
              simp only at taken
              rw [if_neg (by exact flag)] at taken
              have none : frame = none := by
                split at taken
                · exact takeChar_inside 7 _ _ (by decide) taken
                · exact takeChar_inside 7 _ _ (by decide) taken
              rw [none]
              rfl

/-- A frame that the receiver would hand on: no error, at least three octets and a
good check sequence. -/
def GoodFrame (h : HdlcState) : Prop :=
  h.rxError = 0 ∧ 3 ≤ h.rxFrame.count ∧ h.rxFrame.fcs = goodFcs

instance (h : HdlcState) : Decidable h.GoodFrame := inferInstanceAs (Decidable (_ ∧ _))

theorem finishedFrame_some {h : HdlcState} {f : Frame} :
    h.finishedFrame 0 = some f ↔
      h.GoodFrame ∧ f = { h.rxFrame with count := h.rxFrame.count - 2 } := by
  unfold finishedFrame GoodFrame
  by_cases empty : h.rxFrame.count = 0
  · rw [if_pos empty]
    constructor
    · intro impossible
      cases impossible
    · rintro ⟨⟨_, long, _⟩, _⟩
      omega
  · rw [if_neg empty]
    split_ifs with error start short bad
    · simp [error]
    · exact absurd rfl start
    · constructor
      · intro impossible
        cases impossible
      · rintro ⟨⟨_, long, _⟩, _⟩
        omega
    · simp [bad]
    · constructor
      · intro same
        exact ⟨⟨not_not.mp error, by omega, not_not.mp bad⟩, (Option.some.inj same).symm⟩
      · rintro ⟨_, rfl⟩
        rfl

end Hdlc.HdlcState

open Hdlc

/-! ### The receiver -/

/-- The HDLC receiver with `lapm_rx_complete` as its `rx_complete`. -/
structure Receiver where
  hdlc : HdlcState
  modem : Modem

/-- A symbol of the line, or something else that moves the LAPM state. -/
inductive RxEvent where
  | symbol (nbits : Nat) (value : UInt8) (chars : Chars)
  | lapm (event : Modem.LapmEvent)

namespace Receiver

def step (r : Receiver) : RxEvent → Receiver
  | .symbol nbits value chars =>
      let put := r.hdlc.putSymbol nbits value
      { hdlc := put.1
        modem := put.2.foldl (fun m f => m.lapmRxComplete f chars) r.modem }
  | .lapm event => { r with modem := r.modem.lapmStep event }

def run (r : Receiver) : List RxEvent → Receiver
  | [] => r
  | event :: rest => (r.step event).run rest

/-- The frames that the event makes `lapm_rx_complete` pass to `rx_info`. -/
def infoFrames (r : Receiver) : RxEvent → List Frame
  | .symbol nbits value _ =>
      (r.hdlc.putSymbol nbits value).2.filter fun f =>
        Frame.type f = Modem.frameI ∧ r.modem.validDataState.2 = true
  | .lapm _ => []

end Receiver

/-- `f->count - 3`. -/
def infoLength (f : Frame) : Int := (f.count : Int) - 3

/-- What `rx_info` copies into `rx_buf`. -/
def restLength (m : Modem) (f : Frame) (chars : Chars) : Int :=
  infoLength f - (m.callPutChars chars (f.buf.drop 3) (infoLength f)).2

namespace Receiver

/-- What is asked of the frames that `rx_info` processes: the length given to
`put_chars`, and the rest whatever `put_chars` answers. -/
structure LengthSafe (r : Receiver) (event : RxEvent) : Prop where
  length : ∀ f ∈ r.infoFrames event, 0 ≤ infoLength f ∧ infoLength f ≤ lapmMaxInfoSize
  rest : ∀ f ∈ r.infoFrames event, ∀ m chars,
    0 ≤ restLength m f chars ∧ restLength m f chars ≤ lapmMaxInfoSize

/-- A good frame with an even control octet that a flag closes while the link is up or
being set up has room for the header and the check sequence, and at most
`LAPM_MAX_INFO_SIZE` octets more. -/
def Bounded (r : Receiver) : RxEvent → Prop
  | .symbol nbits value _ =>
      r.hdlc.MeetsFlag nbits value → r.hdlc.GoodFrame →
      r.hdlc.rxFrame.buf.getD 1 0 &&& 0x1 = 0 →
      (r.modem.lapm.state = .estab ∨ r.modem.lapm.state = .data) →
      5 ≤ r.hdlc.rxFrame.count ∧ r.hdlc.rxFrame.count ≤ 133
  | .lapm _ => True

variable {r : Receiver}

theorem restLength_bounds {m : Modem} {f : Frame} {chars : Chars} (nonneg : 0 ≤ infoLength f)
    (short : infoLength f ≤ lapmMaxInfoSize) :
    0 ≤ restLength m f chars ∧ restLength m f chars ≤ lapmMaxInfoSize := by
  unfold restLength Modem.callPutChars
  cases m.putChars with
  | none =>
      simp only [sub_zero]
      exact ⟨nonneg, short⟩
  | some routine =>
      simp only
      omega

theorem validDataState_eq (m : Modem) :
    m.validDataState.2 = true ↔ m.lapm.state = .estab ∨ m.lapm.state = .data := by
  unfold Modem.validDataState
  cases m.lapm.state <;> simp

theorem type_info (f : Frame) : Frame.type f = Modem.frameI ↔ f.buf.getD 1 0 &&& 0x1 = 0 := by
  have low : f.buf.getD 1 0 &&& 0x1 = (f.buf.getD 1 0 &&& 0x3) &&& 0x1 := by
    rw [UInt8.and_assoc]
    rfl
  unfold Frame.type Frame.ctrl
  generalize f.buf.getD 1 0 = ctrl at low ⊢
  split
  · rename_i odd
    constructor
    · intro same
      rw [low, same]
      rfl
    · intro even
      exact absurd even odd
  · rename_i even
    exact ⟨fun _ => not_not.mp even, fun _ => rfl⟩

/-- The frames that reach `rx_info`, in terms of the receiver before the symbol. -/
theorem infoFrames_mem {nbits : Nat} {value : UInt8} {chars : Chars} {f : Frame} :
    f ∈ r.infoFrames (.symbol nbits value chars) ↔
      r.hdlc.MeetsFlag nbits value ∧ r.hdlc.GoodFrame ∧
        r.hdlc.rxFrame.buf.getD 1 0 &&& 0x1 = 0 ∧
        (r.modem.lapm.state = .estab ∨ r.modem.lapm.state = .data) ∧
        f = { r.hdlc.rxFrame with count := r.hdlc.rxFrame.count - 2 } := by
  unfold infoFrames
  rw [List.mem_filter, HdlcState.putSymbol_frames, decide_eq_true_eq, validDataState_eq, type_info]
  by_cases meets : r.hdlc.MeetsFlag nbits value
  · rw [if_pos meets, Option.mem_toList, HdlcState.finishedFrame_some]
    constructor
    · rintro ⟨⟨good, rfl⟩, even, phase⟩
      exact ⟨meets, good, even, phase, rfl⟩
    · rintro ⟨_, good, even, phase, rfl⟩
      exact ⟨⟨good, rfl⟩, even, phase⟩
  · rw [if_neg meets]
    constructor
    · rintro ⟨impossible, _⟩
      cases impossible
    · rintro ⟨impossible, _⟩
      exact absurd impossible meets

theorem lengthSafe_iff (event : RxEvent) : r.LengthSafe event ↔ r.Bounded event := by
  cases event with
  | lapm event =>
      constructor
      · intro _
        trivial
      · intro _
        exact ⟨fun f member => (List.not_mem_nil member).elim,
          fun f member => (List.not_mem_nil member).elim⟩
  | symbol nbits value chars =>
      constructor
      · intro safe meets good even phase
        have member : _ ∈ r.infoFrames (.symbol nbits value chars) :=
          infoFrames_mem.mpr ⟨meets, good, even, phase, rfl⟩
        obtain ⟨low, high⟩ := safe.length _ member
        have long := good.2.1
        simp only [infoLength, lapmMaxInfoSize] at low high
        omega
      · intro bounded
        have lengths : ∀ f ∈ r.infoFrames (.symbol nbits value chars),
            0 ≤ infoLength f ∧ infoLength f ≤ lapmMaxInfoSize := by
          intro f member
          obtain ⟨meets, good, even, phase, rfl⟩ := infoFrames_mem.mp member
          obtain ⟨low, high⟩ := bounded meets good even phase
          simp only [infoLength, lapmMaxInfoSize]
          omega
        refine ⟨lengths, ?_⟩
        intro f member m chars'
        obtain ⟨nonneg, short⟩ := lengths f member
        exact restLength_bounds nonneg short

/-- Every event of a run is safe exactly when every event of it is bounded. -/
theorem received_length_iff (r : Receiver) (events : List RxEvent) :
    (∀ before event, before ++ [event] <+: events → (r.run before).LengthSafe event) ↔
      ∀ before event, before ++ [event] <+: events → (r.run before).Bounded event := by
  constructor
  · intro safe before event cut
    exact (lengthSafe_iff event).mp (safe before event cut)
  · intro bounded before event cut
    exact (lengthSafe_iff event).mpr (bounded before event cut)

/-- An answering modem whose link was just set up by a SABME. -/
def linked : Receiver :=
  { hdlc := modemHdlcStart
    modem := Modem.answering.modemSetupConfig.lapmInit.lapmRun
      [.frame Modem.sabmeFrame Modem.noChars] }

def shortFrame : List RxEvent :=
  [126, 192, 0, 244, 164, 126, 126].map fun value => .symbol 8 value Modem.noChars

/-- A frame of two octets with a good check sequence has an information length of -1. -/
theorem short_frame_not_safe :
    ((linked.run shortFrame).infoFrames (.symbol 8 126 Modem.noChars)).map infoLength = [-1] ∧
      ¬(linked.run shortFrame).LengthSafe (.symbol 8 126 Modem.noChars) := by
  refine ⟨by decide +kernel, ?_⟩
  rw [lengthSafe_iff]
  intro bounded
  have bounds := bounded (by decide +kernel) (by decide +kernel) (by decide +kernel)
    (Or.inr (by decide +kernel))
  exact absurd bounds.1 (by decide +kernel)

end Receiver

end DModem
