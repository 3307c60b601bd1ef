/-
The detection phase, bit by bit.

One countdown is the start delay of the originator, T400 of the answerer, and the time to
repeat a pattern.  The end of the start delay arms nothing, so that an originator without an
answer stays in the phase.
-/

import DModem.Modem.Sessions
import DModem.Modem.Control

namespace DModem

open Hdlc (BitsState)

/-- A modem with the registers that its packer works on. -/
structure BitLine where
  modem : Modem
  pack : BitsState
  unpack : BitsState

namespace Modem

/-! ### Transmitter -/

def txChar (d : DetectState) : UInt8 := if d.txCount % 2 = 0 then d.txPattern.1 else d.txPattern.2

/-- `/* get char */`: marks, and the pattern once it is sent. -/
def detectorFill (d : DetectState) (s : BitsState) : DetectState × BitsState :=
  let s : BitsState := { bit := s.bit + 9, data := s.data <<< 9 ||| 0x1ff }
  if 0 < d.txCount then
    ({ d with txCount := d.txCount + 1 },
      { bit := s.bit + 9, data := s.data <<< 9 ||| (txChar d).toBitVec.setWidth 32 })
  else (d, s)

def detectorFills (nbits : Nat) : Nat → DetectState → BitsState → DetectState × BitsState
  | 0, d, s => (d, s)
  | rounds + 1, d, s =>
      if nbits ≤ s.bit then (d, s)
      else
        let filled := detectorFill d s
        detectorFills nbits rounds filled.1 filled.2

/-- `modem_detector_get_bits`: the symbols that are put into `bit_buf`. -/
def modemDetectorGetBits (nbits : Nat) :
    Nat → DetectState → BitsState → List UInt8 × DetectState × BitsState
  | 0, d, s => ([], d, s)
  | bitCnt + 1, d, s =>
      let ready := detectorFills nbits nbits d s
      let s := ready.2
      let symbol := UInt8.ofBitVec ((s.data >>> (s.bit - nbits)).setWidth 8)
      let rest := modemDetectorGetBits nbits bitCnt ready.1 { s with bit := s.bit - nbits }
      (symbol :: rest.1, rest.2)

/-! ### Receiver -/

/-- `/* skip marks */` -/
def skipMarks (data : BitVec 32) : Nat → Nat
  | 0 => 0
  | bit + 1 => if data.getLsbD bit then skipMarks data bit else bit + 1

/-- `while (s->bit >= 10)`. -/
def detectorChars : Nat → Modem → BitsState → Modem × BitsState
  | 0, m, s => (m, s)
  | rounds + 1, m, s =>
      if 10 ≤ s.bit then
        let ch := UInt8.ofBitVec ((s.data >>> (s.bit - 9)).setWidth 8)
        detectorChars rounds (m.detectorChar ch) { s with bit := s.bit - 10 }
      else (m, s)

def detectorSymbol (nbits : Nat) (m : Modem) (s : BitsState) (symbol : UInt8) :
    Modem × BitsState :=
  let masked := symbol.toBitVec.setWidth 32 &&& BitVec.ofNat 32 (2 ^ nbits - 1)
  let data := s.data <<< nbits ||| masked
  let bit := skipMarks data (s.bit + nbits)
  detectorChars bit m { bit := bit, data := data }

/-- `modem_detector_put_bits`. -/
def modemDetectorPutBits (nbits : Nat) : Modem → BitsState → List UInt8 → Modem × BitsState
  | m, s, [] => (m, s)
  | m, s, symbol :: rest =>
      let taken := detectorSymbol nbits m s symbol
      modemDetectorPutBits nbits taken.1 taken.2 rest

/-! ### The phase -/

/-- The detector is installed. -/
def Detecting (m : Modem) : Prop :=
  m.state = .ecEstab ∧ m.getBits = some .detector ∧ m.putBits = some .detector

instance (m : Modem) : Decidable m.Detecting := by
  unfold Detecting
  infer_instance

def PhaseTimed (m : Modem) : Prop :=
  0 < m.bitTimer ∧
    (m.bitTimerFunc = some .detectorStart ∨ m.bitTimerFunc = some .detectorFinish)

end Modem

/-- The data pump asks for bits, or brings some. -/
inductive DetectEvent where
  | get (nbits bitCnt : Nat)
  | put (nbits : Nat) (symbols : List UInt8)

namespace BitLine

open Modem

/-- `modem_detector_start`, with the routines installed as for `STATUS_DP_LINK`. -/
def start (m : Modem) : BitLine :=
  { modem :=
      { modemDetectorStart { m with state := .ecEstab } with
        getBits := some .detector
        putBits := some .detector }
    pack := { bit := 0, data := 0 }
    unpack := { bit := 0, data := 0 } }

/-- `modem_get_bits` and `modem_put_bits` while the detector is installed; LAPM has nothing
for `packer_process` yet. -/
def step (l : BitLine) : DetectEvent → BitLine
  | .get nbits bitCnt =>
      if l.modem.Detecting then
        let sent := modemDetectorGetBits nbits bitCnt l.modem.detector l.pack
        let m := { l.modem with detector := sent.2.1 }
        { l with modem := m.tickBits (nbits * bitCnt), pack := sent.2.2 }
      else l
  | .put nbits symbols =>
      if l.modem.Detecting then
        let taken := modemDetectorPutBits nbits l.modem l.unpack symbols
        { l with modem := taken.1, unpack := taken.2 }
      else l

def run (l : BitLine) : List DetectEvent → BitLine
  | [] => l
  | event :: rest => (l.step event).run rest

def EndsDelay (l : BitLine) (event : DetectEvent) : Prop :=
  ∃ nbits bitCnt, event = .get nbits bitCnt ∧ l.modem.Detecting ∧
    l.modem.bitsExpire (nbits * bitCnt) = true ∧ l.modem.bitTimerFunc = some .detectorStart

/-- In every state of the run the phase is over, or its timer is running. -/
def AlwaysTimed (l : BitLine) (events : List DetectEvent) : Prop :=
  ∀ before, before <+: events → (l.run before).modem.Detecting → (l.run before).modem.PhaseTimed

/-- No step of the run ends the start delay. -/
def NeverEndsDelay (l : BitLine) (events : List DetectEvent) : Prop :=
  ∀ before event, before ++ [event] <+: events → ¬ (l.run before).EndsDelay event

/-! ### One step -/

def Holds (l : BitLine) : Prop := l.modem.Detecting → l.modem.PhaseTimed

section Step

variable {m : Modem} {l : BitLine}

def Rearms (m m' : Modem) : Prop :=
  (m'.Detecting ↔ m.Detecting) ∧
    (m'.bitTimer = m.bitTimer ∧ m'.bitTimerFunc = m.bitTimerFunc ∨
      0 < m'.bitTimer ∧ m'.bitTimerFunc = some .detectorFinish)

theorem Rearms.refl (m : Modem) : Rearms m m := ⟨Iff.rfl, Or.inl ⟨rfl, rfl⟩⟩

theorem Rearms.trans {m' m'' : Modem} (first : Rearms m m') (later : Rearms m' m'') :
    Rearms m m'' := by
  refine ⟨later.1.trans first.1, ?_⟩
  rcases later.2 with ⟨timer, func⟩ | armed
  · rw [timer, func]
    exact first.2
  · exact Or.inr armed

theorem Rearms.timed {m' : Modem} (rearms : Rearms m m') (timed : m.PhaseTimed) :
    m'.PhaseTimed := by
  unfold PhaseTimed
  rcases rearms.2 with ⟨timer, func⟩ | ⟨running, func⟩
  · rw [timer, func]
    exact timed
  · exact ⟨running, Or.inr func⟩

theorem detectorChar_rearms (m : Modem) (ch : UInt8) : Rearms m (m.detectorChar ch) := by
  have pattern : 0 < patternSize := by decide
  have patterns : 0 < 16 * patternSize := by decide
  unfold detectorChar Rearms Detecting
  simp only
  split_ifs
  all_goals first
    | exact ⟨Iff.rfl, Or.inl ⟨rfl, rfl⟩⟩
    | exact ⟨Iff.rfl, Or.inr ⟨pattern, rfl⟩⟩
    | exact ⟨Iff.rfl, Or.inr ⟨patterns, rfl⟩⟩

theorem detectorChars_rearms (rounds : Nat) (m : Modem) (s : BitsState) :
    Rearms m (detectorChars rounds m s).1 := by
  induction rounds generalizing m s with
  | zero => exact Rearms.refl m
  | succ rounds ih =>
      rw [detectorChars]
      split
      · exact (detectorChar_rearms m _).trans (ih _ _)
      · exact Rearms.refl m

theorem putBits_rearms (nbits : Nat) (m : Modem) (s : BitsState) (symbols : List UInt8) :
    Rearms m (modemDetectorPutBits nbits m s symbols).1 := by
  induction symbols generalizing m s with
  | nil => exact Rearms.refl m
  | cons symbol symbols ih => exact (detectorChars_rearms _ m _).trans (ih _ _)

theorem detectorFinish_over (m : Modem) : ¬ m.detectorFinish.Detecting := by
  have linked : ∀ m : Modem, ¬ m.packLink.Detecting := by
    rintro m ⟨phase, installed, -⟩
    have state : m.packLink.state = m.packLink.desk.state := rfl
    have routine : m.packLink.getBits = m.packLink.desk.getBits := rfl
    rcases desk_packLink m with ⟨bitTimer, func, packed, -⟩ | ⟨-, online⟩
    · rw [routine, packed] at installed
      cases installed
    · obtain ⟨command, getBits, putBits, link⟩ := Desk.link_eq (m.desk.pack .async 0 none)
      rw [state, online, link] at phase
      cases phase
  exact linked _

theorem step_get (detecting : l.modem.Detecting) (nbits bitCnt : Nat) :
    ∃ d, (l.step (.get nbits bitCnt)).modem =
      tickBits { l.modem with detector := d } (nbits * bitCnt) :=
  ⟨_, congrArg BitLine.modem (if_pos detecting)⟩

theorem step_put (detecting : l.modem.Detecting) (nbits : Nat) (symbols : List UInt8) :
    (l.step (.put nbits symbols)).modem =
      (modemDetectorPutBits nbits l.modem l.unpack symbols).1 :=
  congrArg BitLine.modem (if_pos detecting)

theorem step_left (left : ¬ l.modem.Detecting) (event : DetectEvent) : l.step event = l := by
  cases event with
  | get nbits bitCnt => exact if_neg left
  | put nbits symbols => exact if_neg left

theorem step_kept (holds : l.Holds) {event : DetectEvent} (goes : ¬ l.EndsDelay event)
    (after : (l.step event).modem.Detecting) :
    (l.step event).modem.PhaseTimed ∧
      ((l.step event).modem.bitTimerFunc = some .detectorStart →
        l.modem.Detecting ∧ l.modem.bitTimerFunc = some .detectorStart) := by
  by_cases detecting : l.modem.Detecting
  · have timed := holds detecting
    cases event with
    | put nbits symbols =>
        have rearms := putBits_rearms nbits l.modem l.unpack symbols
        rw [step_put detecting]
        refine ⟨rearms.timed timed, fun func => ⟨detecting, ?_⟩⟩
        rcases rearms.2 with ⟨-, same⟩ | ⟨-, finish⟩
        · exact same.symm.trans func
        · cases finish.symm.trans func
    | get nbits bitCnt =>
        obtain ⟨d, next⟩ := step_get detecting nbits bitCnt
        rw [next] at after ⊢
        unfold tickBits at after ⊢
        by_cases expires : l.modem.bitsExpire (nbits * bitCnt) = true
        · have started : l.modem.bitTimerFunc ≠ some .detectorStart := fun func =>
            goes ⟨nbits, bitCnt, rfl, detecting, expires, func⟩
          have finish := timed.2.resolve_left started
          have expires' : bitsExpire { l.modem with detector := d } (nbits * bitCnt) = true :=
            expires
          rw [if_pos expires'] at after
          unfold runBitTimer at after
          simp only [finish] at after
          exact absurd after (detectorFinish_over _)
        · have running : l.modem.bitTimer ≠ 0 := by
            have positive := timed.1
            omega
          have expires' : ¬ bitsExpire { l.modem with detector := d } (nbits * bitCnt) = true :=
            expires
          rw [if_neg expires', if_pos running]
          refine ⟨⟨?_, timed.2⟩, fun func => ⟨detecting, func⟩⟩
          simp only [bitsExpire, Bool.and_eq_true, bne_iff_ne, decide_eq_true_eq, not_and,
            Int.not_le] at expires
          exact expires running
  · rw [step_left detecting] at after
    exact absurd after detecting

theorem step_endsDelay {event : DetectEvent} (ends : l.EndsDelay event) :
    (l.step event).modem.Detecting ∧ ¬ (l.step event).modem.PhaseTimed := by
  obtain ⟨nbits, bitCnt, rfl, detecting, expires, func⟩ := ends
  obtain ⟨d, next⟩ := step_get detecting nbits bitCnt
  rw [next]
  have expires' : bitsExpire { l.modem with detector := d } (nbits * bitCnt) = true := expires
  unfold tickBits
  rw [if_pos expires']
  unfold runBitTimer
  simp only [func]
  exact ⟨detecting, fun timed => absurd timed.1 (Int.lt_irrefl 0)⟩

end Step

/-! ### Runs -/

section Runs

variable {m : Modem} {l : BitLine} {events : List DetectEvent}

theorem run_append (l : BitLine) (front back : List DetectEvent) :
    l.run (front ++ back) = (l.run front).run back := by
  induction front generalizing l with
  | nil => rfl
  | cons event front ih => exact ih (l.step event)

theorem run_holds (holds : l.Holds) (never : l.NeverEndsDelay events) :
    ∀ before, before <+: events → (l.run before).Holds := by
  intro before within
  induction before using List.reverseRecOn with
  | nil => exact holds
  | append_singleton before event ih =>
      rw [run_append]
      have holds := ih ((List.prefix_append before [event]).trans within)
      exact fun after => (step_kept holds (never before event within) after).1

theorem start_timer (m : Modem) :
    (start m).modem.bitTimer = (if m.caller then 64 * 8 else 28800 * 3 / 4) ∧
      (start m).modem.bitTimerFunc =
        some (if m.caller then .detectorStart else .detectorFinish) := by
  unfold start modemDetectorStart
  cases caller : m.caller with
  | true => simp
  | false => simp

theorem start_holds (m : Modem) : (start m).Holds := by
  intro detecting
  obtain ⟨timer, func⟩ := start_timer m
  unfold PhaseTimed
  rw [timer, func]
  cases m.caller with
  | true => exact ⟨by decide, Or.inl rfl⟩
  | false => exact ⟨by decide, Or.inr rfl⟩

theorem alwaysTimed_iff_never (holds : l.Holds) :
    l.AlwaysTimed events ↔ l.NeverEndsDelay events := by
  constructor
  · intro always before event within ends
    obtain ⟨detecting, untimed⟩ := step_endsDelay ends
    have after := always (before ++ [event]) within
    rw [run_append] at after
    exact untimed (after detecting)
  · intro never
    exact run_holds holds never

theorem answerer_never (answerer : m.caller = false) : (start m).NeverEndsDelay events := by
  have undelayed : ∀ before : List DetectEvent, ((start m).run before).Holds ∧
      (((start m).run before).modem.Detecting →
        ((start m).run before).modem.bitTimerFunc ≠ some .detectorStart) := by
    intro before
    induction before using List.reverseRecOn with
    | nil =>
        refine ⟨start_holds m, fun _ => ?_⟩
        have func : ((start m).run []).modem.bitTimerFunc = _ := (start_timer m).2
        rw [func, answerer]
        simp
    | append_singleton before event ih =>
        obtain ⟨holds, before_⟩ := ih
        have goes : ¬ ((start m).run before).EndsDelay event := by
          rintro ⟨nbits, bitCnt, -, detecting, -, func⟩
          exact before_ detecting func
        rw [run_append]
        refine ⟨fun after => (step_kept holds goes after).1, fun after func => ?_⟩
        obtain ⟨detecting, same⟩ := (step_kept holds goes after).2 func
        exact before_ detecting same
  rintro before event - ⟨nbits, bitCnt, -, detecting, -, func⟩
  exact (undelayed before).2 detecting func

end Runs

/-- The timer of the detection phase runs in every state exactly if the start delay of the
originator does not end before a pattern is received; it always runs for the answerer. -/
theorem detection_timed_iff (m : Modem) (events : List DetectEvent) :
    ((start m).AlwaysTimed events ↔ (start m).NeverEndsDelay events) ∧
      (m.caller = false → (start m).AlwaysTimed events) := by
  have timed : (start m).AlwaysTimed events ↔ (start m).NeverEndsDelay events :=
    alwaysTimed_iff_never (start_holds m)
  exact ⟨timed, fun answerer => timed.mpr (answerer_never answerer)⟩

theorem stuck_run {l : BitLine} {events : List DetectEvent} (detecting : l.modem.Detecting)
    (stopped : l.modem.bitTimer = 0)
    (silent : ∀ event ∈ events, ∃ nbits bitCnt, event = .get nbits bitCnt) :
    (l.run events).modem.Detecting ∧ (l.run events).modem.bitTimer = 0 := by
  induction events generalizing l with
  | nil => exact ⟨detecting, stopped⟩
  | cons event events ih =>
      obtain ⟨now, later⟩ := List.forall_mem_cons.mp silent
      obtain ⟨nbits, bitCnt, rfl⟩ := now
      obtain ⟨d, next⟩ := step_get detecting nbits bitCnt
      have same : tickBits { l.modem with detector := d } (nbits * bitCnt) =
          { l.modem with detector := d } := by
        unfold tickBits bitsExpire
        simp [stopped]
      rw [same] at next
      exact ih (by rw [next]; exact detecting) (by rw [next]; exact stopped) later

def originator : Modem := { modemCreate with caller := true }

/-- After 512 bits the originator sends its pattern, with no timer to end the phase. -/
theorem originator_unbounded :
    ¬ (start originator).AlwaysTimed [.get 8 64] ∧
      ∀ events : List DetectEvent, (∀ event ∈ events, ∃ nbits bitCnt, event = .get nbits bitCnt) →
        ((start originator).run (.get 8 64 :: events)).modem.Detecting ∧
          ((start originator).run (.get 8 64 :: events)).modem.bitTimer = 0 := by
  have ends : (start originator).EndsDelay (.get 8 64) :=
    ⟨8, 64, rfl, ⟨rfl, rfl, rfl⟩, by decide +kernel, rfl⟩
  obtain ⟨detecting, untimed⟩ := step_endsDelay ends
  have stopped : ((start originator).step (.get 8 64)).modem.bitTimer = 0 := by decide +kernel
  refine ⟨?_, ?_⟩
  · intro always
    exact untimed (always [.get 8 64] (List.prefix_refl _) detecting)
  · intro events silent
    have stays : (((start originator).step (.get 8 64)).run events).modem.Detecting ∧
        (((start originator).step (.get 8 64)).run events).modem.bitTimer = 0 :=
      stuck_run detecting stopped silent
    exact stays

end BitLine

end DModem
