/-
Data that stays behind.

Commands and data share a queue.  What was queued in data mode and not yet sent stays in
it when the connection ends; an escape and `modem_start` are the only ones to clear it.
-/

import DModem.Modem.CommandLine
import DModem.Modem.Hangup

namespace DModem

def Tty.Drains (t t' : Tty) : Prop := t'.commandText = t.commandText ∧ t'.xmit ⊆ t.xmit

theorem Tty.Drains.of_eq {t t' : Tty} (same : t' = t) : t.Drains t' := by
  rw [same]
  exact ⟨rfl, List.Subset.refl _⟩

theorem Tty.Drains.of_clears {t t' : Tty} {clears : Bool}
    (same : t' = if clears then t.cleared else t) : t.Drains t' := by
  rw [same]
  split
  · exact ⟨rfl, List.nil_subset _⟩
  · exact ⟨rfl, List.Subset.refl _⟩

namespace Modem

/-! ### Steps other than a write -/

section Steps

variable (m : Modem) (device : Device)

theorem tty_packLink : m.packLink.tty = m.tty := by
  unfold packLink
  split
  · unfold modemEcStart
    split <;> rfl
  · rw [ecLink, tty_report, tty_setState]
    rfl

theorem tty_detectorStart : m.modemDetectorStart.tty = m.tty := by
  unfold modemDetectorStart
  split <;> rfl

theorem tty_dpLink : m.dpLink.tty = m.tty := by
  have faulted : (if m.dp = none then m.logFault .dpLink else m).tty = m.tty := by
    split <;> rfl
  unfold dpLink
  generalize (if m.dp = none then m.logFault .dpLink else m) = checked at faulted
  have configured : (if checked.dp.any DpId.nonEc then
      { checked with cfg := { checked.cfg with ec := false } } else checked).tty = checked.tty := by
    split <;> rfl
  simp only
  generalize (if checked.dp.any DpId.nonEc then
      { checked with cfg := { checked.cfg with ec := false } } else checked) = chosen
    at configured
  have ready := tty_setState chosen .ecEstab
  generalize chosen.modemSetState .ecEstab = estab at ready
  split
  · exact (tty_detectorStart estab).trans ((ready.trans configured).trans faulted)
  · rw [tty_packLink, ready, configured, faulted]

theorem tty_changeDp : (m.doModemChangeDp device).tty = m.tty := by
  unfold doModemChangeDp
  split
  · unfold modemFaxStart
    split <;> rfl
  · cases device.dp with
    | none => exact tty_hup m true
    | some id => rfl

theorem tty_dpReturns (stat : DpStat) : (m.dpReturns stat device).tty = m.tty := by
  cases stat with
  | ok => rfl
  | connect =>
      unfold dpReturns
      simp only
      split
      · exact tty_dpLink m
      · rfl
  | changedp => exact tty_changeDp m device
  | error | nodialtone | busy | noanswer | other => exact tty_hup { m with resultCode := _ } _

theorem tty_tickBits (bits : Nat) : (m.tickBits bits).tty = m.tty := by
  unfold tickBits
  split
  · unfold runBitTimer
    split
    · rfl
    · exact tty_of_outer (outer_t401Timeout { m with bitTimer := 0 })
    · unfold modemEcNegotiate
      exact tty_of_outer (outer_lapmConfig _)
    · rfl
    · exact tty_packLink _
  · split <;> rfl

theorem tty_detectorChar (ch : UInt8) : (m.detectorChar ch).tty = m.tty := by
  unfold detectorChar
  simp only
  split_ifs <;> rfl

theorem tty_rxComplete (f : Hdlc.Frame) (chars : Chars) :
    (m.lapmRxComplete f chars).tty = m.tty := by
  have outer := outer_rxComplete m f chars
  unfold outerAfter at outer
  cases reported : m.reportsLink f with
  | none =>
      rw [reported] at outer
      exact tty_of_outer outer
  | some phase =>
      rw [reported] at outer
      have entered : m.outer.linked (m.state, phase) = Modem.outer { m with
          links := m.links ++ [(m.state, phase)]
          reports := m.reports ++ [.connect]
          out := m.out ++ m.printed .connect } := by
        by_cases quiet : m.sregs sregQuiet = 0
        · simp [Modem.outer, Outer.linked, connects, connectsWritten, printed, isQuiet, quiet]
        · simp [Modem.outer, Outer.linked, connects, connectsWritten, printed, isQuiet, quiet]
      have same := tty_of_outer (Eq.trans outer entered)
      exact same

theorem drains_answerRings (rings : UInt8) :
    m.tty.Drains (if m.ringsEnough then ((m.setRings rings).modemAnswer device).1 else m).tty := by
  split
  · exact Tty.Drains.of_clears (tty_answer (m.setRings rings) device)
  · exact Tty.Drains.of_eq rfl

theorem drains_cidStop : m.tty.Drains (m.modemCidStop device).tty := by
  unfold modemCidStop
  have stopped : (if m.clearSampleTimer.rdObj then { m.clearSampleTimer with cid := false }
      else modemStop { m.clearSampleTimer with process := none } device).tty = m.tty := by
    split
    · rfl
    · exact tty_stop _ device
  simp only
  generalize (if m.clearSampleTimer.rdObj then { m.clearSampleTimer with cid := false }
      else modemStop { m.clearSampleTimer with process := none } device) = next at stopped
  rw [← stopped]
  exact drains_answerRings next device 0

theorem drains_cidProcess (status : Int) : m.tty.Drains (m.modemCidProcess status device).tty := by
  unfold modemCidProcess
  split
  · exact drains_cidStop m device
  · exact Tty.Drains.of_eq rfl

theorem tty_cidStart (timeout : Nat) : (m.modemCidStart timeout device).1.tty = m.tty := by
  unfold modemCidStart
  split
  · rfl
  · split
    · rfl
    · split
      · rfl
      · exact (tty_setHook _ device .snooping)

theorem tty_ring (now : BitVec 32) : (m.modemRing now device).tty = m.tty := by
  unfold modemRing
  split
  · rfl
  · simp only
    split
    · split
      · rfl
      · split
        · exact tty_cidStart _ device _
        · rfl
    · rfl

theorem drains_ringDetectorProcess (details : RingDetails) (status : Int) (now : BitVec 32) :
    m.tty.Drains (m.modemRingDetectorProcess details status now device).tty := by
  unfold modemRingDetectorProcess
  have rung : (if details.ret = 0 then m
      else if details.freq = 0 then m.modemRing now device
      else if 0 < details.freq then
        { m with
          ringCount :=
            if m.ringCount ≤ 1 then ((details.duration * details.freq).tdiv 1000 % 2 ^ 32).toNat
            else m.ringCount
          ringLast := now }
      else m).tty = m.tty := by
    split
    · rfl
    · split
      · exact tty_ring m device now
      · split <;> rfl
  simp only
  generalize (if details.ret = 0 then m else if details.freq = 0 then m.modemRing now device
      else if 0 < details.freq then
        { m with
          ringCount :=
            if m.ringCount ≤ 1 then ((details.duration * details.freq).tdiv 1000 % 2 ^ 32).toNat
            else m.ringCount
          ringLast := now }
      else m) = next at rung
  rw [← rung]
  split
  · exact drains_cidProcess next device status
  · exact Tty.Drains.of_eq rfl

theorem tty_ringDetectorStart : (m.modemRingDetectorStart device).1.tty = m.tty := by
  unfold modemRingDetectorStart
  split
  · rfl
  · exact tty_setHook _ device .snooping

theorem drains_ringCheck : m.tty.Drains (m.modemRingCheck device).tty := by
  unfold modemRingCheck
  split
  · exact Tty.Drains.of_eq rfl
  · split
    · exact Tty.Drains.of_eq rfl
    · have counted : ∀ m' : Modem, (if m'.sregs sregRingCounter = 1 then m'.putEcho m'.crlf
          else m').tty = m'.tty := by
        intro m'
        split <;> rfl
      have same := counted
        (setRings { m with ringCount := 0 } (m.sregs sregRingCounter + 1))
      simp only
      generalize (if (setRings { m with ringCount := 0 } (m.sregs sregRingCounter + 1)).sregs
          sregRingCounter = 1 then _ else _) = next at same
      have reported : (next.modemReportResult .ring).tty = m.tty :=
        (tty_report next .ring).trans same
      rw [← reported]
      generalize next.modemReportResult .ring = told
      split
      · exact Tty.Drains.of_clears (tty_answer (told.setRings 0) device)
      · exact Tty.Drains.of_eq rfl

theorem drains_escape : m.tty.Drains m.modemEscape.tty := by
  unfold modemEscape
  split
  · have escaped := congrArg Tty.commandText (tty_setState m .commandOnline)
    simp only [report_eq]
    exact ⟨escaped, List.nil_subset _⟩
  · exact Tty.Drains.of_eq rfl

theorem drains_callSampleTimer (func : SampleTimerFunc) :
    m.tty.Drains (m.callSampleTimer func device).tty := by
  cases func with
  | runModemStop => exact Tty.Drains.of_eq (tty_stop m device)
  | doModemChangeDp => exact Tty.Drains.of_eq (tty_changeDp m device)
  | modemCidStop => exact drains_cidStop m device

theorem drains_countSamples (count : Nat) : m.tty.Drains (m.countSamples count device).tty := by
  unfold countSamples
  simp only
  split
  · cases m.sampleTimerFunc with
    | none => exact Tty.Drains.of_eq rfl
    | some func => exact drains_callSampleTimer _ device func
  · exact Tty.Drains.of_eq rfl

theorem drains_forceHangup : m.tty.Drains (m.forceHangup device).tty := by
  unfold forceHangup
  have hung := tty_hup m true
  generalize m.modemHup true = next at hung
  rw [← hung]
  cases armed : next.sampleTimerFunc with
  | none =>
      simp only [armed]
      exact Tty.Drains.of_eq rfl
  | some func =>
      simp only [armed]
      exact drains_callSampleTimer next device func

theorem tty_voiceProcess (status : Int) : (m.modemVoiceProcess status device).tty = m.tty := by
  unfold modemVoiceProcess
  split_ifs
  · exact tty_report m .ok
  · exact tty_report m .connect
  · exact tty_report m .error
  · exact tty_voiceStop m device
  · rfl

theorem tty_faxProcess (ret : Int) : (m.modemFaxProcess ret device).tty = m.tty := by
  unfold modemFaxProcess
  split_ifs
  · exact (tty_report _ .ok).trans (tty_setState m .commandOnline)
  · exact (tty_report _ .connect).trans (tty_setState m .modemOnline)
  · exact (tty_report _ .nocarrier).trans (tty_setState m .commandOnline)
  · exact tty_hup { m with resultCode := .nocarrier } _
  · exact tty_stop m device
  · rfl

end Steps

/-- Whether the step is a call of `modem_write`. -/
def isWrite : Event → Prop
  | .write .. => True
  | _ => False

theorem drains_perform (m : Modem) (event : Event) (other : ¬ isWrite event) :
    m.tty.Drains (m.perform event).tty := by
  cases event with
  | hangup => exact Tty.Drains.of_eq (tty_hup m true)
  | write bytes now lines => exact absurd trivial other
  | escape => exact drains_escape m
  | ringCheck device => exact drains_ringCheck m device
  | ring now device => exact Tty.Drains.of_eq (tty_ring m device now)
  | ringDetectorStart device => exact Tty.Drains.of_eq (tty_ringDetectorStart m device)
  | select =>
      apply Tty.Drains.of_eq
      change m.setFds.tty = m.tty
      unfold setFds
      split <;> rfl
  | readFails device => exact drains_forceHangup m device
  | take count => exact ⟨rfl, List.drop_subset _ _⟩
  | fetch chars => exact Tty.Drains.of_eq (tty_of_outer (outer_getTxFrame m chars))
  | push chars => exact Tty.Drains.of_eq (tty_of_outer (outer_pushRestData m chars))
  | tick bits => exact Tty.Drains.of_eq (tty_tickBits m bits)
  | frame f chars => exact Tty.Drains.of_eq (tty_rxComplete m f chars)
  | detect ch => exact Tty.Drains.of_eq (tty_detectorChar m ch)
  | receive bytes chars =>
      exact Tty.Drains.of_eq (tty_of_outer (outer_callPutChars m chars bytes _))
  | dpStat stat device => exact Tty.Drains.of_eq (tty_dpReturns m device stat)
  | cidStatus status device => exact drains_cidProcess m device status
  | ringDetails details status now device =>
      exact drains_ringDetectorProcess m device details status now
  | voiceStatus status device => exact Tty.Drains.of_eq (tty_voiceProcess m device status)
  | faxStatus ret device => exact Tty.Drains.of_eq (tty_faxProcess m device ret)
  | samples count device => exact drains_countSamples m device count

/-! ### A write -/

theorem atLoop_takes (rounds : Nat) (m : Modem) (lines : List AtLine)
    (enough : m.xmit.length ≤ rounds) :
    ∃ keys, keys <+: m.xmit ∧ (atLoop rounds m lines).commandText = m.commandText ++ keys ∧
      (atLoop rounds m lines).xmit = [] ∧ (m.xmit ≠ [] → keys ≠ []) := by
  induction rounds generalizing m lines with
  | zero =>
      have empty : m.xmit = [] := List.length_eq_zero_iff.mp (Nat.le_zero.mp enough)
      exact ⟨[], List.nil_prefix, (List.append_nil _).symm, empty, fun some => absurd empty some⟩
  | succ rounds ih =>
      cases waiting : m.xmit with
      | nil =>
          rw [atLoop_empty _ waiting]
          exact ⟨[], List.nil_prefix, (List.append_nil _).symm, waiting, fun some => absurd rfl some⟩
      | cons queued rest =>
          rw [atLoop_key rounds waiting]
          have text := (atChar_queue (m.takeKey queued rest) queued.byte lines).1
          have queue := (atChar_queue (m.takeKey queued rest) queued.byte lines).2
          generalize (m.takeKey queued rest).atChar queued.byte lines = next at text queue
          have remains : next.1.xmit <+: rest := by
            rw [queue]
            split
            · exact List.nil_prefix
            · exact List.prefix_refl _
          rw [waiting, List.length_cons] at enough
          have fewer : next.1.xmit.length ≤ rounds :=
            remains.length_le.trans (Nat.le_of_succ_le_succ enough)
          rcases ih next.1 next.2 fewer with ⟨keys, front, grown, empty, _⟩
          refine ⟨queued :: keys, ?_, ?_, empty, fun _ => List.cons_ne_nil _ _⟩
          · exact List.cons_prefix_cons.mpr ⟨rfl, front.trans remains⟩
          · rw [grown, text]
            exact List.append_assoc _ _ _

theorem queued_cases (m : Modem) (lines : List AtLine) :
    let written := if m.command then m.modemAtProcess lines else m
    (m.command = false ∧ written.commandText = m.commandText ∧ written.xmit = m.xmit) ∨
    (m.command = true ∧ written.xmit = [] ∧
      ∃ keys, keys <+: m.xmit ∧ (m.xmit ≠ [] → keys ≠ []) ∧
        written.commandText = m.commandText ++ keys) := by
  cases command : m.command with
  | false =>
      left
      exact ⟨rfl, rfl, rfl⟩
  | true =>
      right
      rcases atLoop_takes m.xmit.length m lines (Nat.le_refl _) with
        ⟨keys, front, grown, empty, some⟩
      exact ⟨rfl, empty, keys, front, some, grown⟩

theorem checkEscape_keeps (m : Modem) (bytes : List UInt8) (now : BitVec 32) :
    (m.modemCheckEscape bytes now).tty = m.tty ∧
      (m.modemCheckEscape bytes now).command = m.command := by
  unfold modemCheckEscape
  simp only
  split_ifs <;> exact ⟨rfl, rfl⟩

theorem write_cases (m : Modem) (bytes : List UInt8) (now : BitVec 32) (lines : List AtLine) :
    (m.state.connecting = true ∧ (m.modemWrite bytes now lines).tty = m.tty) ∨
    ∃ accepted : List UInt8, m.state.connecting = false ∧
      let queue := m.xmit ++ accepted.map fun byte => { byte := byte, data := !m.command }
      (m.command = false ∧ (m.modemWrite bytes now lines).commandText = m.commandText ∧
        (m.modemWrite bytes now lines).xmit = queue) ∨
      (m.command = true ∧ (m.modemWrite bytes now lines).xmit = [] ∧
        ∃ keys, keys <+: queue ∧ (queue ≠ [] → keys ≠ []) ∧
          (m.modemWrite bytes now lines).commandText = m.commandText ++ keys) := by
  cases connecting : m.state.connecting with
  | true =>
      left
      refine ⟨rfl, ?_⟩
      unfold modemWrite
      rw [if_pos connecting]
      exact tty_hup m true
  | false =>
      right
      have checked : (if m.state = .modemOnline then m.modemCheckEscape bytes now else m).tty =
            m.tty ∧
          (if m.state = .modemOnline then m.modemCheckEscape bytes now else m).command =
            m.command := by
        split
        · exact checkEscape_keeps m bytes now
        · exact ⟨rfl, rfl⟩
      refine ⟨bytes.take (xmitSize - m.xmit.length), rfl, ?_⟩
      unfold modemWrite
      rw [connecting, if_neg (by decide)]
      generalize (if m.state = .modemOnline then m.modemCheckEscape bytes now else m) = next
        at checked
      have xmit : next.xmit = m.xmit := congrArg Tty.xmit checked.1
      have text : next.commandText = m.commandText := congrArg Tty.commandText checked.1
      have ended := queued_cases (next.queueBytes bytes) lines
      have queue : (next.queueBytes bytes).xmit =
          m.xmit ++ (bytes.take (xmitSize - m.xmit.length)).map fun byte =>
            { byte := byte, data := !m.command } := by
        unfold queueBytes
        simp only
        rw [xmit, checked.2]
      have command : (next.queueBytes bytes).command = m.command := checked.2
      have before : (next.queueBytes bytes).commandText = m.commandText := text
      simp only [queue, before] at ended
      rw [← command]
      rw [← command] at ended
      exact ended

/-! ### Runs -/

/-- No byte that was accepted in data mode has been command text. -/
def DataSafe (m : Modem) : Prop := ∀ key ∈ m.commandText, key.data = false

def WaitsAsData (m : Modem) : Prop := ∀ queued ∈ m.xmit, queued.data = true

/-- A write in command mode although characters still wait in the queue. -/
def WritesBehind (m : Modem) : Event → Prop
  | .write .. => m.state.connecting = false ∧ m.command = true ∧ m.xmit ≠ []
  | _ => False

theorem drains_keeps {m m' : Modem} (drains : m.tty.Drains m'.tty) :
    m'.commandText = m.commandText ∧ (m.WaitsAsData → m'.WaitsAsData) :=
  ⟨drains.1, fun waits queued inside => waits queued (drains.2 inside)⟩

theorem write_waits {m : Modem} (waits : m.WaitsAsData) (bytes : List UInt8) (now : BitVec 32)
    (lines : List AtLine) : (m.modemWrite bytes now lines).WaitsAsData := by
  rcases write_cases m bytes now lines with ⟨_, same⟩ | ⟨accepted, _, data | command⟩
  · exact (drains_keeps (Tty.Drains.of_eq same)).2 waits
  · rcases data with ⟨off, _, queue⟩
    unfold WaitsAsData
    rw [queue, off]
    intro queued inside
    rcases List.mem_append.mp inside with old | new
    · exact waits queued old
    · rcases List.mem_map.mp new with ⟨byte, _, rfl⟩
      rfl
  · unfold WaitsAsData
    rw [command.2.1]
    intro queued inside
    cases inside

theorem write_dataSafe_iff {m : Modem} (waits : m.WaitsAsData) (safe : m.DataSafe)
    (bytes : List UInt8) (now : BitVec 32) (lines : List AtLine) :
    (m.modemWrite bytes now lines).DataSafe ↔ ¬ m.WritesBehind (.write bytes now lines) := by
  rcases write_cases m bytes now lines with ⟨busy, same⟩ | ⟨accepted, free, data | command⟩
  · unfold DataSafe WritesBehind
    rw [(drains_keeps (Tty.Drains.of_eq same)).1, busy]
    simp only [Bool.true_eq_false, false_and, not_false_eq_true, iff_true]
    exact safe
  · rcases data with ⟨off, text, _⟩
    unfold DataSafe WritesBehind
    rw [text, off]
    simp only [Bool.false_eq_true, false_and, and_false, not_false_eq_true, iff_true]
    exact safe
  · rcases command with ⟨on, _, keys, front, some, text⟩
    rw [on] at front some
    unfold DataSafe WritesBehind
    rw [text, on]
    simp only [free, true_and, not_not, ne_eq]
    constructor
    · intro clean
      by_contra behind
      cases waiting : m.xmit with
      | nil => exact behind waiting
      | cons queued rest =>
          rw [waiting] at front some
          rcases List.exists_cons_of_ne_nil (some (List.cons_ne_nil _ _)) with ⟨key, later, shape⟩
          rw [shape] at front
          have first : key = queued := (List.cons_prefix_cons.mp front).1
          have asData : queued.data = true := by
            apply waits
            rw [waiting]
            exact List.mem_cons_self
          have asKey : key.data = false := by
            apply clean
            rw [shape]
            exact List.mem_append_right _ List.mem_cons_self
          rw [first, asData] at asKey
          cases asKey
    · intro empty key inside
      rcases List.mem_append.mp inside with old | new
      · exact safe key old
      · have queued := front.subset new
        rw [empty, List.nil_append] at queued
        rcases List.mem_map.mp queued with ⟨byte, _, rfl⟩
        rfl

theorem blockStep_waits {m : Modem} (waits : m.WaitsAsData) (event : Event) :
    (m.blockStep event).WaitsAsData := by
  unfold blockStep
  split
  case isFalse => exact waits
  case isTrue =>
    by_cases write : isWrite event
    · cases event with
      | write bytes now lines => exact write_waits waits bytes now lines
      | _ => exact write.elim
    · exact (drains_keeps (drains_perform m event write)).2 waits

theorem blockStep_dataSafe_iff {m : Modem} (waits : m.WaitsAsData) (safe : m.DataSafe)
    (event : Event) : (m.blockStep event).DataSafe ↔ ¬ m.WritesBehind event := by
  unfold blockStep
  by_cases write : isWrite event
  · cases event with
    | write bytes now lines => exact write_dataSafe_iff waits safe bytes now lines
    | _ => exact write.elim
  · have quiet : ¬ m.WritesBehind event := by
      cases event with
      | write => exact absurd trivial write
      | _ => exact id
    simp only [quiet, not_false_eq_true, iff_true]
    split
    case isFalse => exact safe
    case isTrue =>
      unfold DataSafe
      rw [(drains_keeps (drains_perform m event write)).1]
      exact safe

theorem waitsAsData_blockRun (events : List Event) :
    (modemCreate.blockRun events).WaitsAsData := by
  induction events using List.reverseRecOn with
  | nil =>
      intro queued inside
      cases inside
  | append_singleton before event ih =>
      rw [blockRun_snoc]
      exact blockStep_waits ih event

/-- Along a run no data is executed exactly if no write in command mode comes while
characters wait in the queue. -/
theorem data_never_executed_iff (events : List Event) :
    (∀ before, before <+: events → (modemCreate.blockRun before).DataSafe) ↔
      ∀ before event, before ++ [event] <+: events →
        ¬ (modemCreate.blockRun before).WritesBehind event := by
  constructor
  · intro safe before event within
    have now := safe before (prefix_of_snoc within)
    have next := safe (before ++ [event]) within
    rw [blockRun_snoc] at next
    exact (blockStep_dataSafe_iff (waitsAsData_blockRun before) now event).mp next
  · intro quiet before
    induction before using List.reverseRecOn with
    | nil =>
        intro _ key inside
        cases inside
    | append_singleton before event ih =>
        intro within
        rw [blockRun_snoc]
        exact (blockStep_dataSafe_iff (waitsAsData_blockRun before) (ih (prefix_of_snoc within))
          event).mpr (quiet before event within)

/-- Three characters wait when the carrier is lost; they go to the command line with the
next command. -/
theorem data_executed_after_carrier_loss :
    let lost := modemCreate.blockRun (answeredCall ++
      [.write [65, 84, 90, 13] 100 [], .dpStat .error obedient, .samples 48 obedient])
    let m := lost.blockStep (.write [65] 300 [{ calls := [(.reset, obedient)], ret := 0 }])
    lost.state = .modemIdle ∧ lost.DataSafe ∧ ¬ m.DataSafe ∧
      (m.commandText.drop lost.commandText.length).map Queued.byte = [65, 84, 90, 13, 65] := by
  intro lost m
  refine ⟨by decide +kernel, ?_, ?_, by decide +kernel⟩
  · unfold DataSafe
    decide +kernel
  · unfold DataSafe
    decide +kernel

end Modem

end DModem
