/-
An invariant rule for whole runs.

A property of the desk holds along a run if what the steps do to the desk keeps it.
`Fine` is what is asked of the steps, and `FineCall` of the calls that commands make.
-/

import DModem.Modem.Sessions

namespace DModem

namespace Desk

def Pumps (d : Desk) : Prop := d.started = true ∧ d.dp ≠ none

theorem hup_pumps {d : Desk} (pumps : d.Pumps) (release : Bool) : (d.hup release).Pumps := by
  rcases hup_cases d release with ⟨_, same⟩ | ⟨_, same⟩ | ⟨_, _, _, _, _, _, _, _, _, same⟩
  · rw [same]
    exact pumps
  · rw [same]
    exact pumps
  · rw [same]
    exact pumps

theorem fail_pumps {d : Desk} (pumps : d.Pumps) (code : ModemResult) (release : Bool) :
    (d.fail code release).Pumps :=
  hup_pumps (d := { d with resultCode := code }) pumps release

theorem setState_pumps {d : Desk} (pumps : d.Pumps) (newState : ModemState) :
    (d.setState newState).Pumps := by
  rcases setState_frame d newState with ⟨_, _, _, same⟩
  rw [same]
  exact pumps

theorem link_pumps {d : Desk} (pumps : d.Pumps) : d.link.Pumps := by
  rcases link_eq d with ⟨_, _, _, same⟩
  rw [same]
  exact pumps

end Desk

namespace Modem

theorem pumps_of_occurs {m : Modem} {rest : Bool} (occurs : (m.pumps && rest) = true) :
    m.desk.Pumps := by
  rw [Bool.and_eq_true, pumps, Bool.and_eq_true, Option.isSome_iff_ne_none] at occurs
  exact occurs.1

theorem desk_detectorChar (m : Modem) (ch : UInt8) :
    ∃ bitTimer func, (m.detectorChar ch).desk =
        { m.desk with bitTimer := bitTimer, bitTimerFunc := func } ∧
      ((m.bitTimer ≠ 0 → m.bitTimerFunc ≠ none) → bitTimer ≠ 0 → func ≠ none) := by
  unfold detectorChar
  simp only
  split_ifs <;> exact ⟨_, _, rfl, by simp⟩

structure StepSafe (P : Desk → Prop) (Fine : Modem → Event → Prop)
    (FineCall : Modem → Call → Device → Prop) : Prop where
  bits : ∀ {d : Desk} (bitTimer : Int) (func : Option BitTimerFunc), P d →
    ((d.bitTimer ≠ 0 → d.bitTimerFunc ≠ none) → bitTimer ≠ 0 → func ≠ none) →
      P { d with bitTimer := bitTimer, bitTimerFunc := func }
  untimed : ∀ {d : Desk}, P d → d.bitTimer ≠ 0 → d.bitTimerFunc = none →
    P (Desk.logFault { d with bitTimer := 0 } .bitTimerFunc)
  hup : ∀ {d : Desk} (release : Bool), P d → P (d.hup release)
  fail : ∀ {d : Desk} (code : ModemResult) (release : Bool), P d → code ≠ .connect →
    P (d.fail code release)
  drop : ∀ {d : Desk}, P d → d.Pumps → P { d with process := none }
  pack : ∀ {d : Desk} (routine : BitRoutine) (bitTimer : Int) (func : Option BitTimerFunc),
    P d → d.Pumps → (bitTimer ≠ 0 → func ≠ none) → P (d.pack routine bitTimer func)
  frame : ∀ {m : Modem} (f : Hdlc.Frame) (chars : Chars), P m.desk → m.desk.Pumps →
    Fine m (.frame f chars) → P (m.lapmRxComplete f chars).desk
  finish : ∀ {m : Modem} (bits : Nat), P m.desk → m.desk.Pumps → Fine m (.tick bits) →
    m.bitsExpire bits = true → m.bitTimerFunc = some .detectorFinish →
      m.detector.ecEnable = false → P (m.desk.pack .async 0 none).link
  connect : ∀ {m : Modem} (device : Device), P m.desk → m.desk.Pumps →
    Fine m (.dpStat .connect device) → m.state = .modemIdle ∨ m.state = .dpEstab →
      P (m.desk.setState .ecEstab) ∧ P ((m.desk.setState .ecEstab).pack .async 0 none).link
  change : ∀ {m : Modem} (device : Device), P m.desk → m.desk.Pumps →
    Fine m (.dpStat .changedp device) → P (m.desk.changeDp device m.cfg.ec)
  escaped : ∀ {d : Desk}, P d → d.state = .modemOnline → P d.escaped
  rings : ∀ {d : Desk} (rings : UInt8), P d → P (d.setRings rings)
  ringCheck : ∀ {m : Modem} (device : Device), P m.desk → Fine m (.ringCheck device) →
    m.ringAnswers = true → P ((m.desk.setRings 0).answer device).1
  ring : ∀ {m : Modem} (now : BitVec 32) (device : Device), P m.desk →
    Fine m (.ring now device) → m.ringStartsCid now = true →
      P (m.desk.cidStart device (ringOnMax + ringOffMin))
  ringDetectorStart : ∀ {m : Modem} (device : Device), P m.desk →
    Fine m (.ringDetectorStart device) → m.started = false → P (m.desk.ringDetectorStart device)
  select : ∀ {m : Modem}, P m.desk → Fine m .select → P m.desk.setFds
  readFails : ∀ {m : Modem} (device : Device), P m.desk → Fine m (.readFails device) →
    m.started = true → P (m.desk.forceHangup device m.cfg.ec)
  cidStatus : ∀ {m : Modem} (status : Int) (device : Device), P m.desk →
    Fine m (.cidStatus status device) → m.processes .cid = true →
      P (m.desk.cidProcess device status)
  ringDetails : ∀ {m : Modem} (details : RingDetails) (status : Int) (now : BitVec 32)
    (device : Device), P m.desk → Fine m (.ringDetails details status now device) →
    m.processes .ringDetector = true →
      P (if (m.deskRung details now device).cid then
          (m.deskRung details now device).cidProcess device status
        else m.deskRung details now device)
  voiceStatus : ∀ {m : Modem} (status : Int) (device : Device), P m.desk →
    Fine m (.voiceStatus status device) → m.processes .voice = true →
      P (m.desk.voiceProcess device status)
  faxStatus : ∀ {m : Modem} (ret : Int) (device : Device), P m.desk →
    Fine m (.faxStatus ret device) → m.processes .fax = true →
      P (m.desk.faxProcess device m.cfg.ec ret)
  samples : ∀ {m : Modem} (count : Nat) (device : Device), P m.desk →
    Fine m (.samples count device) → P (m.desk.countSamples device m.cfg.ec count)
  call : ∀ {m : Modem} (c : Call) (device : Device), P m.desk → FineCall m c device →
    P (m.desk.call device m.cfg.ec c)
  calls : ∀ {m : Modem} (bytes : List UInt8) (now : BitVec 32) (lines : List AtLine),
    Fine m (.write bytes now lines) → ∀ made ∈ m.writeTrace bytes now lines,
      FineCall made.1 made.2.1 made.2.2

section Rule

variable {P : Desk → Prop}

theorem lapmQuiet_of
    (bits : ∀ {d : Desk} (bitTimer : Int) (func : Option BitTimerFunc), P d →
      ((d.bitTimer ≠ 0 → d.bitTimerFunc ≠ none) → bitTimer ≠ 0 → func ≠ none) →
        P { d with bitTimer := bitTimer, bitTimerFunc := func })
    (fail : ∀ {d : Desk} (code : ModemResult) (release : Bool), P d → code ≠ .connect →
      P (d.fail code release)) :
    LapmQuiet fun m => P m.desk ∧ m.desk.Pumps :=
  { quiet := by
      intro m m' kept same set
      rw [same]
      exact ⟨bits m'.bitTimer m'.bitTimerFunc kept.1 set, kept.2⟩
    fail := by
      intro m isLocal kept
      have hung := desk_hup { m with resultCode := .nocarrier } isLocal
      rw [hung]
      exact ⟨fail .nocarrier _ kept.1 (by decide), Desk.fail_pumps kept.2 .nocarrier _⟩ }

theorem desk_ecLink (m : Modem) : m.ecLink.desk = m.desk.link := by
  unfold ecLink
  rw [desk_report, desk_setState]
  rfl

theorem lapmSafe_of
    (bits : ∀ {d : Desk} (bitTimer : Int) (func : Option BitTimerFunc), P d →
      ((d.bitTimer ≠ 0 → d.bitTimerFunc ≠ none) → bitTimer ≠ 0 → func ≠ none) →
        P { d with bitTimer := bitTimer, bitTimerFunc := func })
    (fail : ∀ {d : Desk} (code : ModemResult) (release : Bool), P d → code ≠ .connect →
      P (d.fail code release))
    (link : ∀ {d : Desk}, P d → d.Pumps → P d.link) :
    LapmSafe fun m => P m.desk ∧ m.desk.Pumps :=
  { lapmQuiet_of bits fail with
    link := by
      intro m kept
      rw [desk_ecLink]
      exact ⟨link kept.1 kept.2, Desk.link_pumps kept.2⟩ }

variable {Fine : Modem → Event → Prop} {FineCall : Modem → Call → Device → Prop}
  (safe : StepSafe P Fine FineCall)
include safe

theorem StepSafe.quiet : LapmQuiet fun m => P m.desk ∧ m.desk.Pumps :=
  lapmQuiet_of safe.bits safe.fail

theorem StepSafe.write : WriteSafe (fun m => P m.desk) FineCall :=
  { quiet := by
      intro m m' kept same
      rw [same]
      exact kept
    hup := by
      intro m kept
      rw [desk_hup]
      exact safe.hup _ kept
    call := by
      intro m c device kept fine
      rw [desk_call]
      exact safe.call c device kept fine }

theorem StepSafe.tick {m : Modem} (bits : Nat) (kept : P m.desk) (pumps : m.desk.Pumps)
    (fine : Fine m (.tick bits)) : P (m.tickBits bits).desk := by
  apply And.left
  apply safe.quiet.tick ⟨kept, pumps⟩ bits
  · intro running none
    exact ⟨safe.untimed kept running none, pumps⟩
  · intro expires func
    have stopped : P { m.desk with bitTimer := 0 } :=
      safe.bits 0 _ kept fun _ running => absurd rfl running
    unfold detectorFinish modemUpdateStatus
    simp only
    have before : desk { m with
        bitTimer := 0
        cfg := { m.cfg with ec := m.detector.ecEnable } } = { m.desk with bitTimer := 0 } := rfl
    rcases desk_packLink { m with
        bitTimer := 0
        cfg := { m.cfg with ec := m.detector.ecEnable } } with
      ⟨bitTimer, callback, packed, set⟩ | ⟨plain, linked⟩
    · rw [packed, before]
      exact ⟨safe.pack .hdlc bitTimer callback stopped pumps set, pumps⟩
    · rw [linked]
      have online := safe.finish (m := m) bits kept pumps fine expires func plain
      exact ⟨online, Desk.link_pumps pumps⟩

theorem StepSafe.dpStat {m : Modem} (stat : DpStat) (device : Device) (kept : P m.desk)
    (pumps : m.desk.Pumps) (fine : Fine m (.dpStat stat device)) :
    P (m.dpReturns stat device).desk := by
  rcases desk_dpReturns m device stat with
    same | ⟨rfl, open_, linked⟩ | ⟨rfl, changed⟩ | ⟨code, other, failed⟩
  · rw [same]
    exact kept
  · rw [linked]
    have ready := safe.connect device kept pumps fine open_
    rcases desk_dpLink m pumps.2 with ⟨routine, bitTimer, func, packed, set⟩ | plain
    · rw [packed]
      exact safe.pack routine bitTimer func ready.1 (Desk.setState_pumps pumps .ecEstab) set
    · rw [plain]
      exact ready.2
  · rw [changed]
    exact safe.change device kept pumps fine
  · rw [failed]
    exact safe.drop (safe.fail code _ kept other) (Desk.fail_pumps pumps code _)

theorem StepSafe.step {m : Modem} (event : Event) (kept : P m.desk) (fine : Fine m event) :
    P (m.step event).desk := by
  unfold Modem.step
  split
  case isFalse => exact kept
  case isTrue occurs =>
    cases event with
    | hangup =>
        change P (m.modemHup true).desk
        rw [desk_hup]
        exact safe.hup _ kept
    | write bytes now lines =>
        exact safe.write.write kept bytes now lines (safe.calls bytes now lines fine)
    | escape =>
        rcases desk_escape m with same | ⟨online, escaped⟩
        · rw [perform, same]
          exact kept
        · rw [perform, escaped]
          exact safe.escaped kept online
    | ringCheck device =>
        rcases desk_ringCheck m device with ⟨rings, same⟩ | ⟨free, answered⟩
        · rw [perform, same]
          exact safe.rings rings kept
        · rw [perform, answered]
          exact safe.ringCheck device kept fine free
    | ring now device =>
        rw [perform, desk_ring]
        split
        · exact safe.ring now device kept fine (by assumption)
        · exact kept
    | ringDetectorStart device =>
        rw [perform, desk_ringDetectorStart]
        rw [Occurs, Bool.not_eq_true'] at occurs
        exact safe.ringDetectorStart device kept fine occurs
    | select =>
        rw [perform, desk_setFds]
        exact safe.select kept fine
    | readFails device =>
        rw [perform, desk_forceHangup]
        exact safe.readFails device kept fine occurs
    | take count => exact kept
    | fetch chars =>
        rw [Occurs, Bool.and_assoc] at occurs
        exact (safe.quiet.getTxFrame ⟨kept, pumps_of_occurs occurs⟩ chars).1
    | push chars => exact (safe.quiet.pushRestData ⟨kept, pumps_of_occurs occurs⟩ chars).1
    | tick bits =>
        rw [Occurs, ← Bool.and_true m.pumps] at occurs
        exact safe.tick bits kept (pumps_of_occurs occurs) fine
    | frame f chars => exact safe.frame f chars kept (pumps_of_occurs occurs) fine
    | detect ch =>
        rcases desk_detectorChar m ch with ⟨bitTimer, func, same, set⟩
        rw [perform, same]
        exact safe.bits bitTimer func kept set
    | receive bytes chars =>
        exact (safe.quiet.callPutChars ⟨kept, pumps_of_occurs occurs⟩ chars bytes _).1
    | dpStat stat device =>
        rw [Occurs, ← Bool.and_true m.pumps] at occurs
        exact safe.dpStat stat device kept (pumps_of_occurs occurs) fine
    | cidStatus status device =>
        rw [perform, desk_cidProcess]
        exact safe.cidStatus status device kept fine occurs
    | ringDetails details status now device =>
        rw [perform, desk_ringDetails]
        exact safe.ringDetails details status now device kept fine occurs
    | voiceStatus status device =>
        rw [perform, desk_voiceProcess]
        exact safe.voiceStatus status device kept fine occurs
    | faxStatus ret device =>
        rw [perform, desk_faxProcess]
        exact safe.faxStatus ret device kept fine occurs
    | samples count device =>
        rw [perform, desk_countSamples]
        exact safe.samples count device kept fine

theorem StepSafe.blockStep {m : Modem} (event : Event) (kept : P m.desk) (fine : Fine m event) :
    P (m.blockStep event).desk := by
  have stepped := safe.step event kept fine
  unfold Modem.blockStep
  split
  case isFalse => exact kept
  case isTrue occurs =>
    unfold Modem.step at stepped
    by_cases usual : m.Occurs event = true
    · rw [if_pos usual] at stepped
      exact stepped
    · cases event with
      | fetch chars =>
          exact (safe.quiet.getTxFrame ⟨kept, pumps_of_occurs occurs⟩ chars).1
      | frame f chars =>
          have pumps : m.desk.Pumps := pumps_of_occurs ((Bool.and_true _).trans occurs)
          exact safe.frame f chars kept pumps fine
      | detect ch =>
          rcases desk_detectorChar m ch with ⟨bitTimer, func, same, set⟩
          rw [perform, same]
          exact safe.bits bitTimer func kept set
      | receive bytes chars =>
          have pumps : m.desk.Pumps := pumps_of_occurs ((Bool.and_true _).trans occurs)
          exact (safe.quiet.callPutChars ⟨kept, pumps⟩ chars bytes _).1
      | hangup | write | escape | ringCheck | ring | ringDetectorStart | select | readFails | take
      | push | tick | dpStat | cidStatus | ringDetails | voiceStatus | faxStatus | samples =>
          exact absurd occurs usual

theorem StepSafe.run {m : Modem} {events : List Event} (kept : P m.desk)
    (fine : m.Along Fine events) : ∀ before, before <+: events → P (m.blockRun before).desk := by
  induction events generalizing m with
  | nil =>
      intro before within
      rw [List.prefix_nil.mp within]
      exact kept
  | cons event rest ih =>
      intro before within
      cases before with
      | nil => exact kept
      | cons first later =>
          rw [List.cons_prefix_cons] at within
          rcases within with ⟨rfl, within⟩
          exact ih (safe.blockStep first kept fine.1) fine.2 later within

end Rule

end Modem

end DModem
