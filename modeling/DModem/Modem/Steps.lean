/-
What each step of a run does to the desk.

The steps of error correction are covered by the rule for the LAPM functions; here are
the others, and the properties of a run that follow from those of its steps.
-/

import DModem.Modem.WriteRule

namespace DModem

namespace Desk

section Steps

variable (d : Desk) (device : Device)

/-- The bit routines of a packer are installed and its timer is set. -/
def pack (routine : BitRoutine) (bitTimer : Int) (func : Option BitTimerFunc) : Desk :=
  { d with
    getBits := some routine
    putBits := some routine
    bitTimer := bitTimer
    bitTimerFunc := func }

def expire : Desk := { d.clearTimer with fired := d.fired ++ [(d.armedAt, d.stops)] }

def countSamples (ec : Bool) (count : Nat) : Desk :=
  let d := { d with count := d.count + count }
  if d.sampleTimer ≠ 0 ∧ d.sampleTimer ≤ d.count then
    match d.sampleTimerFunc with
    | none => d.expire
    | some func => d.expire.callTimer device ec func
  else d

def logFault (fault : Fault) : Desk := { d with faults := d.faults ++ [fault] }

/-- The forced call of `sample_timer_func`. -/
def forceTimer (ec : Bool) : Desk :=
  match d.sampleTimerFunc with
  | none => d.logFault .sampleTimerFunc
  | some func => d.callTimer device ec func

def forceHangup (ec : Bool) : Desk := ((d.hup ec).forceTimer device ec).clearTimer

def setFds : Desk := if d.fd < 0 then d.logFault .deviceFd else d

def escaped : Desk := { d.setState .commandOnline with command := true }

end Steps

end Desk

namespace Modem

section Steps

variable (m : Modem) (device : Device)

theorem desk_setFds : m.setFds.desk = m.desk.setFds := by
  unfold setFds Desk.setFds
  have descriptor : m.desk.fd = m.fd := rfl
  rw [descriptor]
  split <;> rfl

theorem desk_countSamples (count : Nat) :
    (m.countSamples count device).desk = m.desk.countSamples device m.cfg.ec count := by
  have counted : desk { m with count := m.count + count } =
      { m.desk with count := m.desk.count + count } := rfl
  have config : { m with count := m.count + count }.cfg = m.cfg := rfl
  unfold countSamples Desk.countSamples
  rw [← counted, ← config]
  generalize { m with count := m.count + count } = later
  have timer : later.desk.sampleTimer = later.sampleTimer := rfl
  have total : later.desk.count = later.count := rfl
  have callback : later.desk.sampleTimerFunc = later.sampleTimerFunc := rfl
  simp only
  rw [timer, total, callback]
  split
  · cases later.sampleTimerFunc with
    | none => rfl
    | some func => exact desk_callTimer _ device func
  · rfl

theorem hup_cfg (isLocal : Bool) : (m.modemHup isLocal).cfg = m.cfg := by
  have hung : ∀ (m' : Modem) (state : ModemState),
      (m'.modemSetState state).defaultResult.scheduleModemStop.cfg = m'.cfg := by
    intro m' state
    rcases setState_frame m' state with ⟨_, _, _, _, _, _, same⟩
    rw [same]
    unfold defaultResult
    split <;> rfl
  have released : m.modemEcStop.cfg = m.cfg := by
    unfold modemEcStop lapmDisconnect txDisc txUnnum putCtrl
    split <;> rfl
  unfold modemHup
  cases m.state with
  | modemIdle | dpDisc => rfl
  | dpEstab => exact hung m .dpDisc
  | ecDisc =>
      rcases setState_frame m .dpDisc with ⟨_, _, _, _, _, _, same⟩
      simp only
      rw [same]
  | ecEstab | modemOnline | commandOnline =>
      simp only
      split
      · exact (hung _ .ecDisc).trans released
      · exact hung m .dpDisc

theorem desk_forceHangup :
    (m.forceHangup device).desk = m.desk.forceHangup device m.cfg.ec := by
  have hung := desk_hup m true
  have config := hup_cfg m true
  unfold forceHangup Desk.forceHangup Desk.forceTimer
  rw [Bool.true_and] at hung
  simp only
  rw [← hung, ← config]
  generalize m.modemHup true = hanging
  have callback : hanging.desk.sampleTimerFunc = hanging.sampleTimerFunc := rfl
  rw [callback]
  cases hanging.sampleTimerFunc with
  | none => rfl
  | some func => exact congrArg Desk.clearTimer (desk_callTimer hanging device func)

theorem desk_escape :
    m.modemEscape.desk = m.desk ∨
      (m.state = .modemOnline ∧ m.modemEscape.desk = m.desk.escaped) := by
  unfold modemEscape
  by_cases complete : m.state = .modemOnline ∧ m.escapeCount = 3
  · rw [if_pos complete]
    apply Or.inr
    refine ⟨complete.1, ?_⟩
    have set := desk_setState m .commandOnline
    unfold Desk.escaped
    rw [← set]
    generalize m.modemSetState .commandOnline = online
    have reported := desk_report (putEcho { online with xmit := [] } online.crlf) .ok
    rw [Desk.report, if_neg (by decide)] at reported
    have echoed : (putEcho { online with xmit := [] } online.crlf).desk = online.desk := by
      simp [desk, putEcho]
    exact congrArg (fun d : Desk => { d with command := true }) (reported.trans echoed)
  · rw [if_neg complete]
    exact Or.inl rfl

/-- A ring that `modem_ring` takes for the first of a call that it is to identify. -/
def ringStartsCid (m : Modem) (now : BitVec 32) : Bool :=
  decide (m.state = .modemIdle) && decide (m.ringCount + 1 = 1) &&
    !timeBefore now (m.ringLast + BitVec.ofNat 32 ringOffMin) &&
    decide (m.sregs sregRingCounter = 0) && m.cidRequested

theorem desk_ring (now : BitVec 32) :
    (m.modemRing now device).desk =
      if m.ringStartsCid now then m.desk.cidStart device (ringOnMax + ringOffMin) else m.desk := by
  unfold modemRing ringStartsCid
  by_cases idle : m.state = .modemIdle
  · rw [if_neg (not_not.mpr idle)]
    simp only
    split
    · rename_i first
      split
      · rename_i early
        simp [early]
        rfl
      · rename_i late
        rw [Bool.not_eq_true] at late
        split
        · rename_i asked
          rw [if_pos (by simp [idle, first, late, asked])]
          exact desk_cidStart _ device (ringOnMax + ringOffMin)
        · rename_i silent
          rw [if_neg]
          · rfl
          · intro all
            simp only [Bool.and_eq_true, decide_eq_true_eq] at all
            exact silent ⟨all.1.2, all.2⟩
    · rename_i later
      have unread : decide (m.ringCount + 1 = 1) = false := decide_eq_false later
      rw [unread, Bool.and_false, Bool.false_and, Bool.false_and, Bool.false_and]
      rfl
  · rw [if_pos idle, if_neg (by simp [idle])]

/-- The ring detector reports a ring of unknown frequency, which goes to `modem_ring`. -/
def RingDetails.rings (details : RingDetails) : Bool :=
  decide (details.ret ≠ 0) && decide (details.freq = 0)

def deskRung (m : Modem) (details : RingDetails) (now : BitVec 32) (device : Device) : Desk :=
  if details.rings && m.ringStartsCid now then
    m.desk.cidStart device (ringOnMax + ringOffMin)
  else m.desk

theorem desk_ringDetails (details : RingDetails) (status : Int) (now : BitVec 32) :
    (m.modemRingDetectorProcess details status now device).desk =
      if (m.deskRung details now device).cid then
        (m.deskRung details now device).cidProcess device status
      else m.deskRung details now device := by
  unfold modemRingDetectorProcess
  have first : ∀ m' : Modem, (if m'.cid then m'.modemCidProcess status device else m').desk =
      if m'.desk.cid then m'.desk.cidProcess device status else m'.desk := by
    intro m'
    have object : m'.desk.cid = m'.cid := rfl
    rw [object]
    split
    · exact desk_cidProcess m' device status
    · rfl
  simp only
  rw [first]
  have rung : (if details.ret = 0 then m
      else if details.freq = 0 then m.modemRing now device
      else if 0 < details.freq then
        { m with
          ringCount :=
            if m.ringCount ≤ 1 then
              ((details.duration * details.freq).tdiv 1000 % 2 ^ 32).toNat
            else m.ringCount
          ringLast := now }
      else m).desk = m.deskRung details now device := by
    unfold deskRung RingDetails.rings
    split
    · rename_i nothing
      rw [if_neg (by simp [nothing])]
    · rename_i returned
      split
      · rename_i unknown
        rw [desk_ring]
        simp [returned, unknown]
      · rename_i known
        have named : decide (details.freq = 0) = false := decide_eq_false known
        rw [named, Bool.and_false, Bool.false_and]
        split
        · rfl
        · rfl
  rw [rung]

/-- `MDMEVENT_RING_CHECK` answers the call. -/
def ringAnswers (m : Modem) : Bool :=
  decide (m.ringCount ≠ 0) &&
    !timeBefore m.ringLast (m.ringFirst + BitVec.ofNat 32 ringOnMin) &&
    timeBefore m.ringLast (m.ringFirst + BitVec.ofNat 32 ringOnMax) &&
    decide (ringCountMin ≤ m.ringCount) && (!m.started || m.rdObj) &&
    (m.setRings (m.sregs sregRingCounter + 1)).ringsEnough

theorem desk_ringCheck :
    (∃ rings, (m.modemRingCheck device).desk = m.desk.setRings rings) ∨
      (m.ringAnswers = true ∧
        (m.modemRingCheck device).desk = ((m.desk.setRings 0).answer device).1) := by
  unfold modemRingCheck
  split
  · exact Or.inl ⟨0, rfl⟩
  · rename_i rung
    split
    · exact Or.inl ⟨0, rfl⟩
    · rename_i accepted
      have echoed : (if (setRings { m with ringCount := 0 } (m.sregs sregRingCounter + 1)).sregs
            sregRingCounter = 1 then
          (setRings { m with ringCount := 0 } (m.sregs sregRingCounter + 1)).putEcho
            (setRings { m with ringCount := 0 } (m.sregs sregRingCounter + 1)).crlf
          else setRings { m with ringCount := 0 } (m.sregs sregRingCounter + 1)).desk =
          m.desk.setRings (m.sregs sregRingCounter + 1) := by
        split
        · simp [desk, putEcho, setRings, Desk.setRings]
        · rfl
      simp only
      generalize (if (setRings { m with ringCount := 0 } (m.sregs sregRingCounter + 1)).sregs
            sregRingCounter = 1 then
          (setRings { m with ringCount := 0 } (m.sregs sregRingCounter + 1)).putEcho
            (setRings { m with ringCount := 0 } (m.sregs sregRingCounter + 1)).crlf
          else setRings { m with ringCount := 0 } (m.sregs sregRingCounter + 1)) = counted at echoed
      have reported := desk_report counted .ring
      rw [Desk.report, if_neg (by decide), echoed] at reported
      generalize counted.modemReportResult .ring = ringing at reported
      have started : ringing.started = m.started := congrArg Desk.started reported
      have detector : ringing.rdObj = m.rdObj := congrArg Desk.rdObj reported
      have enough : ringing.ringsEnough =
          (m.setRings (m.sregs sregRingCounter + 1)).ringsEnough :=
        congrArg Desk.ringsEnough reported
      split
      · rename_i answers
        apply Or.inr
        rw [started, detector, enough] at answers
        have cleared : (ringing.setRings 0).desk = m.desk.setRings 0 := by
          have again : (ringing.setRings 0).desk = ringing.desk.setRings 0 := rfl
          rw [again, reported]
          simp [Desk.setRings]
        constructor
        · simp only [not_or, not_lt, Bool.not_eq_true, Bool.not_eq_false'] at accepted
          unfold ringAnswers
          rw [Bool.and_assoc, answers]
          simp [rung, accepted]
        · rw [desk_answerResult, cleared]
      · exact Or.inl ⟨_, reported⟩

/-! ### Data pumps -/

theorem desk_packLink :
    (∃ bitTimer func, m.packLink.desk = m.desk.pack .hdlc bitTimer func ∧
        (bitTimer ≠ 0 → func ≠ none)) ∨
      (m.cfg.ec = false ∧ m.packLink.desk = (m.desk.pack .async 0 none).link) := by
  unfold packLink
  cases m.cfg.ec with
  | true =>
      apply Or.inl
      simp only [if_true]
      unfold modemEcStart
      split
      · exact ⟨_, _, rfl, fun _ none => by cases none⟩
      · exact ⟨_, _, rfl, fun running => absurd rfl running⟩
  | false =>
      apply Or.inr
      simp only [Bool.false_eq_true, if_false]
      unfold ecLink
      rw [desk_report, desk_setState]
      exact ⟨trivial, rfl⟩

theorem desk_dpLink (pump : m.dp ≠ none) :
    (∃ routine bitTimer func,
        m.dpLink.desk = (m.desk.setState .ecEstab).pack routine bitTimer func ∧
          (bitTimer ≠ 0 → func ≠ none)) ∨
      m.dpLink.desk = ((m.desk.setState .ecEstab).pack .async 0 none).link := by
  have config : (if m.dp.any DpId.nonEc then { m with cfg := { m.cfg with ec := false } }
      else m).desk = m.desk := by
    split <;> rfl
  unfold dpLink
  rw [if_neg pump]
  simp only
  generalize (if m.dp.any DpId.nonEc then { m with cfg := { m.cfg with ec := false } }
    else m) = chosen at config
  have set := desk_setState chosen .ecEstab
  rw [config] at set
  generalize chosen.modemSetState .ecEstab = begun at set
  rw [← set]
  split
  · apply Or.inl
    unfold modemDetectorStart
    split
    · exact ⟨.detector, _, _, rfl, fun _ none => by cases none⟩
    · exact ⟨.detector, _, _, rfl, fun _ none => by cases none⟩
  · rcases desk_packLink begun with ⟨bitTimer, func, packed, set'⟩ | ⟨_, linked⟩
    · exact Or.inl ⟨.hdlc, bitTimer, func, packed, set'⟩
    · exact Or.inr linked

theorem desk_dpReturns (stat : DpStat) :
    (m.dpReturns stat device).desk = m.desk ∨
      (stat = .connect ∧ (m.state = .modemIdle ∨ m.state = .dpEstab) ∧
        m.dpReturns stat device = m.dpLink) ∨
      (stat = .changedp ∧
        (m.dpReturns stat device).desk = m.desk.changeDp device m.cfg.ec) ∨
      ∃ code, code ≠ .connect ∧ (m.dpReturns stat device).desk =
        { m.desk.fail code (m.state.disc && m.cfg.ec) with process := none } := by
  have failed : ∀ code, desk { modemHup { m with resultCode := code } m.state.disc with
        process := none } =
      { m.desk.fail code (m.state.disc && m.cfg.ec) with process := none } := by
    intro code
    exact congrArg (fun d : Desk => { d with process := none })
      (desk_hup { m with resultCode := code } m.state.disc)
  cases stat with
  | ok => exact Or.inl rfl
  | connect =>
      unfold dpReturns
      simp only
      split
      · rename_i open_
        apply Or.inr
        apply Or.inl
        refine ⟨trivial, ?_, rfl⟩
        revert open_
        cases m.state <;> decide
      · exact Or.inl rfl
  | changedp =>
      apply Or.inr
      apply Or.inr
      exact Or.inl ⟨rfl, desk_changeDp m device⟩
  | error | other =>
      apply Or.inr
      apply Or.inr
      exact Or.inr ⟨.nocarrier, by decide, failed _⟩
  | nodialtone =>
      apply Or.inr
      apply Or.inr
      exact Or.inr ⟨.nodialtone, by decide, failed _⟩
  | busy =>
      apply Or.inr
      apply Or.inr
      exact Or.inr ⟨.busy, by decide, failed _⟩
  | noanswer =>
      apply Or.inr
      apply Or.inr
      exact Or.inr ⟨.noanswer, by decide, failed _⟩

end Steps

/-! ### The bit timer -/

theorem LapmQuiet.tick {P : Modem → Prop} (safe : LapmQuiet P) {m : Modem} (kept : P m) (bits : Nat)
    (untimed : m.bitTimer ≠ 0 → m.bitTimerFunc = none →
      P (logFault { m with bitTimer := 0 } .bitTimerFunc))
    (finish : m.bitsExpire bits = true → m.bitTimerFunc = some .detectorFinish →
      P (detectorFinish { m with bitTimer := 0 })) :
    P (m.tickBits bits) := by
  unfold tickBits
  split
  · rename_i expires
    have running : m.bitTimer ≠ 0 := by
      intro off
      simp [bitsExpire, off] at expires
    have stopped : P { m with bitTimer := 0 } :=
      safe.quiet kept rfl fun _ => timerSet_stopped rfl
    unfold runBitTimer
    split
    · rename_i none
      exact untimed running none
    · exact safe.t401Timeout stopped
    · exact safe.negotiate stopped
    · exact safe.quiet stopped rfl id
    · rename_i func
      exact finish expires func
  · split
    · rename_i running
      exact safe.quiet kept rfl fun set _ => set running
    · exact kept

end Modem

end DModem
