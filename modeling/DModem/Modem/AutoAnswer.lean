/-
Counting the rings of a call that comes in.

The three counters of the modem hold what matters of the pulses between two checks.  A burst
begins after a pause; it is genuine with enough pulses in the right time.  The call is answered
with the burst that makes the row of genuine bursts as long as the S-register asks for.
-/

import DModem.Modem.Steps

namespace DModem

/-! ### What the line rings -/

/-- The times of the pulses up to a check. -/
structure RingInterval where
  pulses : List (BitVec 32)
  device : Device

namespace RingInterval

open Modem

def events (interval : RingInterval) : List Event :=
  interval.pulses.map (fun now => .ring now interval.device) ++ [.ringCheck interval.device]

/-- The pulses from the first that comes after a pause; `last` is the one before. -/
def burst (last : BitVec 32) : List (BitVec 32) → List (BitVec 32)
  | [] => []
  | now :: rest =>
      if timeBefore now (last + BitVec.ofNat 32 ringOffMin) then burst now rest else now :: rest

def lastOf (last : BitVec 32) (pulses : List (BitVec 32)) : BitVec 32 := pulses.getLastD last

def genuine : List (BitVec 32) → Bool
  | [] => false
  | first :: rest =>
      !timeBefore (lastOf first rest) (first + BitVec.ofNat 32 ringOnMin) &&
        timeBefore (lastOf first rest) (first + BitVec.ofNat 32 ringOnMax) &&
        decide (ringCountMin ≤ rest.length + 1)

/-- The genuine bursts in a row at the end of the intervals, when there were `row` before. -/
def rowFrom (last : BitVec 32) (row : Nat) : List RingInterval → Nat
  | [] => row
  | interval :: rest =>
      rowFrom (lastOf last interval.pulses)
        (if genuine (burst last interval.pulses) then row + 1 else 0) rest

theorem burst_last {last first : BitVec 32} {pulses rest : List (BitVec 32)}
    (begins : burst last pulses = first :: rest) : lastOf last pulses = lastOf first rest := by
  induction pulses generalizing last with
  | nil => cases begins
  | cons now later ih =>
      rw [burst] at begins
      split at begins
      · rw [← ih begins]
        exact List.getLastD_cons
      · rw [← (List.cons.inj begins).1, ← (List.cons.inj begins).2]
        exact List.getLastD_cons

/-- The genuine bursts among the intervals. -/
def genuines (last : BitVec 32) : List RingInterval → Nat
  | [] => 0
  | interval :: rest =>
      (if genuine (burst last interval.pulses) then 1 else 0) +
        genuines (lastOf last interval.pulses) rest

end RingInterval

namespace Modem

open RingInterval

def ringInterval (m : Modem) (interval : RingInterval) : Modem :=
  (interval.pulses.foldl (fun m now => m.modemRing now interval.device) m).modemRingCheck
    interval.device

theorem run_interval (m : Modem) (interval : RingInterval) (later : List Event) :
    m.run (interval.events ++ later) = (m.ringInterval interval).run later := by
  rcases interval with ⟨pulses, device⟩
  unfold ringInterval RingInterval.events
  simp only
  induction pulses generalizing m with
  | nil => rfl
  | cons now rest ih => exact ih (m.modemRing now device)

/-- The number of `RESULT_RING` reports that were printed. -/
def ringReports (m : Modem) : Nat :=
  m.out.countP fun
    | .result .ring => true
    | _ => false

/-- On the hook, in the idle state, and nobody asked for the caller's number. -/
structure OnHook (m : Modem) : Prop where
  idle : m.state = .modemIdle
  stopped : m.started = false
  anonymous : m.cidRequested = false
  counted : m.ringCount = 0

/-- `ANSWER_AFTER_RINGS`. -/
def answerAfter (m : Modem) : Nat := (m.sregs sregRingsToAutoAnswer).toNat

/-! ### Pulses -/

section Pulses

variable {m : Modem} (device : Device)

theorem pulse_later (idle : m.state = .modemIdle) {count : Nat} (now : BitVec 32)
    (counted : m.ringCount = count + 1) :
    m.modemRing now device = { m with ringCount := count + 2, ringLast := now } := by
  unfold modemRing
  rw [if_neg (fun busy => busy idle)]
  simp only [counted]
  rw [if_neg (by omega)]

theorem pulse_first (idle : m.state = .modemIdle) (anonymous : m.cidRequested = false)
    (now : BitVec 32) (counted : m.ringCount = 0) :
    m.modemRing now device =
      if timeBefore now (m.ringLast + BitVec.ofNat 32 ringOffMin) then { m with ringLast := now }
      else { m with ringCount := 1, ringFirst := now, ringLast := now } := by
  unfold modemRing
  rw [if_neg (fun busy => busy idle)]
  simp only [counted, Nat.zero_add, if_true]
  split
  · rw [← counted]
  · rw [if_neg (fun cid => Bool.false_ne_true (anonymous.symm.trans cid.2))]

theorem pulses_later (count : Nat) (idle : m.state = .modemIdle) (pulses : List (BitVec 32))
    (counted : m.ringCount = count + 1) :
    pulses.foldl (fun m now => m.modemRing now device) m =
      { m with
        ringCount := count + 1 + pulses.length
        ringLast := lastOf m.ringLast pulses } := by
  induction pulses generalizing m count with
  | nil =>
      simp only [List.foldl_nil, List.length_nil, Nat.add_zero, lastOf, List.getLastD_nil]
      rw [← counted]
  | cons now rest ih =>
      rw [List.foldl_cons, pulse_later device idle now counted]
      rw [ih (m := { m with ringCount := count + 2, ringLast := now }) (count + 1) idle rfl]
      simp only [lastOf, List.getLastD_cons, List.length_cons]
      have sum : count + 1 + 1 + rest.length = count + 1 + (rest.length + 1) := by omega
      rw [sum]

theorem pulses_state (idle : m.state = .modemIdle) (anonymous : m.cidRequested = false)
    (counted : m.ringCount = 0) (pulses : List (BitVec 32)) :
    pulses.foldl (fun m now => m.modemRing now device) m =
      match burst m.ringLast pulses with
      | [] => { m with ringLast := lastOf m.ringLast pulses }
      | first :: rest =>
          { m with
            ringCount := rest.length + 1
            ringFirst := first
            ringLast := lastOf m.ringLast pulses } := by
  induction pulses generalizing m with
  | nil => rfl
  | cons now rest ih =>
      rw [List.foldl_cons, pulse_first device idle anonymous now counted, burst]
      have last : lastOf m.ringLast (now :: rest) = lastOf now rest := List.getLastD_cons
      rw [last]
      by_cases soon : timeBefore now (m.ringLast + BitVec.ofNat 32 ringOffMin) = true
      · rw [if_pos soon, if_pos soon]
        exact ih (m := { m with ringLast := now }) idle anonymous counted
      · rw [if_neg soon, if_neg soon]
        have later := pulses_later
          (m := { m with ringCount := 1, ringFirst := now, ringLast := now }) device 0
          idle rest rfl
        rw [later]
        have sum : 0 + 1 + rest.length = rest.length + 1 := by omega
        simp only [sum]

end Pulses

/-! ### The check -/

/-- What the rings change on a modem that does not answer; a quiet modem prints none of the
reports. -/
structure Ringing (m w : Modem) (row reports : Nat) : Prop where
  same : ∃ first last out calls, w =
    { m with
      ringCount := 0
      ringFirst := first
      ringLast := last
      out := out
      reports := calls
      sregs := Function.update m.sregs sregRingCounter (UInt8.ofNat row) }
  reports : w.ringReports = m.ringReports + if m.isQuiet then 0 else reports

/-- A row of genuine bursts after which the call is answered. -/
def RowAnswers (m : Modem) (row : Nat) : Prop := m.answerAfter ≠ 0 ∧ m.answerAfter ≤ row

instance (m : Modem) (row : Nat) : Decidable (m.RowAnswers row) :=
  inferInstanceAs (Decidable (_ ∧ _))

section Check

variable {m w : Modem} {row reports : Nat}

theorem setRings_counter (m : Modem) (rings : UInt8) :
    (m.setRings rings).sregs sregRingCounter = rings := by
  change Function.update m.sregs sregRingCounter rings sregRingCounter = rings
  simp

theorem setRings_asked (m : Modem) (rings : UInt8) :
    (m.setRings rings).sregs sregRingsToAutoAnswer = m.sregs sregRingsToAutoAnswer := by
  change Function.update m.sregs sregRingCounter rings sregRingsToAutoAnswer = _
  have apart : sregRingsToAutoAnswer ≠ sregRingCounter := by decide
  simp [apart]

theorem answerAfter_small (m : Modem) : m.answerAfter < 256 :=
  (m.sregs sregRingsToAutoAnswer).toNat_lt

theorem ringsEnough_iff (ringing : Ringing m w row reports)
    (small : m.answerAfter ≠ 0 → row < 256) : w.ringsEnough = true ↔ m.RowAnswers row := by
  rcases ringing.same with ⟨first, last, out, calls, rfl⟩
  have asked : Function.update m.sregs sregRingCounter (UInt8.ofNat row) sregRingsToAutoAnswer =
      m.sregs sregRingsToAutoAnswer := setRings_asked m (UInt8.ofNat row)
  unfold ringsEnough RowAnswers answerAfter at *
  simp only [asked, Function.update_self, Bool.and_eq_true, bne_iff_ne, decide_eq_true_eq]
  by_cases none : m.sregs sregRingsToAutoAnswer = 0
  · simp [none]
  · have some : (m.sregs sregRingsToAutoAnswer).toNat ≠ 0 := by
      intro zero
      apply none
      exact UInt8.toNat_inj.mp zero
    have rowEq : (UInt8.ofNat row).toNat = row := by
      rw [UInt8.toNat_ofNat']
      exact Nat.mod_eq_of_lt (small some)
    rw [UInt8.le_iff_toNat_le, rowEq]
    exact ⟨fun enough => ⟨some, enough.2⟩, fun enough => ⟨none, enough.2⟩⟩

theorem ringsEnough_zero (m : Modem) : ¬ (m.setRings (UInt8.ofNat 0)).ringsEnough = true := by
  unfold ringsEnough
  rw [setRings_asked, setRings_counter]
  by_cases none : m.sregs sregRingsToAutoAnswer = 0
  · rw [none]
    decide
  · have some : ¬ m.sregs sregRingsToAutoAnswer ≤ UInt8.ofNat 0 := by
      intro small
      apply none
      exact UInt8.le_antisymm small UInt8.zero_le
    simp only [some, decide_false, Bool.and_false]
    exact Bool.false_ne_true

theorem isQuiet_setRings (m : Modem) (rings : UInt8) : (m.setRings rings).isQuiet = m.isQuiet := by
  have apart : sregQuiet ≠ sregRingCounter := by decide
  unfold isQuiet setRings
  simp [apart]

theorem Ringing.quiet (ringing : Ringing m w row reports) : w.isQuiet = m.isQuiet := by
  rcases ringing.same with ⟨first, last, out, calls, rfl⟩
  exact isQuiet_setRings m (UInt8.ofNat row)

theorem ringing_setRings (ringing : Ringing m w row reports) (row' : Nat)
    (first last : BitVec 32) (calls : List ModemResult) {out : List Output} {more : Nat}
    (reported : (out.countP fun | .result .ring => true | _ => false) =
      w.ringReports + if m.isQuiet then 0 else more) :
    Ringing m
      (setRings
        { w with
          ringCount := 0, ringFirst := first, ringLast := last, out := out, reports := calls }
        (UInt8.ofNat row')) row' (reports + more) := by
  rcases ringing.same with ⟨first₀, last₀, out₀, calls₀, wEq⟩
  constructor
  · refine ⟨first, last, out, calls, ?_⟩
    rw [wEq]
    simp only [setRings, Function.update_idem]
  · have before := ringing.reports
    unfold ringReports at before reported ⊢
    simp only [setRings]
    rw [reported, before, Nat.add_assoc]
    cases m.isQuiet <;> rfl

theorem check_rejected {first : BitVec 32} {rest : List (BitVec 32)} (device : Device)
    (counted : w.ringCount = rest.length + 1) (begun : w.ringFirst = first)
    (ended : w.ringLast = lastOf first rest) (spurious : genuine (first :: rest) = false) :
    w.modemRingCheck device = { w.setRings 0 with ringCount := 0 } := by
  unfold modemRingCheck
  rw [if_neg (by omega), if_pos]
  rw [counted, begun, ended]
  unfold genuine at spurious
  simp only [Bool.and_eq_false_iff, decide_eq_false_iff_not] at spurious
  rcases spurious with (soon | late) | few
  · left
    simpa using soon
  · right; left
    simpa using late
  · right; right
    omega

theorem ringReports_report (v : Modem) :
    ((v.out ++ v.printed .ring).countP fun | .result .ring => true | _ => false) =
      v.ringReports + if v.isQuiet then 0 else 1 := by
  rw [List.countP_append]
  unfold printed ringReports
  cases v.isQuiet <;> rfl

theorem check_accepted {first : BitVec 32} {rest : List (BitVec 32)} (device : Device)
    (counted : w.ringCount = rest.length + 1) (begun : w.ringFirst = first)
    (ended : w.ringLast = lastOf first rest) (valid : genuine (first :: rest) = true)
    (stopped : w.started = false) :
    ∃ out calls, (out.countP fun | .result .ring => true | _ => false) =
        w.ringReports + (if w.isQuiet then 0 else 1) ∧
      let v := setRings { w with ringCount := 0, out := out, reports := calls }
        (w.sregs sregRingCounter + 1)
      w.modemRingCheck device =
        if v.ringsEnough then ((v.setRings 0).modemAnswer device).1 else v := by
  have accepted : ¬ (timeBefore w.ringLast (w.ringFirst + BitVec.ofNat 32 ringOnMin) = true ∨
      (!timeBefore w.ringLast (w.ringFirst + BitVec.ofNat 32 ringOnMax)) = true ∨
      w.ringCount < ringCountMin) := by
    rw [counted, begun, ended]
    unfold genuine at valid
    simp only [Bool.and_eq_true, Bool.not_eq_true', decide_eq_true_eq] at valid
    rcases valid with ⟨⟨late, early⟩, many⟩
    rintro (soon | far | few)
    · rw [late] at soon
      cases soon
    · rw [early] at far
      cases far
    · omega
  have some : w.ringCount ≠ 0 := by omega
  unfold modemRingCheck
  rw [if_neg some, if_neg accepted]
  simp only
  have free : ∀ v : Modem, ((!w.started || w.rdObj) && v.ringsEnough) = v.ringsEnough := by
    intro v
    rw [stopped]
    rfl
  have quiet := isQuiet_setRings w (w.sregs sregRingCounter + 1)
  by_cases one : (setRings { w with ringCount := 0 } (w.sregs sregRingCounter + 1)).sregs
      sregRingCounter = 1
  · rw [if_pos one, report_other _ (by decide)]
    generalize echoed : putEcho (setRings { w with ringCount := 0 } (w.sregs sregRingCounter + 1))
      (crlf (setRings { w with ringCount := 0 } (w.sregs sregRingCounter + 1))) = next
    have before : next.ringReports = w.ringReports := by
      rw [← echoed]
      simp [ringReports, putEcho, setRings]
    have same : next.isQuiet = w.isQuiet := by
      rw [← echoed]
      exact quiet
    refine ⟨next.out ++ next.printed .ring, next.reports ++ [.ring], ?_, ?_⟩
    · rw [ringReports_report, before, same]
    · rw [← free (setRings
        { w with
          ringCount := 0
          out := next.out ++ next.printed .ring
          reports := next.reports ++ [.ring] } (w.sregs sregRingCounter + 1)), ← echoed]
      rfl
  · rw [if_neg one, report_other _ (by decide)]
    generalize counted : setRings { w with ringCount := 0 } (w.sregs sregRingCounter + 1) = next
    have before : next.ringReports = w.ringReports := by
      rw [← counted]
      rfl
    have same : next.isQuiet = w.isQuiet := by
      rw [← counted]
      exact quiet
    refine ⟨next.out ++ next.printed .ring, next.reports ++ [.ring], ?_, ?_⟩
    · rw [ringReports_report, before, same]
    · rw [← free (setRings
        { w with
          ringCount := 0
          out := next.out ++ next.printed .ring
          reports := next.reports ++ [.ring] } (w.sregs sregRingCounter + 1)), ← counted]
      rfl

theorem ringing_interval (ready : m.OnHook) (ringing : Ringing m w row reports)
    (interval : RingInterval) :
    ∃ v, Ringing m v (if genuine (burst w.ringLast interval.pulses) then row + 1 else 0)
        (reports + if genuine (burst w.ringLast interval.pulses) then 1 else 0) ∧
      v.ringLast = lastOf w.ringLast interval.pulses ∧
      w.ringInterval interval =
        if v.ringsEnough then ((v.setRings 0).modemAnswer interval.device).1 else v := by
  rcases ringing.same with ⟨first₀, last₀, out₀, calls₀, wEq⟩
  have idle : w.state = .modemIdle := by
    rw [wEq]
    exact ready.idle
  have stopped : w.started = false := by
    rw [wEq]
    exact ready.stopped
  have anonymous : w.cidRequested = false := by
    rw [wEq]
    exact ready.anonymous
  have counted : w.ringCount = 0 := by rw [wEq]
  have rings : w.sregs sregRingCounter = UInt8.ofNat row := by
    rw [wEq]
    exact setRings_counter m _
  rw [ringInterval, pulses_state interval.device idle anonymous counted interval.pulses]
  cases begins : burst w.ringLast interval.pulses with
  | nil =>
      have ended := ringing_setRings ringing 0 w.ringFirst
        (lastOf w.ringLast interval.pulses) w.reports (by rw [ite_self]; rfl)
      refine ⟨_, ended, rfl, ?_⟩
      rw [if_neg (by exact ringsEnough_zero _)]
      unfold modemRingCheck
      simp only [counted, if_true]
      rfl
  | cons first rest =>
      have last := burst_last begins
      cases valid : genuine (first :: rest) with
      | false =>
          have ended := ringing_setRings ringing 0 first
            (lastOf w.ringLast interval.pulses) w.reports (by rw [ite_self]; rfl)
          refine ⟨_, ended, rfl, ?_⟩
          rw [if_neg (by exact ringsEnough_zero _)]
          exact check_rejected interval.device rfl rfl last valid
      | true =>
          rcases check_accepted
            (w := { w with
              ringCount := rest.length + 1
              ringFirst := first
              ringLast := lastOf w.ringLast interval.pulses })
            interval.device rfl rfl last valid stopped with ⟨out, calls, reported, checked⟩
          have quiet : w.isQuiet = m.isQuiet := ringing.quiet
          have longer := ringing_setRings ringing (row + 1) first
            (lastOf w.ringLast interval.pulses) calls (reported.trans (by rw [← quiet]; rfl))
          refine ⟨_, longer, rfl, ?_⟩
          rw [UInt8.ofNat_add, ← rings]
          exact checked

/-! ### Runs -/

theorem row_small (notYet : ¬ m.RowAnswers row) (answer : Bool) :
    m.answerAfter ≠ 0 → (if answer then row + 1 else 0) < 256 := by
  intro some
  have most := answerAfter_small m
  have short : row < m.answerAfter := Nat.lt_of_not_le fun enough => notYet ⟨some, enough⟩
  split
  · omega
  · omega

theorem ringing_run (ready : m.OnHook) (ringing : Ringing m w row reports)
    (intervals : List RingInterval) (interval : RingInterval)
    (patient : ∀ before, before <+: intervals → ¬ m.RowAnswers (rowFrom w.ringLast row before)) :
    ∃ v, Ringing m v (rowFrom w.ringLast row (intervals ++ [interval]))
        (reports + genuines w.ringLast (intervals ++ [interval])) ∧
      w.run ((intervals ++ [interval]).flatMap RingInterval.events) =
        if m.RowAnswers (rowFrom w.ringLast row (intervals ++ [interval])) then
          ((v.setRings 0).modemAnswer interval.device).1
        else v := by
  induction intervals generalizing w row reports with
  | nil =>
      rcases ringing_interval ready ringing interval with ⟨v, ringing', last, step⟩
      refine ⟨v, ringing', ?_⟩
      rw [List.nil_append, List.flatMap_cons, run_interval, step]
      have enough := ringsEnough_iff ringing' (row_small (patient [] List.nil_prefix) _)
      simp only [enough]
      rfl
  | cons i rest ih =>
      rcases ringing_interval ready ringing i with ⟨v, ringing', last, step⟩
      have later : ∀ before, before <+: rest →
          ¬ m.RowAnswers (rowFrom v.ringLast
            (if genuine (burst w.ringLast i.pulses) then row + 1 else 0) before) := by
        intro before within
        rw [last]
        exact patient (i :: before) (List.cons_prefix_cons.mpr ⟨rfl, within⟩)
      have waits : w.ringInterval i = v := by
        rw [step, if_neg]
        intro enough
        exact later [] List.nil_prefix
          ((ringsEnough_iff ringing' (row_small (patient [] List.nil_prefix) _)).mp enough)
      rcases ih ringing' later with ⟨v', ringingRun, run⟩
      refine ⟨v', ?_, ?_⟩
      · rw [last] at ringingRun
        rw [List.cons_append, rowFrom, genuines, ← Nat.add_assoc]
        exact ringingRun
      · rw [last] at run
        rw [List.cons_append, rowFrom, ← run, List.flatMap_cons, run_interval, waits]

theorem ringing_start (ready : m.OnHook) (none : m.sregs sregRingCounter = 0) :
    Ringing m m 0 0 := by
  constructor
  · refine ⟨m.ringFirst, m.ringLast, m.out, m.reports, ?_⟩
    have same : Function.update m.sregs sregRingCounter (UInt8.ofNat 0) = m.sregs := by
      rw [← show m.sregs sregRingCounter = UInt8.ofNat 0 from none]
      exact Function.update_eq_self _ _
    rw [same, ← ready.counted]
  · rw [ite_self]
    rfl

end Check

/-- Every genuine burst is reported, unless the modem is quiet, and nothing else changes; the
call is answered with the burst that makes the row of genuine bursts long enough, and not
before.  A burst that is not genuine, or a check without one, begins a new row. -/
theorem auto_answer_exact (m : Modem) (ready : m.OnHook) (none : m.sregs sregRingCounter = 0)
    (intervals : List RingInterval) (interval : RingInterval)
    (patient : ∀ before, before <+: intervals → ¬ m.RowAnswers (rowFrom m.ringLast 0 before)) :
    ∃ v, Ringing m v (rowFrom m.ringLast 0 (intervals ++ [interval]))
        (genuines m.ringLast (intervals ++ [interval])) ∧
      m.run ((intervals ++ [interval]).flatMap RingInterval.events) =
        if m.RowAnswers (rowFrom m.ringLast 0 (intervals ++ [interval])) then
          ((v.setRings 0).modemAnswer interval.device).1
        else v := by
  rcases ringing_run ready (ringing_start ready none) intervals interval patient with
    ⟨v, ringing, run⟩
  rw [Nat.zero_add] at ringing
  exact ⟨v, ringing, run⟩

def answersSecond : Modem :=
  { modemCreate with sregs := Function.update modemCreate.sregs sregRingsToAutoAnswer 2 }

/-- Twelve pulses at 25 Hz from the time `start` on. -/
def ringAt (start : Nat) : RingInterval :=
  { pulses := (List.range 12).map fun i => BitVec.ofNat 32 (start + 4 * i)
    device := obedient }

def threeRings : List RingInterval :=
  [ringAt 1000, { pulses := [1600, 1604], device := obedient }, ringAt 2200]

theorem auto_answer_exact_second :
    ∃ v, Ringing answersSecond v 2 3 ∧
      answersSecond.run ((threeRings ++ [ringAt 2800]).flatMap RingInterval.events) =
        ((v.setRings 0).modemAnswer obedient).1 := by
  have every : ∀ before ∈ threeRings.inits,
      ¬ answersSecond.RowAnswers (rowFrom answersSecond.ringLast 0 before) := by
    decide +kernel
  have ready : answersSecond.OnHook :=
    { idle := rfl, stopped := rfl, anonymous := rfl, counted := rfl }
  have none : answersSecond.sregs sregRingCounter = 0 := by decide +kernel
  have row : rowFrom answersSecond.ringLast 0 (threeRings ++ [ringAt 2800]) = 2 := by
    decide +kernel
  have reports : genuines answersSecond.ringLast (threeRings ++ [ringAt 2800]) = 3 := by
    decide +kernel
  have enough : answersSecond.RowAnswers 2 := by decide +kernel
  rcases auto_answer_exact answersSecond ready none threeRings (ringAt 2800)
    (fun before within => every before ((List.mem_inits before threeRings).mpr within)) with
    ⟨v, ringing, run⟩
  rw [row, reports] at ringing
  rw [row, if_pos enough] at run
  exact ⟨v, ringing, run⟩

end Modem

end DModem
