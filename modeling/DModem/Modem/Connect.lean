/-
When a link is reported.

LAPM reports `STATUS_EC_LINK` for four kinds of frames.  The modem goes online each time, in
whatever state it is, and writes CONNECT unless it is quiet.
-/

import DModem.Modem.Outer
import DModem.Modem.Rest

namespace DModem

namespace Modem

/-- The phase of LAPM in which the frame `f` makes it report a link. -/
def reportsLink (m : Modem) (f : Hdlc.Frame) : Option LapmPhase :=
  if Frame.type f = frameI ∨ Frame.type f = frameS then
    if m.lapm.state = .estab then some .data else none
  else if Frame.type f = frameU then
    if Frame.addr f = m.lapm.rspAddr then
      if Frame.ctrl f &&& 0xef = frameUSabme then some .data else none
    else if Frame.ctrl f &&& 0xef = frameUDm then
      if m.lapm.state = .idle ∧ Frame.uPf f = 0 then some .idle else none
    else if Frame.ctrl f &&& 0xef = frameUUa then
      if m.lapm.state = .estab then some .data else none
    else none
  else none

def outerAfter (m : Modem) : Option LapmPhase → Outer
  | none => m.outer
  | some phase => m.outer.linked (m.state, phase)

section Reports

variable (m : Modem) (f : Hdlc.Frame)

theorem outer_validDataState :
    m.validDataState.1.outer =
      m.outerAfter (if m.lapm.state = .estab then some .data else none) := by
  unfold validDataState
  cases phase : m.lapm.state with
  | estab =>
      simp only [if_true, outerAfter, outer_link, outer_setPhase, outer_reset]
      rfl
  | data | idle => rfl
  | disc => simp [outerAfter]

theorem outer_rxUnnumCmd :
    (m.rxUnnumCmd f).outer =
      m.outerAfter (if Frame.ctrl f &&& 0xef = frameUSabme then some .data else none) := by
  unfold rxUnnumCmd
  split
  · have before : (((m.reset.setPhase .data).txUa (Frame.uPf f)).timerStop).clock =
        (m.reset.setPhase .data).clock.stop := congrArg Clock.stop (clock_putCtrl _ _)
    have outer : (((m.reset.setPhase .data).txUa (Frame.uPf f)).timerStop).outer = m.outer := by
      simp [txUa, txUnnum]
    unfold rxSabme
    generalize ((m.reset.setPhase .data).txUa (Frame.uPf f)).timerStop = stopped at before outer
    have state : stopped.state = m.state := congrArg Clock.state before
    have phase : stopped.lapm.state = .data := congrArg Clock.phase before
    rw [outer_link, outer, state, phase]
    rfl
  · split
    · unfold rxDisc
      split
      · exact outer_putCtrl m _
      · simp [txUa, txUnnum, outerAfter]
    · split
      · exact (outer_putCtrl _ _).trans (outer_rxXid m f)
      · rfl

theorem outer_rxDm :
    (m.rxDm f).outer =
      m.outerAfter (if m.lapm.state = .idle ∧ Frame.uPf f = 0 then some .idle else none) := by
  unfold rxDm
  cases phase : m.lapm.state with
  | estab | disc | data =>
      simp only [reduceCtorEq, false_and, if_false, outerAfter]
      split <;> simp
  | idle =>
      simp only [true_and]
      split
      · rw [outer_link, phase]
        rfl
      · rfl

theorem outer_rxUa :
    m.rxUa.outer = m.outerAfter (if m.lapm.state = .estab then some .data else none) := by
  unfold rxUa
  cases phase : m.lapm.state with
  | estab =>
      simp only [if_true, outerAfter, outer_link, outer_timerStop, outer_reset, outer_setPhase]
      rfl
  | disc => simp [outerAfter]
  | data | idle => rfl

theorem outer_rxComplete (chars : Chars) :
    (m.lapmRxComplete f chars).outer = m.outerAfter (m.reportsLink f) := by
  have valid := outer_validDataState m
  unfold lapmRxComplete reportsLink
  generalize m.validDataState = state at valid
  by_cases info : Frame.type f = frameI
  · rw [if_pos info, if_pos (Or.inl info)]
    simp only
    split
    · exact (outer_rxInfo _ f chars).trans valid
    · exact valid
  · rw [if_neg info]
    by_cases super : Frame.type f = frameS
    · rw [if_pos super, if_pos (Or.inr super)]
      simp only
      split
      · split
        · exact (outer_rxSuperCmd _ f chars).trans valid
        · exact (outer_rxSuperRsp _ f).trans valid
      · exact valid
    · have neither : ¬ (Frame.type f = frameI ∨ Frame.type f = frameS) := fun either =>
        either.elim info super
      rw [if_neg super, if_neg neither]
      split
      · split
        · exact outer_rxUnnumCmd m f
        · unfold rxUnnumRsp
          split
          · exact outer_rxDm m f
          · split
            · exact outer_rxUa m
            · split
              · exact outer_rxXidRsp m f
              · rfl
      · rfl

end Reports

/-! ### Runs -/

/-- A report in these states shows a link that comes up: CONNECT is written for nothing else,
command mode is not left, and the modem only goes online in `LAPM_DATA`. -/
def LinkShown (quiet : Bool) (entry : ModemState × LapmPhase) : Prop :=
  (quiet = false → entry = (.ecEstab, .data)) ∧ entry.1 ≠ .commandOnline ∧
    (entry.1 ≠ .modemOnline → entry.2 = .data)

/-- A frame for which a link is reported although none comes up.  What a quiet modem reports
is only seen in its state. -/
def FalseLink (m : Modem) (f : Hdlc.Frame) : Prop :=
  ((if m.isQuiet then m.state = .commandOnline else m.state ≠ .ecEstab) ∧
    (IsCommand m.lapm f frameUSabme ∨
      (m.lapm.state = .estab ∧ (IsLinkFrame f ∨ IsResponse m.lapm f frameUUa)))) ∨
  ((m.isQuiet = true → m.state ≠ .modemOnline) ∧
    m.lapm.state = .idle ∧ IsResponse m.lapm f frameUDm ∧ Frame.uPf f = 0)

/-- No frame of the run is of this kind. -/
def Expected (m : Modem) : List LapmEvent → Prop
  | [] => True
  | .frame f chars :: later => ¬ m.FalseLink f ∧ (m.lapmRxComplete f chars).Expected later
  | event :: later => (m.lapmStep event).Expected later

theorem linkShown_data (quiet : Bool) (state : ModemState) :
    LinkShown quiet (state, .data) ↔
      if quiet then state ≠ .commandOnline else state = .ecEstab := by
  unfold LinkShown
  cases quiet with
  | true => simp
  | false =>
      simp only [Prod.mk.injEq, and_true, forall_const, implies_true, if_neg Bool.false_ne_true]
      constructor
      · exact fun shown => shown.1
      · rintro rfl
        exact ⟨rfl, by decide⟩

theorem linkShown_idle (quiet : Bool) (state : ModemState) :
    LinkShown quiet (state, .idle) ↔ quiet = true ∧ state = .modemOnline := by
  unfold LinkShown
  cases quiet with
  | true =>
      constructor
      · intro shown
        refine ⟨rfl, ?_⟩
        by_contra offline
        cases shown.2.2 offline
      · rintro ⟨-, rfl⟩
        decide
  | false =>
      constructor
      · intro shown
        cases shown.1 rfl
      · intro quiet
        cases quiet.1

theorem not_falseLink_iff (m : Modem) (f : Hdlc.Frame) :
    ¬ m.FalseLink f ↔
      ∀ phase, m.reportsLink f = some phase → LinkShown m.isQuiet (m.state, phase) := by
  have disjoint : Frame.type f = frameI ∨ Frame.type f = frameS → Frame.type f ≠ frameU := by
    rintro (info | super) unnum
    · exact absurd (info.symm.trans unnum) (by decide)
    · exact absurd (super.symm.trans unnum) (by decide)
  have dmUa : frameUDm ≠ frameUUa := by decide
  unfold FalseLink reportsLink IsCommand IsResponse IsLinkFrame
  cases quiet : m.isQuiet with
  | true => split_ifs <;> simp_all [linkShown_data, linkShown_idle]
  | false => split_ifs <;> simp_all [linkShown_data, linkShown_idle]

/-- The reports between two states of a run, each with its CONNECT unless the modem is quiet;
they all show a link that comes up exactly if `fine`. -/
structure Reports (m m' : Modem) (fine : Prop) (new : List (ModemState × LapmPhase)) : Prop where
  quiet : m'.isQuiet = m.isQuiet
  links : m'.links = m.links ++ new
  written : m'.connectsWritten = m.connectsWritten + if m.isQuiet then 0 else new.length
  shown : (∀ entry ∈ new, LinkShown m.isQuiet entry) ↔ fine

theorem isQuiet_of_outer {m m' : Modem} (same : m'.outer.sregs = m.outer.sregs) :
    m'.isQuiet = m.isQuiet :=
  congrArg (fun sregs : Nat → UInt8 => sregs sregQuiet != 0) same

theorem reports_none {m m' : Modem} (same : m'.outer = m.outer) : Reports m m' True [] := by
  constructor
  · exact isQuiet_of_outer (congrArg Outer.sregs same)
  · rw [List.append_nil]
    exact congrArg Outer.links same
  · rw [List.length_nil, ite_self]
    exact congrArg Outer.written same
  · simp

theorem reports_one {m m' : Modem} {phase : LapmPhase}
    (same : m'.outer = m.outer.linked (m.state, phase)) :
    Reports m m' (LinkShown m.isQuiet (m.state, phase)) [(m.state, phase)] := by
  constructor
  · have sregs : m'.outer.sregs = (m.outer.linked (m.state, phase)).sregs :=
      congrArg Outer.sregs same
    exact isQuiet_of_outer sregs
  · exact congrArg Outer.links same
  · have counted : m'.connectsWritten = m.connectsWritten + if m.sregs sregQuiet = 0 then 1 else 0 :=
      congrArg Outer.written same
    rw [counted]
    by_cases quiet : m.sregs sregQuiet = 0
    · simp [isQuiet, quiet]
    · simp [isQuiet, quiet]
  · simp

theorem Reports.trans {m m₁ m' : Modem} {fine fine' : Prop}
    {new new' : List (ModemState × LapmPhase)} (first : Reports m m₁ fine new)
    (second : Reports m₁ m' fine' new') : Reports m m' (fine ∧ fine') (new ++ new') := by
  constructor
  · exact second.quiet.trans first.quiet
  · rw [second.links, first.links, List.append_assoc]
  · rw [second.written, first.written, first.quiet, List.length_append, Nat.add_assoc]
    split <;> rfl
  · rw [← first.shown, ← second.shown, first.quiet]
    simp only [List.mem_append, or_imp, forall_and]

theorem Reports.congr {m m' : Modem} {fine fine' : Prop} {new : List (ModemState × LapmPhase)}
    (reports : Reports m m' fine new) (same : fine ↔ fine') : Reports m m' fine' new :=
  { reports with shown := reports.shown.trans same }

theorem reports_rxComplete (m : Modem) (f : Hdlc.Frame) (chars : Chars) :
    ∃ new, Reports m (m.lapmRxComplete f chars) (¬ m.FalseLink f) new := by
  have after := outer_rxComplete m f chars
  have expected := not_falseLink_iff m f
  cases report : m.reportsLink f with
  | none =>
      rw [report] at after expected
      have fine : True ↔ ¬ m.FalseLink f := by
        rw [expected]
        simp
      exact ⟨_, (reports_none after).congr fine⟩
  | some phase =>
      rw [report] at after expected
      have fine : LinkShown m.isQuiet (m.state, phase) ↔ ¬ m.FalseLink f := by
        rw [expected]
        simp
      exact ⟨_, (reports_one after).congr fine⟩

theorem outer_lapmStep (m : Modem) (event : LapmEvent)
    (other : ∀ f chars, event ≠ .frame f chars) : (m.lapmStep event).outer = m.outer := by
  cases event with
  | frame f chars => exact absurd rfl (other f chars)
  | fetch chars => exact outer_getTxFrame m chars
  | prefetch chars => exact outer_txInfo m chars
  | push chars => exact outer_pushRestData m chars
  | timeout => exact outer_t401Timeout { m with bitTimer := 0 }
  | connect => exact outer_lapmConnect m
  | config => exact outer_lapmConfig m
  | disconnect => exact outer_lapmDisconnect m
  | stop => exact outer_ecStop m
  | setState newState => exact outer_setState m newState

theorem reports_lapmRun (m : Modem) (events : List LapmEvent) :
    ∃ new, Reports m (m.lapmRun events) (m.Expected events) new := by
  induction events generalizing m with
  | nil => exact ⟨_, reports_none rfl⟩
  | cons event later ih =>
      rcases ih (m.lapmStep event) with ⟨new', rest⟩
      have silent := outer_lapmStep m event
      cases event with
      | frame f chars =>
          rcases reports_rxComplete m f chars with ⟨new, first⟩
          exact ⟨_, first.trans rest⟩
      | fetch | prefetch | push | timeout | connect | config | disconnect | stop | setState =>
          have both := (reports_none (silent (by simp))).trans rest
          exact ⟨_, both.congr (Iff.of_eq (true_and _))⟩

/-- In every run with error correction, the reports of a link are all that is written as
CONNECT, and each shows a link that comes up, from `EC_ESTAB` to `MODEM_ONLINE` in `LAPM_DATA`,
exactly if no frame is a false link. -/
theorem connect_iff_expected (m : Modem) (events : List LapmEvent) :
    let s := m.modemSetupConfig.lapmInit.lapmRun events
    let reported := s.links.drop m.links.length
    s.connectsWritten = m.connectsWritten + (if m.isQuiet then 0 else reported.length) ∧
      ((∀ entry ∈ reported, LinkShown m.isQuiet entry) ↔
        m.modemSetupConfig.lapmInit.Expected events) := by
  rcases reports_lapmRun m.modemSetupConfig.lapmInit events with ⟨new, reports⟩
  intro s reported
  have news : reported = new := by
    have whole : s.links = m.links ++ new := reports.links
    change s.links.drop m.links.length = new
    rw [whole, List.drop_left]
  rw [news]
  exact ⟨reports.written, reports.shown⟩

/-- A second SABME on an established link writes a second CONNECT. -/
theorem connect_twice_by_sabme :
    let s := answering.modemSetupConfig.lapmInit.lapmRun
      [.frame sabmeFrame noChars, .frame sabmeFrame noChars]
    s.connectsWritten = 2 ∧ s.links = [(.ecEstab, .data), (.modemOnline, .data)] ∧
      ¬ ∀ entry ∈ s.links, LinkShown answering.isQuiet entry := by
  refine ⟨by decide, by decide, ?_⟩
  intro shown
  have links : (answering.modemSetupConfig.lapmInit.lapmRun
      [.frame sabmeFrame noChars, .frame sabmeFrame noChars]).links =
        [(.ecEstab, .data), (.modemOnline, .data)] := by decide
  rw [links] at shown
  have again := (shown (.modemOnline, .data) (by simp)).1 (by decide)
  cases again

end Modem

end DModem
