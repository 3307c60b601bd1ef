/-
The limit of retransmissions.

`t401_timeout` compares the count with `LAPM_MAX_RTX` before it adds to it, and only a count
above the limit ends the retransmissions.  A command is sent once more than the limit says; an
endpoint that negotiates parameters in the idle phase then stops without a report.
-/

import DModem.Modem.Window
import DModem.Modem.Control

namespace DModem

namespace Modem

/-! ### Runs without a frame from the peer -/

def LapmEvent.Silent : LapmEvent → Prop
  | .fetch _ | .prefetch _ | .push _ | .timeout => True
  | _ => False

def LapmEvent.isTimeout : LapmEvent → Bool
  | .timeout => true
  | _ => false

def timeouts (events : List LapmEvent) : Nat := events.countP LapmEvent.isTimeout

/-- What `T401_START` leaves. -/
structure T401Started (m : Modem) : Prop where
  count : m.lapm.rtxCount = 0
  timer : m.bitTimer = t401TimeoutBits
  func : m.bitTimerFunc = some .t401Timeout

/-- The next expiry sends the command again. -/
def Retransmits (m : Modem) : Prop :=
  m.lapmStep .timeout =
    { t401Resend
        { m with bitTimer := 0, lapm := { m.lapm with rtxCount := m.lapm.rtxCount + 1 } } with
      bitTimer := t401TimeoutBits
      bitTimerFunc := some .t401Timeout }

/-- The retransmissions are over. -/
def exhausted (m : Modem) : Modem :=
  { m with bitTimer := 0, lapm := { m.lapm with rtxCount := 0 } }

/-- The next expiry reports `STATUS_EC_RELEASE` or begins to disconnect. -/
def GivesUp (m : Modem) : Prop :=
  m.lapmStep .timeout = (m.exhausted.setPhase .idle).modemUpdateStatus .ecRelease ∨
    m.lapmStep .timeout = m.exhausted.lapmDisconnect

/-- Without a frame from the peer the endpoint gives up after `n` retransmissions. -/
def GivesUpAfter (n : Nat) (m : Modem) : Prop :=
  ∀ events, (∀ event ∈ events, LapmEvent.Silent event) → timeouts events = n →
    (m.lapmRun events).GivesUp

/-! ### One step -/

/-- What a silent step other than an expiry leaves alone. -/
structure Waits (m m' : Modem) : Prop where
  phase : m'.lapm.state = m.lapm.state
  count : m'.lapm.rtxCount = m.lapm.rtxCount
  timer : m'.bitTimer = m.bitTimer

section Step

variable {m m' : Modem}

theorem waits_of_moves (moves : Moves m m') : Waits m m' := by
  obtain ⟨state, list, errors, clock, -, -⟩ := moves
  exact
    { phase := congrArg Clock.phase clock
      count := congrArg Clock.rtxCount clock
      timer := congrArg Clock.bitTimer clock }

theorem waits_sendInfo (m : Modem) (running : m.bitTimer ≠ 0) : Waits m m.sendInfo.1 := by
  unfold sendInfo
  simp only
  rw [if_neg running]
  exact { phase := rfl, count := rfl, timer := rfl }

theorem waits_getTxFrame (m : Modem) (chars : Chars) (running : m.bitTimer ≠ 0) :
    Waits m (m.lapmGetTxFrame chars).1 := by
  have same : Waits m m := { phase := rfl, count := rfl, timer := rfl }
  unfold lapmGetTxFrame
  simp only
  split
  · exact { phase := rfl, count := rfl, timer := rfl }
  · split
    · exact same
    · have filled : Waits m (if m.lapm.txInfo = m.lapm.infoList then m.txInfo chars
          else (m, true)).1 := by
        split
        · exact waits_of_moves (moves_txInfo m chars)
        · exact same
      generalize (if m.lapm.txInfo = m.lapm.infoList then m.txInfo chars else (m, true)) = sent
        at filled
      split
      · have sends := waits_sendInfo sent.1 (by rw [filled.timer]; exact running)
        exact
          { phase := sends.phase.trans filled.phase
            count := sends.count.trans filled.count
            timer := sends.timer.trans filled.timer }
      · exact filled

theorem waits_silent {event : LapmEvent} (silent : event.Silent) (other : event ≠ .timeout)
    (running : m.bitTimer ≠ 0) : Waits m (m.lapmStep event) := by
  cases event with
  | fetch chars => exact waits_getTxFrame m chars running
  | prefetch chars => exact waits_of_moves (moves_txInfo m chars)
  | push chars => exact waits_of_moves (moves_pushRestData m chars)
  | timeout => exact absurd rfl other
  | frame | connect | config | disconnect | stop | setState => exact silent.elim

theorem retransmits_of_count (few : m.lapm.rtxCount ≤ lapmMaxRtx) : m.Retransmits := by
  unfold Retransmits lapmStep t401Timeout
  rw [if_neg (Nat.not_lt.mpr few)]

theorem clock_retransmitted (few : m.lapm.rtxCount ≤ lapmMaxRtx) :
    (m.lapmStep .timeout).clock =
      { m.clock with
        rtxCount := m.lapm.rtxCount + 1
        bitTimer := t401TimeoutBits
        bitTimerFunc := some .t401Timeout } := by
  rw [retransmits_of_count few]
  have resent := clock_t401Resend
    { m with bitTimer := 0, lapm := { m.lapm with rtxCount := m.lapm.rtxCount + 1 } }
  generalize t401Resend
    { m with bitTimer := 0, lapm := { m.lapm with rtxCount := m.lapm.rtxCount + 1 } } = resend
    at resent
  have clock : ({ resend with
      bitTimer := t401TimeoutBits
      bitTimerFunc := some .t401Timeout } : Modem).clock =
      { resend.clock with bitTimer := t401TimeoutBits, bitTimerFunc := some .t401Timeout } := rfl
  rw [clock, resent]
  rfl

theorem givesUp_count (gives : m.GivesUp) : (m.lapmStep .timeout).lapm.rtxCount = 0 := by
  rcases gives with released | disconnecting
  · rw [released]
    exact congrArg Clock.rtxCount (clock_release (m.exhausted.setPhase .idle))
  · rw [disconnecting]
    exact congrArg Clock.rtxCount (clock_lapmDisconnect m.exhausted)

theorem not_givesUp_of_count (few : m.lapm.rtxCount ≤ lapmMaxRtx) : ¬ m.GivesUp := by
  intro gives
  have zero := givesUp_count gives
  have count : (m.lapmStep .timeout).lapm.rtxCount = m.lapm.rtxCount + 1 :=
    congrArg Clock.rtxCount (clock_retransmitted few)
  omega

theorem exhausted_step (many : lapmMaxRtx < m.lapm.rtxCount) :
    (m.lapm.state ≠ .idle → m.GivesUp) ∧
      (m.lapm.state = .idle → m.lapmStep .timeout = m.exhausted) := by
  have step : m.lapmStep .timeout = t401Exhausted { m with bitTimer := 0 } := if_pos many
  unfold GivesUp
  rw [step]
  unfold t401Exhausted exhausted
  cases phase : m.lapm.state with
  | idle =>
      simp only [phase]
      exact ⟨fun other => absurd rfl other, fun _ => trivial⟩
  | data =>
      simp only [phase]
      exact ⟨fun _ => Or.inr trivial, fun idle => by cases idle⟩
  | estab | disc =>
      simp only [phase]
      exact ⟨fun _ => Or.inl trivial, fun idle => by cases idle⟩

end Step

/-! ### Runs -/

theorem silent_run {m : Modem} {events : List LapmEvent} {count : Nat}
    (silent : ∀ event ∈ events, LapmEvent.Silent event) (start : m.lapm.rtxCount = count)
    (running : m.bitTimer ≠ 0) (few : count + timeouts events ≤ lapmMaxRtx + 1) :
    (m.lapmRun events).lapm.state = m.lapm.state ∧
      (m.lapmRun events).lapm.rtxCount = count + timeouts events := by
  induction events generalizing m count with
  | nil => exact ⟨rfl, start⟩
  | cons event events ih =>
      obtain ⟨now, later⟩ := List.forall_mem_cons.mp silent
      by_cases expiry : event = .timeout
      · subst expiry
        have more : timeouts (.timeout :: events) = timeouts events + 1 := List.countP_cons_of_pos rfl
        rw [more] at few ⊢
        have clock := clock_retransmitted (m := m) (by omega)
        have phase : (m.lapmStep .timeout).lapm.state = m.lapm.state := congrArg Clock.phase clock
        have counted : (m.lapmStep .timeout).lapm.rtxCount = count + 1 := by
          rw [← start]
          exact congrArg Clock.rtxCount clock
        have timer : (m.lapmStep .timeout).bitTimer ≠ 0 := by
          have set : (m.lapmStep .timeout).bitTimer = t401TimeoutBits :=
            congrArg Clock.bitTimer clock
          rw [set]
          decide
        obtain ⟨phases, counts⟩ := ih later counted timer (by omega)
        exact ⟨phases.trans phase, counts.trans (by omega)⟩
      · have same : timeouts (event :: events) = timeouts events := by
          apply List.countP_cons_of_neg
          cases event with
          | timeout => exact absurd rfl expiry
          | frame | fetch | prefetch | push | connect | config | disconnect | stop | setState =>
              exact Bool.false_ne_true
        rw [same] at few ⊢
        have waits := waits_silent now expiry running
        obtain ⟨phases, counts⟩ := ih later (waits.count.trans start)
          (by rw [waits.timer]; exact running) few
        exact ⟨phases.trans waits.phase, counts⟩

theorem started_run {m : Modem} (started : m.T401Started) {events : List LapmEvent}
    (silent : ∀ event ∈ events, LapmEvent.Silent event)
    (few : timeouts events ≤ lapmMaxRtx + 1) :
    (m.lapmRun events).lapm.state = m.lapm.state ∧
      (m.lapmRun events).lapm.rtxCount = timeouts events := by
  have running : m.bitTimer ≠ 0 := by
    rw [started.timer]
    decide
  have run := silent_run silent started.count running (by rw [Nat.zero_add]; exact few)
  rw [Nat.zero_add] at run
  exact run

theorem not_givesUpAfter {m : Modem} (started : m.T401Started) {n : Nat} (few : n ≤ lapmMaxRtx) :
    ¬ m.GivesUpAfter n := by
  intro gives
  have silent : ∀ event ∈ List.replicate n LapmEvent.timeout, LapmEvent.Silent event := by
    intro event member
    rw [List.eq_of_mem_replicate member]
    trivial
  have count : timeouts (List.replicate n .timeout) = n := by
    simp [timeouts, List.countP_replicate, LapmEvent.isTimeout]
  obtain ⟨-, counted⟩ := started_run started silent (by omega)
  exact not_givesUp_of_count (by omega) (gives _ silent count)

/-- The limit is never kept: the endpoint sends its command once more, and only then gives up,
without a sign of it in the idle phase. -/
theorem t401_exceeds_limit {m : Modem} (started : m.T401Started) :
    (¬ ∃ n ≤ lapmMaxRtx, m.GivesUpAfter n) ∧
    (∀ events, (∀ event ∈ events, LapmEvent.Silent event) → timeouts events ≤ lapmMaxRtx →
      (m.lapmRun events).Retransmits) ∧
    (m.lapm.state ≠ .idle → m.GivesUpAfter (lapmMaxRtx + 1)) ∧
    (m.lapm.state = .idle → ∀ events, (∀ event ∈ events, LapmEvent.Silent event) →
      timeouts events = lapmMaxRtx + 1 →
        (m.lapmRun events).lapmStep .timeout = (m.lapmRun events).exhausted) := by
  refine ⟨?_, ?_, ?_, ?_⟩
  · rintro ⟨n, few, gives⟩
    exact not_givesUpAfter started few gives
  · intro events silent few
    obtain ⟨-, count⟩ := started_run started silent (by omega)
    exact retransmits_of_count (by omega)
  · intro active events silent whole
    obtain ⟨phase, count⟩ := started_run started silent (by omega)
    exact (exhausted_step (by omega)).1 (by rw [phase]; exact active)
  · intro idle events silent whole
    obtain ⟨phase, count⟩ := started_run started silent (by omega)
    exact (exhausted_step (by omega)).2 (by rw [phase]; exact idle)

def connecting : Modem := modemCreate.lapmInit.lapmConnect

theorem started_connecting : connecting.T401Started := { count := rfl, timer := rfl, func := rfl }

theorem t401_exceeds_limit_connecting :
    connecting.GivesUpAfter (lapmMaxRtx + 1) ∧ ¬ ∃ n ≤ lapmMaxRtx, connecting.GivesUpAfter n :=
  ⟨(t401_exceeds_limit started_connecting).2.2.1 (by decide +kernel),
    (t401_exceeds_limit started_connecting).1⟩

/-- The sixth expiry sends the SABME a sixth time. -/
theorem t401_sixth_sabme :
    (¬ ∃ n ≤ lapmMaxRtx, connecting.GivesUpAfter n) ∧
      (connecting.lapmRun (List.replicate 5 .timeout)).Retransmits ∧
      (connecting.lapmRun (List.replicate 6 .timeout)).lapm.rtxCount = 6 := by
  have silent : ∀ event ∈ List.replicate 5 LapmEvent.timeout, LapmEvent.Silent event := by
    intro event member
    rw [List.eq_of_mem_replicate member]
    trivial
  refine ⟨?_, ?_, by decide +kernel⟩
  · rintro ⟨n, few, gives⟩
    exact not_givesUpAfter started_connecting few gives
  · obtain ⟨-, count⟩ := started_run started_connecting silent (by decide)
    exact retransmits_of_count (by rw [count]; decide)

end Modem

end DModem
