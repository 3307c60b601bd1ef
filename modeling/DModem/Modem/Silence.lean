/-
A peer that falls silent.

T401 runs out seven times before LAPM gives up.  In the data phase it then disconnects, and
waits for the answer as long again; a hang-up of the terminal begins the disconnection anew.
Everything else that happens meanwhile leaves the timer alone.
-/

import DModem.Lib.Budget
import DModem.Modem.Waiting

namespace DModem

open Lib

namespace Clock

/-- The time between two expiries when the timer is looked at after blocks of up to `block`
bits. -/
def period (block : Nat) : Int := t401TimeoutBits + block

def allExpiries : Nat := lapmMaxRtx + 2

def patience (block : Nat) (c : Clock) : Int :=
  c.bitTimer + ((lapmMaxRtx + 1 - c.rtxCount : Nat) : Int) * period block +
    (if c.phase = .data then allExpiries * period block else 0) +
    (if c.state = .ecDisc then 0 else allExpiries * period block)

structure Awaits (c : Clock) : Prop where
  linked : c.state.linked = true
  active : c.phase ≠ .idle
  armed : c.Armed

structure Ended (c : Clock) : Prop where
  state : c.state = .dpDisc
  func : c.bitTimerFunc = some .t401Timeout

structure Rests (c c' : Clock) : Prop where
  phase : c'.phase = c.phase
  count : c'.rtxCount = c.rtxCount
  timer : c'.bitTimer = c.bitTimer
  func : c'.bitTimerFunc = c.bitTimerFunc
  state : c'.state = c.state ∨ c'.state = c.state.hungUp ∨
    (c.state = .modemOnline ∧ c'.state = .commandOnline) ∨
    (c.state = .commandOnline ∧ c'.state = .modemOnline)

section Patience

variable {c c' : Clock} {block : Nat}

theorem period_pos (block : Nat) : 0 < period block := by
  have timeout : (0 : Int) < t401TimeoutBits := by decide
  unfold period
  omega

theorem hungUp_of_linked {s : ModemState} (linked : s.linked = true) : s.hungUp = .dpDisc := by
  cases s with
  | modemIdle | dpEstab | dpDisc => cases linked
  | ecEstab | modemOnline | commandOnline | ecDisc => rfl

theorem periods_nonneg (n block : Nat) : 0 ≤ (n : Int) * period block :=
  Int.mul_nonneg (Int.natCast_nonneg n) (Int.le_of_lt (period_pos block))

theorem patience_nonneg (awaits : c.Awaits) : 0 ≤ c.patience block := by
  have timer := awaits.armed.1
  have resends := periods_nonneg (lapmMaxRtx + 1 - c.rtxCount) block
  have whole := periods_nonneg allExpiries block
  unfold patience
  split_ifs <;> omega

theorem patience_le (block : Nat) : c.patience block ≤ c.bitTimer + 20 * period block := by
  have positive := period_pos block
  have resends : ((lapmMaxRtx + 1 - c.rtxCount : Nat) : Int) * period block ≤ 6 * period block := by
    apply Int.mul_le_mul_of_nonneg_right _ (Int.le_of_lt positive)
    unfold lapmMaxRtx
    omega
  have whole : allExpiries = 7 := rfl
  unfold patience
  rw [whole]
  split_ifs <;> omega

theorem patience_start {d : Clock} (block : Nat) (armed : 0 < c.bitTimer)
    (small : d.bitTimer = t401TimeoutBits) (count : d.rtxCount = 0) :
    d.bitTimer + ((lapmMaxRtx + 1 - d.rtxCount : Nat) : Int) * period block + block ≤
      c.bitTimer + allExpiries * period block := by
  rw [small, count]
  unfold allExpiries period lapmMaxRtx
  push_cast
  ring_nf
  omega

theorem Rests.ended (rests : Rests c c') (ended : c.Ended) : c'.Ended := by
  constructor
  · have state := rests.state
    rw [ended.state] at state
    rcases state with same | hung | ⟨online, _⟩ | ⟨command, _⟩
    · exact same
    · exact hung
    · cases online
    · cases command
  · exact rests.func.trans ended.func

theorem Rests.awaits (rests : Rests c c') (block : Nat) (awaits : c.Awaits) :
    c'.Ended ∨ (c'.Awaits ∧ c'.patience block = c.patience block) := by
  have func : c'.bitTimerFunc = some .t401Timeout := rests.func.trans awaits.armed.2
  have armed : c'.Armed := by
    constructor
    · rw [rests.timer]
      exact awaits.armed.1
    · exact func
  have active : c'.phase ≠ .idle := by
    rw [rests.phase]
    exact awaits.active
  have spent (same : c'.state = .ecDisc ↔ c.state = .ecDisc) :
      c'.patience block = c.patience block := by
    simp only [patience, rests.timer, rests.count, rests.phase, same]
  rcases rests.state with same | hung | ⟨online, command⟩ | ⟨command, online⟩
  · right
    constructor
    · exact { linked := by rw [same, awaits.linked], active := active, armed := armed }
    · apply spent
      rw [same]
  · left
    exact { state := hung.trans (hungUp_of_linked awaits.linked), func := func }
  · right
    constructor
    · exact { linked := by rw [command]; rfl, active := active, armed := armed }
    · apply spent
      simp [online, command]
  · right
    constructor
    · exact { linked := by rw [online]; rfl, active := active, armed := armed }
    · apply spent
      simp [online, command]

end Patience

end Clock

namespace Modem

/-! ### Events without the peer -/

/-- Blocks have up to `block` bits. -/
def LinkEvent.Silent (block : Nat) : LinkEvent → Prop
  | .frame _ _ => False
  | .tick bits => bits ≤ block
  | _ => True

/-- The time that an event takes. -/
def LinkEvent.bits : LinkEvent → Nat
  | .tick bits => bits
  | _ => 0

section Events

variable {m : Modem} {c : Clock} {block : Nat}

theorem rests_of_moves {m' : Modem} (moves : Moves m m') : Clock.Rests m.clock m'.clock := by
  rcases moves with ⟨state, list, errors, same, states, _⟩
  rw [same]
  exact
    { phase := rfl
      count := rfl
      timer := rfl
      func := rfl
      state := states.imp_right Or.inl }

theorem rests_of_state {m' : Modem} {state : ModemState}
    (same : m'.clock = { m.clock with state := state })
    (states : state = m.state ∨ state = m.state.hungUp ∨
      (m.state = .modemOnline ∧ state = .commandOnline) ∨
      (m.state = .commandOnline ∧ state = .modemOnline)) : Clock.Rests m.clock m'.clock := by
  rw [same]
  exact { phase := rfl, count := rfl, timer := rfl, func := rfl, state := states }

theorem clock_sendInfo (running : m.bitTimer ≠ 0) :
    m.sendInfo.1.clock =
      { m.clock with txInfo := nextInfo m.lapm.txInfo, vs := seqNext m.lapm.vs } := by
  unfold sendInfo
  simp only
  rw [if_neg running]
  rfl

/-- `tx_info` where `lapm_get_tx_frame` has no frame left. -/
theorem moves_filled (m : Modem) (chars : Chars) :
    Moves m (if m.lapm.txInfo = m.lapm.infoList then m.txInfo chars else (m, true)).1 := by
  split
  · exact moves_txInfo m chars
  · exact moves_of_clock rfl

theorem rests_getTxFrame (chars : Chars) (running : m.bitTimer ≠ 0) :
    Clock.Rests m.clock (m.lapmGetTxFrame chars).1.clock := by
  have same : Clock.Rests m.clock m.clock := rests_of_moves (moves_of_clock rfl)
  have moved := moves_filled m chars
  unfold lapmGetTxFrame
  simp only
  generalize (if m.lapm.txInfo = m.lapm.infoList then m.txInfo chars else (m, true)) = sent
    at moved
  have filled := rests_of_moves moved
  split
  · exact same
  · split
    · exact same
    · split
      · have running' : sent.1.bitTimer ≠ 0 := by
          have timer : sent.1.bitTimer = m.bitTimer := filled.timer
          rw [timer]
          exact running
        rw [clock_sendInfo running']
        exact
          { phase := filled.phase
            count := filled.count
            timer := filled.timer
            func := filled.func
            state := filled.state }
      · exact filled

/-! ### The timer expires -/

theorem clock_t401Timeout (few : m.lapm.rtxCount ≤ lapmMaxRtx) :
    (t401Timeout { m with bitTimer := 0 }).clock =
      { m.clock with
        rtxCount := m.lapm.rtxCount + 1
        bitTimer := t401TimeoutBits
        bitTimerFunc := some .t401Timeout } := by
  unfold t401Timeout
  rw [if_neg (Nat.not_lt.mpr few)]
  have resent := clock_t401Resend
    { m with bitTimer := 0, lapm := { m.lapm with rtxCount := m.lapm.rtxCount + 1 } }
  simp only
  generalize t401Resend _ = resend at resent ⊢
  have set : ({ resend with
      bitTimer := t401TimeoutBits
      bitTimerFunc := some .t401Timeout } : Modem).clock =
      { resend.clock with bitTimer := t401TimeoutBits, bitTimerFunc := some .t401Timeout } := rfl
  rw [set, resent]
  rfl

theorem clock_t401Exhausted (many : lapmMaxRtx < m.lapm.rtxCount) :
    (t401Timeout { m with bitTimer := 0 }).clock =
      match m.lapm.state with
      | .estab | .disc =>
          { m.clock with
            phase := .idle, rtxCount := 0, bitTimer := 0, state := m.state.hungUp }
      | .data => m.clock.disconnect
      | .idle => { m.clock with rtxCount := 0, bitTimer := 0 } := by
  unfold t401Timeout
  rw [if_pos many]
  unfold t401Exhausted
  cases phase : m.lapm.state with
  | estab | disc =>
      simp only [phase]
      exact clock_release _
  | data =>
      simp only [phase]
      exact clock_lapmDisconnect _
  | idle =>
      simp only [phase, clock]

theorem ended_t401Timeout (ended : m.clock.Ended) :
    (t401Timeout { m with bitTimer := 0 }).clock.Ended := by
  have state : m.state = .dpDisc := ended.state
  have func : m.bitTimerFunc = some .t401Timeout := ended.func
  by_cases few : m.lapm.rtxCount ≤ lapmMaxRtx
  · rw [clock_t401Timeout few]
    exact { state := state, func := rfl }
  · rw [clock_t401Exhausted (Nat.lt_of_not_le few)]
    cases m.lapm.state with
    | estab | disc =>
        constructor
        · simp only [state]
          rfl
        · exact func
    | data => exact { state := state, func := rfl }
    | idle => exact { state := state, func := func }

theorem ended_tickBits (ended : m.clock.Ended) (bits : Nat) : (m.tickBits bits).clock.Ended := by
  have func : m.bitTimerFunc = some .t401Timeout := ended.func
  unfold tickBits
  split
  · unfold runBitTimer
    simp only [func]
    rw [← func]
    exact ended_t401Timeout ended
  · split
    · exact { state := ended.state, func := ended.func }
    · exact ended

theorem spend_t401Timeout (awaits : m.clock.Awaits) {bits : Nat} (short : bits ≤ block) :
    (t401Timeout { m with bitTimer := 0 }).clock.Ended ∨
      ((t401Timeout { m with bitTimer := 0 }).clock.Awaits ∧
        (t401Timeout { m with bitTimer := 0 }).clock.patience block + bits ≤
          m.clock.patience block) := by
  have running : 0 < m.bitTimer := awaits.armed.1
  have func : m.bitTimerFunc = some .t401Timeout := awaits.armed.2
  by_cases few : m.lapm.rtxCount ≤ lapmMaxRtx
  · right
    rw [clock_t401Timeout few]
    constructor
    · exact
        { linked := awaits.linked
          active := awaits.active
          armed := ⟨show 0 < t401TimeoutBits by decide, rfl⟩ }
    · have one : ((lapmMaxRtx + 1 - m.lapm.rtxCount : Nat) : Int) =
          ((lapmMaxRtx + 1 - (m.lapm.rtxCount + 1) : Nat) : Int) + 1 := by omega
      simp only [Clock.patience, clock, one, Int.add_mul, Int.one_mul]
      unfold Clock.period
      omega
  · have many := Nat.lt_of_not_le few
    rw [clock_t401Exhausted many]
    cases phase : m.lapm.state with
    | estab | disc =>
        left
        constructor
        · exact Clock.hungUp_of_linked awaits.linked
        · exact func
    | data =>
        right
        constructor
        · exact
            { linked := awaits.linked
              active := fun idle => by cases idle
              armed := ⟨show 0 < t401TimeoutBits by decide, rfl⟩ }
        · have begins := Clock.patience_start (c := m.clock) (d := m.clock.disconnect)
            block running rfl rfl
          have data : m.clock.phase = .data := phase
          have disc : m.clock.disconnect.phase = .disc := rfl
          have same : m.clock.disconnect.state = m.clock.state := rfl
          have none : lapmMaxRtx + 1 - m.clock.rtxCount = 0 := by
            change lapmMaxRtx + 1 - m.lapm.rtxCount = 0
            omega
          have timer : m.clock.bitTimer = m.bitTimer := rfl
          change m.clock.disconnect.patience block + bits ≤ m.clock.patience block
          unfold Clock.patience
          rw [data, disc, same, none, if_pos rfl, if_neg (by decide)]
          split_ifs <;> omega
    | idle => exact absurd phase awaits.active

theorem spend_tickBits (awaits : m.clock.Awaits) {bits : Nat} (short : bits ≤ block) :
    (m.tickBits bits).clock.Ended ∨
      ((m.tickBits bits).clock.Awaits ∧
        (m.tickBits bits).clock.patience block + bits ≤ m.clock.patience block) := by
  have running : 0 < m.bitTimer := awaits.armed.1
  have func : m.bitTimerFunc = some .t401Timeout := awaits.armed.2
  unfold tickBits bitsExpire
  by_cases due : m.bitTimer ≤ bits
  · rw [if_pos (by simp; omega)]
    unfold runBitTimer
    simp only [func]
    rw [← func]
    exact spend_t401Timeout awaits short
  · rw [if_neg (by simp; omega), if_pos (by omega)]
    right
    constructor
    · exact
        { linked := awaits.linked
          active := awaits.active
          armed := ⟨show 0 < m.bitTimer - bits by omega, func⟩ }
    · have clockEq : ({ m with bitTimer := m.bitTimer - bits } : Modem).clock =
          { m.clock with bitTimer := m.clock.bitTimer - bits } := rfl
      rw [clockEq]
      simp only [Clock.patience]
      omega

/-! ### The other events -/

theorem ended_getTxFrame (ended : m.clock.Ended) (chars : Chars) :
    (m.lapmGetTxFrame chars).1.clock.Ended := by
  have filled := (rests_of_moves (moves_filled m chars)).ended ended
  unfold lapmGetTxFrame
  simp only
  generalize (if m.lapm.txInfo = m.lapm.infoList then m.txInfo chars else (m, true)) = sent
    at filled
  split
  · exact { state := ended.state, func := ended.func }
  · split
    · exact ended
    · split
      · unfold sendInfo
        simp only
        split
        · exact { state := filled.state, func := rfl }
        · exact { state := filled.state, func := filled.func }
      · exact filled

theorem rests_escape (m : Modem) : Clock.Rests m.clock m.modemEscape.clock := by
  unfold modemEscape
  simp only
  split
  · rename_i online
    exact rests_of_state ((clock_report _ .ok).trans (clock_setState m .commandOnline))
      (Or.inr (Or.inr (Or.inl ⟨online.1, rfl⟩)))
  · exact rests_of_moves (moves_of_clock rfl)

theorem rests_online (m : Modem) : Clock.Rests m.clock m.modemOnline.1.clock := by
  unfold modemOnline
  split
  · exact rests_of_moves (moves_of_clock rfl)
  · rename_i command
    rw [ne_eq, not_not] at command
    exact rests_of_state ((clock_report _ .connect).trans
      (clock_setState { m with command := false } .modemOnline))
      (Or.inr (Or.inr (Or.inr ⟨command, rfl⟩)))

theorem rests_lost (m : Modem) : Clock.Rests m.clock (m.modemUpdateStatus .dpError).clock := by
  have clockEq : (m.modemUpdateStatus .dpError).clock =
      { m.clock with state := m.state.hungUp } := clock_error m
  exact rests_of_state clockEq (Or.inr (Or.inl rfl))

theorem rests_push (m : Modem) (chars : Chars) :
    Clock.Rests m.clock (m.linkStep (.push chars)).clock := by
  unfold linkStep
  simp only
  split
  · exact rests_of_moves (moves_pushRestData m chars)
  · exact rests_of_moves (moves_of_clock rfl)

theorem spend_hangup (block : Nat) (awaits : m.clock.Awaits) :
    (m.modemHup true).clock.Ended ∨
      ((m.modemHup true).clock.Awaits ∧
        (m.modemHup true).clock.patience block ≤ m.clock.patience block) := by
  have func : m.bitTimerFunc = some .t401Timeout := awaits.armed.2
  have running : 0 < m.bitTimer := awaits.armed.1
  have linked : m.state.linked = true := awaits.linked
  unfold modemHup
  cases state : m.state with
  | modemIdle | dpEstab | dpDisc =>
      rw [state] at linked
      cases linked
  | ecDisc =>
      left
      rw [clock_setState]
      exact { state := rfl, func := func }
  | ecEstab | modemOnline | commandOnline =>
      simp only
      split
      · right
        rw [clock_scheduled, clock_setState]
        have stopped : m.modemEcStop.clock = m.clock.disconnect :=
          clock_lapmDisconnect { m with bitTimer := 0, packerProcess := false }
        rw [stopped]
        constructor
        · exact
            { linked := rfl
              active := fun idle => by cases idle
              armed := ⟨show 0 < t401TimeoutBits by decide, rfl⟩ }
        · have begins := Clock.patience_start (c := m.clock) (d := m.clock.disconnect)
            block running rfl rfl
          have start : m.clock.state ≠ .ecDisc := by
            change m.state ≠ _
            rw [state]
            decide
          have resends := Clock.periods_nonneg (lapmMaxRtx + 1 - m.clock.rtxCount) block
          have whole := Clock.periods_nonneg Clock.allExpiries block
          have disc : m.clock.disconnect.phase = .disc := rfl
          simp only [Clock.patience, disc, if_neg start, reduceCtorEq, if_false, if_true]
          split_ifs <;> omega
      · left
        rw [clock_scheduled, clock_setState]
        exact { state := rfl, func := func }

end Events

/-! ### Runs -/

def silence (block : Nat) : Budget linkStep LinkEvent.bits (LinkEvent.Silent block) where
  live m := m.clock.Awaits
  ended m := m.clock.Ended
  left m := m.clock.patience block
  left_nonneg awaits := Clock.patience_nonneg awaits
  ended_step {m event} ended silent := by
    cases event with
    | frame f chars => exact silent.elim
    | fetch chars =>
        unfold linkStep
        simp only
        split
        · exact ended_getTxFrame ended chars
        · exact ended
    | tick bits => exact ended_tickBits ended bits
    | push chars => exact (rests_push m chars).ended ended
    | hangup =>
        have down : m.state = .dpDisc := ended.state
        have same : m.modemHup true = m := by
          unfold modemHup
          rw [down]
        change (m.modemHup true).clock.Ended
        rw [same]
        exact ended
    | lost => exact (rests_lost m).ended ended
    | escape => exact (rests_escape m).ended ended
    | online => exact (rests_online m).ended ended
  spend {m event} awaits silent := by
    have free {c : Clock} (rests : Clock.Rests m.clock c) :
        c.Ended ∨ (c.Awaits ∧ c.patience block + (0 : Nat) ≤ m.clock.patience block) := by
      rcases rests.awaits block awaits with ended | ⟨awaits', same⟩
      · left
        exact ended
      · right
        constructor
        · exact awaits'
        · omega
    cases event with
    | frame f chars => exact silent.elim
    | fetch chars =>
        unfold linkStep
        simp only
        split
        · exact free (rests_getTxFrame chars (Int.ne_of_gt awaits.armed.1))
        · exact free (rests_of_moves (moves_of_clock rfl))
    | tick bits => exact spend_tickBits awaits silent
    | push chars => exact free (rests_push m chars)
    | hangup =>
        rcases spend_hangup block awaits with ended | ⟨awaits', less⟩
        · left
          exact ended
        · right
          constructor
          · exact awaits'
          · change (m.modemHup true).clock.patience block + (0 : Nat) ≤ _
            omega
    | lost => exact free (rests_lost m)
    | escape => exact free (rests_escape m)
    | online => exact free (rests_online m)

theorem linkRun_foldl (m : Modem) (events : List LinkEvent) :
    m.linkRun events = events.foldl linkStep m := by
  induction events generalizing m with
  | nil => rfl
  | cons event rest ih => exact ih (m.linkStep event)

/-- Whatever the terminal does, and whatever is sent, an end that waits for a peer gives the
call up when no frame arrives for a bounded time. -/
theorem silent_peer_given_up (m : Modem) (block : Nat) (events : List LinkEvent)
    (linked : m.state.linked = true) (active : m.lapm.state ≠ .idle) (armed : m.clock.Armed)
    (silent : ∀ event ∈ events, event.Silent block)
    (long : m.bitTimer + 20 * (t401TimeoutBits + block) <
      Budget.total LinkEvent.bits events) :
    (m.linkRun events).state = .dpDisc := by
  have awaits : m.clock.Awaits := { linked := linked, active := active, armed := armed }
  have bound := Clock.patience_le (c := m.clock) block
  have ended : (silence block).ended (events.foldl linkStep m) :=
    (silence block).ended_of_total awaits silent (Int.lt_of_le_of_lt bound long)
  rw [linkRun_foldl]
  exact ended.state

def forsaken : Modem :=
  answering.linkStart.linkRun
    [.frame sabmeFrame noChars, .fetch { get := some [65], accept := 0, fails := false },
      .fetch { get := some [65], accept := 0, fails := false }]

theorem silent_peer_given_up_forsaken :
    (forsaken.linkRun (List.replicate 300 (.tick 5000) ++ .hangup ::
      List.replicate 300 (.tick 5000))).state = .dpDisc := by
  apply silent_peer_given_up forsaken 5000
  · decide +kernel
  · decide +kernel
  · constructor
    · decide +kernel
    · decide +kernel
  · intro event member
    rcases List.mem_append.mp member with before | after
    · rw [List.eq_of_mem_replicate before]
      exact Nat.le_refl 5000
    · rcases List.mem_cons.mp after with here | later
      · rw [here]
        trivial
      · rw [List.eq_of_mem_replicate later]
        exact Nat.le_refl 5000
  · decide +kernel

end Modem

end DModem
