/-
How LAPM functions change the phase, the numbers and the timer of a modem.

`clock` keeps what the retransmission timer depends on.  Queueing a frame does not
show in it, and a status report only as a change of the modem state.
-/

import DModem.Modem.Lapm
import DModem.Lib.Ring

namespace DModem

open Lib

structure Clock where
  phase : LapmPhase
  config : Bool
  rtxCount : Nat
  vs : Nat
  va : Nat
  sentInfo : Nat
  txInfo : Nat
  infoList : Nat
  txWinSize : Nat
  peerBusy : Bool
  bitTimer : Int
  bitTimerFunc : Option BitTimerFunc
  state : ModemState
  allocErrors : Nat

namespace Clock

def start (c : Clock) : Clock :=
  { c with rtxCount := 0, bitTimer := t401TimeoutBits, bitTimerFunc := some .t401Timeout }

def stop (c : Clock) : Clock := { c with bitTimer := 0, rtxCount := 0 }

def disconnect (c : Clock) : Clock := start { c with phase := .disc }

/-- The timer after `n` frames were acknowledged. -/
def ackTimer (c : Clock) (n : Nat) : Clock :=
  if 0 < n ∧ c.rtxCount = 0 then
    if seqSub c.vs c.va ≠ 0 then c.stop.start else c.stop
  else c

theorem phase_ackTimer (c : Clock) (n : Nat) : (c.ackTimer n).phase = c.phase := by
  unfold ackTimer
  split_ifs <;> rfl

/-- Frames up to `nr`, but none that is not outstanding, are acknowledged. -/
def acked (c : Clock) (nr : Nat) : Clock :=
  let n := min (seqSub nr c.va) (seqSub c.vs c.va)
  ackTimer
    { c with va := (c.va + n) % 128, sentInfo := (c.sentInfo + n) % lapmInfoFrames } n

structure Numbered (c : Clock) : Prop where
  va : c.va < 128
  sent : c.sentInfo < lapmInfoFrames
  tx : c.txInfo < lapmInfoFrames
  list : c.infoList < lapmInfoFrames
  vs : c.vs = (c.va + ringLength lapmInfoFrames c.sentInfo c.txInfo) % 128
  within : ringLength lapmInfoFrames c.sentInfo c.txInfo ≤
    ringLength lapmInfoFrames c.sentInfo c.infoList
  window : c.txWinSize = lapmMaxWinSize

section Numbered

variable {c : Clock} (numbered : c.Numbered)
include numbered

theorem Numbered.outstanding :
    seqSub c.vs c.va = ringLength lapmInfoFrames c.sentInfo c.txInfo := by
  have va := numbered.va
  have short := ringLength_lt c.sentInfo c.txInfo (show 0 < lapmInfoFrames by decide)
  rw [numbered.vs]
  simp only [lapmInfoFrames, lapmMaxWinSize] at short ⊢
  unfold seqSub
  omega

theorem Numbered.vs_lt : c.vs < 128 := by
  rw [numbered.vs]
  exact Nat.mod_lt _ (by decide)

theorem Numbered.outstanding_zero : seqSub c.vs c.va = 0 ↔ c.vs = c.va := by
  have va := numbered.va
  have vs := numbered.vs_lt
  unfold seqSub
  omega

theorem Numbered.room (window : c.peerBusy = false ∧ seqSub c.vs c.va < c.txWinSize)
    (drained : c.txInfo = c.infoList) :
    ¬ (nextInfo c.infoList = c.txInfo ∨ nextInfo c.infoList = c.sentInfo) := by
  have list := numbered.list
  have short := window.2
  rw [numbered.outstanding, numbered.window, drained] at short
  rintro (wraps | full)
  · rw [drained] at wraps
    simp only [nextInfo, lapmInfoFrames, lapmMaxWinSize] at wraps list
    omega
  · have whole := ringLength_full numbered.sent numbered.list full
    simp only [lapmInfoFrames, lapmMaxWinSize] at whole short
    omega

theorem Numbered.fill (free : nextInfo c.infoList ≠ c.sentInfo) :
    Numbered { c with infoList := nextInfo c.infoList } := by
  have grown := ringLength_succ_last numbered.sent numbered.list free
  exact
    { va := numbered.va
      sent := numbered.sent
      tx := numbered.tx
      list := Nat.mod_lt _ (by decide)
      vs := numbered.vs
      within := by
        have within := numbered.within
        simp only [nextInfo] at grown ⊢
        omega
      window := numbered.window }

theorem Numbered.send (more : c.txInfo ≠ c.infoList) :
    Numbered { c with txInfo := nextInfo c.txInfo, vs := seqNext c.vs } := by
  have within := numbered.within
  have free : (c.txInfo + 1) % lapmInfoFrames ≠ c.sentInfo := by
    intro full
    have whole := ringLength_full numbered.sent numbered.tx full
    have short := ringLength_lt c.sentInfo c.infoList (show 0 < lapmInfoFrames by decide)
    apply more
    rw [← ring_last numbered.sent numbered.tx, ← ring_last numbered.sent numbered.list]
    congr 2
    omega
  have grown := ringLength_succ_last numbered.sent numbered.tx free
  have shorter : ringLength lapmInfoFrames c.sentInfo c.txInfo ≠
      ringLength lapmInfoFrames c.sentInfo c.infoList := by
    intro same
    apply more
    rw [← ring_last numbered.sent numbered.tx, ← ring_last numbered.sent numbered.list, same]
  exact
    { va := numbered.va
      sent := numbered.sent
      tx := Nat.mod_lt _ (by decide)
      list := numbered.list
      vs := by
        simp only [nextInfo, grown, seqNext, numbered.vs]
        omega
      within := by
        simp only [nextInfo, grown]
        omega
      window := numbered.window }

theorem Numbered.rewind : Numbered { c with vs := c.va, txInfo := c.sentInfo } := by
  have empty := (ringLength_zero numbered.sent numbered.sent).mpr rfl
  have va := numbered.va
  exact
    { va := numbered.va
      sent := numbered.sent
      tx := numbered.sent
      list := numbered.list
      vs := by
        simp only [empty]
        omega
      within := by
        simp only [empty]
        omega
      window := numbered.window }

theorem Numbered.advance {n : Nat} (few : n ≤ seqSub c.vs c.va) :
    Numbered { c with va := (c.va + n) % 128, sentInfo := (c.sentInfo + n) % lapmInfoFrames } := by
  have sent := numbered.sent
  have within := numbered.within
  rw [numbered.outstanding] at few
  have shortTx := ringLength_drop numbered.sent numbered.tx few
  have shortList := ringLength_drop numbered.sent numbered.list (Nat.le_trans few within)
  exact
    { va := Nat.mod_lt _ (by decide)
      sent := Nat.mod_lt _ (by decide)
      tx := numbered.tx
      list := numbered.list
      vs := by
        simp only [shortTx, numbered.vs]
        omega
      within := by
        simp only [shortTx, shortList]
        omega
      window := numbered.window }

end Numbered

theorem Numbered.restart (c : Clock) (list : c.infoList < lapmInfoFrames)
    (window : c.txWinSize = lapmMaxWinSize) :
    Numbered { c with vs := 0, va := 0, sentInfo := c.infoList, txInfo := c.infoList } := by
  have empty := (ringLength_zero list list).mpr rfl
  exact
    { va := by simp
      sent := list
      tx := list
      list := list
      vs := by simp [empty]
      within := Nat.le_refl _
      window := window }

theorem Numbered.ackTimer {c : Clock} (numbered : c.Numbered) (n : Nat) :
    (c.ackTimer n).Numbered := by
  unfold Clock.ackTimer
  split_ifs
  · exact { numbered with }
  · exact { numbered with }
  · exact numbered

theorem Numbered.acked {c : Clock} (numbered : c.Numbered) (nr : Nat) : (c.acked nr).Numbered :=
  (numbered.advance (Nat.min_le_right _ _)).ackTimer _

end Clock

def ModemState.hungUp : ModemState → ModemState
  | .modemIdle => .modemIdle
  | _ => .dpDisc

namespace Modem

def clock (m : Modem) : Clock :=
  { phase := m.lapm.state
    config := m.lapm.config
    rtxCount := m.lapm.rtxCount
    vs := m.lapm.vs
    va := m.lapm.va
    sentInfo := m.lapm.sentInfo
    txInfo := m.lapm.txInfo
    infoList := m.lapm.infoList
    txWinSize := m.lapm.txWinSize
    peerBusy := m.lapm.peerBusy
    bitTimer := m.bitTimer
    bitTimerFunc := m.bitTimerFunc
    state := m.state
    allocErrors := m.allocErrors }

variable (m : Modem)

theorem clock_putCtrl (bytes : List UInt8) : (m.putCtrl bytes).clock = m.clock := by
  unfold putCtrl
  split
  · rfl
  · rfl

theorem clock_setState (newState : ModemState) :
    (m.modemSetState newState).clock = { m.clock with state := newState } := by
  unfold modemSetState
  split
  · rename_i same
    rw [← same]
    rfl
  · cases newState <;> rfl

theorem clock_scheduled : m.defaultResult.scheduleModemStop.clock = m.clock := by
  unfold defaultResult
  split
  · rfl
  · rfl

theorem clock_hup (isLocal : Bool)
    (remote : m.state = .ecEstab ∨ m.state = .modemOnline ∨ m.state = .commandOnline →
      (isLocal && m.cfg.ec) = false) :
    (m.modemHup isLocal).clock = { m.clock with state := m.state.hungUp } := by
  unfold modemHup
  cases stateEq : m.state with
  | modemIdle =>
      simp only [ModemState.hungUp, clock, stateEq]
  | dpEstab =>
      simp only [clock_scheduled, clock_setState]
      rfl
  | ecEstab | modemOnline | commandOnline =>
      have notLocal := remote (by simp [stateEq])
      simp only [notLocal, Bool.false_eq_true, if_false, clock_scheduled, clock_setState]
      rfl
  | ecDisc =>
      simp only [clock_setState]
      rfl
  | dpDisc =>
      simp only [ModemState.hungUp, clock, stateEq]

theorem clock_release :
    (m.modemUpdateStatus .ecRelease).clock = { m.clock with state := m.state.hungUp } := by
  have hup := clock_hup { m with resultCode := .nocarrier } (decide (m.state = .ecDisc)) (by
    intro linked
    change m.state = _ ∨ m.state = _ ∨ m.state = _ at linked
    rcases linked with linked | linked | linked <;> simp [linked])
  exact hup

theorem clock_error :
    (m.modemUpdateStatus .error).clock = { m.clock with state := m.state.hungUp } := by
  have hup := clock_hup { m with resultCode := .nocarrier } m.state.disc (by
    intro linked
    change m.state = _ ∨ m.state = _ ∨ m.state = _ at linked
    rcases linked with linked | linked | linked <;> simp [linked, ModemState.disc])
  exact hup

theorem clock_report (code : ModemResult) : (m.modemReportResult code).clock = m.clock := by
  rw [report_eq]
  rfl

theorem clock_link :
    (m.modemUpdateStatus .ecLink).clock = { m.clock with state := .modemOnline } :=
  (clock_report _ .connect).trans (clock_setState m.logLink .modemOnline)

/-! ### Characters -/

/-- A routine that runs while characters are moved: a frame may be prefetched, and an
error may hang up. -/
def Moves (m m' : Modem) : Prop :=
  ∃ state list errors,
    m'.clock = { m.clock with state := state, infoList := list, allocErrors := errors } ∧
    (state = m.state ∨ state = m.state.hungUp) ∧
    (m.clock.Numbered →
      Clock.Numbered { m.clock with infoList := list } ∧ errors = m.allocErrors)

theorem moves_of_clock {m m' : Modem} (same : m'.clock = m.clock) : Moves m m' :=
  ⟨m.state, m.lapm.infoList, m.allocErrors, same, Or.inl rfl, fun numbered => ⟨numbered, rfl⟩⟩

theorem moves_of_hungUp {m m' : Modem}
    (hung : m'.clock = { m.clock with state := m.state.hungUp }) : Moves m m' :=
  ⟨m.state.hungUp, m.lapm.infoList, m.allocErrors, hung, Or.inr rfl,
    fun numbered => ⟨numbered, rfl⟩⟩

theorem moves_callPutChars (chars : Chars) (bytes : List UInt8) (n : Int) :
    Moves m (m.callPutChars chars bytes n).1 := by
  unfold callPutChars
  split
  · exact moves_of_clock rfl
  · simp only
    split
    · exact moves_of_hungUp (clock_error _)
    · exact moves_of_clock rfl

theorem moves_txInfo (chars : Chars) : Moves m (m.txInfo chars).1 := by
  unfold txInfo
  simp only
  split_ifs with closed drained full charless
  · exact moves_of_clock rfl
  · refine ⟨m.state, m.lapm.infoList, m.allocErrors + 1, rfl, Or.inl rfl, ?_⟩
    intro numbered
    have isOpen : m.lapm.peerBusy = false ∧ seqSub m.lapm.vs m.lapm.va < m.lapm.txWinSize := by
      simpa using closed
    exact absurd full (numbered.room isOpen drained)
  · exact moves_of_clock rfl
  · cases chars.get with
    | none => exact moves_of_hungUp (clock_release m)
    | some bytes =>
        simp only
        split
        · exact moves_of_clock rfl
        · refine ⟨m.state, nextInfo m.lapm.infoList, m.allocErrors, rfl, Or.inl rfl, ?_⟩
          intro numbered
          exact ⟨numbered.fill fun wraps => full (Or.inr wraps), rfl⟩
  · exact moves_of_clock rfl

variable {m}

theorem Moves.phase {m' : Modem} (moves : Moves m m') : m'.lapm.state = m.lapm.state := by
  rcases moves with ⟨state, list, errors, same, _, _⟩
  exact congrArg Clock.phase same

theorem Moves.of_clock {m' m'' : Modem} (moves : Moves m m') (same : m''.clock = m'.clock) :
    Moves m m'' := by
  unfold Moves
  rw [same]
  exact moves

theorem hungUp_hungUp (s : ModemState) : s.hungUp.hungUp = s.hungUp := by
  cases s <;> rfl

theorem Moves.trans {m' m'' : Modem} (first : Moves m m') (second : Moves m' m'') :
    Moves m m'' := by
  rcases first with ⟨state, list, errors, same, states, numbered⟩
  rcases second with ⟨state', list', errors', same', states', numbered'⟩
  have stateEq : m'.state = state := congrArg Clock.state same
  have errorsEq : m'.allocErrors = errors := congrArg Clock.allocErrors same
  refine ⟨state', list', errors', ?_, ?_, ?_⟩
  · rw [same', same]
  · rw [stateEq] at states'
    rcases states' with kept | hung
    · rw [kept]
      exact states
    · rcases states with kept' | hung'
      · rw [hung, kept']
        exact Or.inr rfl
      · rw [hung, hung', hungUp_hungUp]
        exact Or.inr rfl
  · intro fine
    rcases numbered fine with ⟨filled, none⟩
    rw [same, errorsEq] at numbered'
    rcases numbered' { filled with } with ⟨filled', none'⟩
    exact ⟨{ filled' with }, none'.trans none⟩

/-! ### Handlers -/

theorem clock_txSuper (m : Modem) (addr ctrl pf : UInt8) :
    (m.txSuper addr ctrl pf).clock = m.clock := clock_putCtrl m _

theorem clock_txReady (m : Modem) (addr pf : UInt8) : (m.txReady addr pf).clock = m.clock := by
  unfold txReady
  split
  · exact clock_txSuper m _ _ _
  · exact clock_txSuper m _ _ _

theorem clock_lapmDisconnect (m : Modem) : m.lapmDisconnect.clock = m.clock.disconnect := by
  change ((m.setPhase .disc).putCtrl _).clock.start = _
  rw [clock_putCtrl]
  rfl

theorem ackLoop_frame (rounds : Nat) (l : LapmState) (nr : Nat) :
    ∃ sentInfo va, (ackLoop rounds l nr).1 = { l with sentInfo := sentInfo, va := va } := by
  induction rounds generalizing l with
  | zero => exact ⟨l.sentInfo, l.va, rfl⟩
  | succ rounds ih =>
      unfold ackLoop
      split
      · exact ⟨l.sentInfo, l.va, rfl⟩
      · split
        · exact ⟨l.sentInfo, l.va, rfl⟩
        · rcases ih { l with sentInfo := nextInfo l.sentInfo, va := seqNext l.va } with
            ⟨sentInfo, va, same⟩
          exact ⟨sentInfo, va, same⟩

theorem clock_ackTimer (m : Modem) (n : Nat) : (m.ackTimer n).clock = m.clock.ackTimer n := by
  unfold ackTimer Clock.ackTimer
  split_ifs with counted outstanding counted' counted' outstanding'
  all_goals first | rfl | contradiction

theorem seqSub_mod {x y : Nat} (le : y ≤ x) (near : x < y + 128) :
    seqSub (x % 128) (y % 128) = x - y := by
  unfold seqSub
  omega

theorem ackLoop_spec (rounds : Nat) (l : LapmState) (va vs a : Nat) (low : va ≤ a)
    (sent : va ≤ vs) (near : a < va + 128) (window : vs ≤ va + 15)
    (vaEq : l.va = va % 128) (sentLt : l.sentInfo < lapmInfoFrames)
    (next : l.txInfo = (l.sentInfo + (vs - va)) % lapmInfoFrames)
    (enough : min a vs - va < rounds) :
    ackLoop rounds l (a % 128) =
      ({ l with
          va := min a vs % 128
          sentInfo := (l.sentInfo + (min a vs - va)) % lapmInfoFrames }, min a vs - va) := by
  induction rounds generalizing l va with
  | zero => omega
  | succ rounds ih =>
      rw [ackLoop]
      by_cases reached : va = a
      · have same : min a vs = va := by omega
        rw [if_pos (by rw [vaEq, reached]), same, Nat.sub_self, Nat.add_zero,
          Nat.mod_eq_of_lt sentLt, ← vaEq]
      · have notReached : l.va ≠ a % 128 := by
          rw [vaEq]
          omega
        rw [if_neg notReached]
        by_cases none : vs = va
        · have same : min a vs = va := by omega
          have equal : l.sentInfo = l.txInfo := by
            rw [next, none, Nat.sub_self, Nat.add_zero, Nat.mod_eq_of_lt sentLt]
          rw [if_pos equal, same, Nat.sub_self, Nat.add_zero, Nat.mod_eq_of_lt sentLt, ← vaEq]
        · have different : l.sentInfo ≠ l.txInfo := by
            rw [next]
            simp only [lapmInfoFrames, lapmMaxWinSize] at sentLt ⊢
            omega
          rw [if_neg different]
          have step := ih { l with sentInfo := nextInfo l.sentInfo, va := seqNext l.va }
            (va + 1) (by omega) (by omega) (by omega) (by omega)
            (by simp only [seqNext, vaEq]; omega)
            (Nat.mod_lt _ (by decide))
            (by
              simp only [next, nextInfo, Nat.mod_add_mod]
              congr 1
              omega)
            (by omega)
          simp only [step]
          simp only [nextInfo, Nat.mod_add_mod]
          rw [show l.sentInfo + 1 + (min a vs - (va + 1)) = l.sentInfo + (min a vs - va) by omega,
            show min a vs - (va + 1) + 1 = min a vs - va by omega]

theorem clock_ackInfo {m : Modem} (numbered : m.clock.Numbered) {nr : Nat} (small : nr < 128) :
    (m.ackInfo nr).clock = m.clock.acked nr := by
  have va : m.lapm.va < 128 := numbered.va
  have window : m.lapm.txWinSize = lapmMaxWinSize := numbered.window
  have outstanding : seqSub m.lapm.vs m.lapm.va =
    ringLength lapmInfoFrames m.lapm.sentInfo m.lapm.txInfo := numbered.outstanding
  have short := ringLength_lt m.lapm.sentInfo m.lapm.txInfo (show 0 < lapmInfoFrames by decide)
  have nrEq : (m.lapm.va + seqSub nr m.lapm.va) % 128 = nr := by
    unfold seqSub
    omega
  have txEq := ring_last (show m.lapm.sentInfo < _ from numbered.sent)
    (show m.lapm.txInfo < _ from numbered.tx)
  have seqLt : seqSub nr m.lapm.va < 128 := Nat.mod_lt _ (by decide)
  rw [← outstanding] at short txEq
  simp only [lapmInfoFrames, lapmMaxWinSize] at short window
  have loop := ackLoop_spec 128 m.lapm m.lapm.va (m.lapm.va + seqSub m.lapm.vs m.lapm.va)
    (m.lapm.va + seqSub nr m.lapm.va) (by omega) (by omega) (by omega) (by omega)
    (by omega) numbered.sent (by rw [Nat.add_sub_cancel_left]; exact txEq.symm) (by omega)
  rw [nrEq, Nat.add_min_add_left, Nat.add_sub_cancel_left] at loop
  unfold ackInfo
  rw [if_neg (by rw [not_not, window]; omega)]
  simp only [loop]
  rw [clock_ackTimer]
  rfl

theorem moves_recvInfo (m : Modem) (f : Hdlc.Frame) (chars : Chars) :
    Moves m (m.recvInfo f chars) := by
  have put := moves_callPutChars m chars (f.buf.drop 3) ((f.count : Int) - 3)
  unfold recvInfo
  simp only
  split
  · exact put.of_clock rfl
  · exact put

theorem moves_respondInfo (m : Modem) (f : Hdlc.Frame) (chars : Chars) :
    Moves m (m.respondInfo f chars) := by
  unfold respondInfo
  split
  · exact moves_of_clock (clock_txSuper m _ _ _)
  · split
    · exact moves_of_clock (clock_txSuper m _ _ _)
    · simp only
      split
      · exact moves_txInfo m chars
      · exact (moves_txInfo m chars).of_clock (clock_txSuper _ _ _ _)

theorem moves_rxInfo (m : Modem) (f : Hdlc.Frame) (chars : Chars) :
    Moves (m.ackInfo (Frame.nr f)) (m.rxInfo f chars) := by
  unfold rxInfo
  generalize m.ackInfo (Frame.nr f) = acked
  simp only
  split
  · split
    · exact moves_of_clock (clock_txSuper acked _ _ _)
    · exact moves_of_clock rfl
  · split
    · split
      · exact moves_of_clock rfl
      · exact moves_of_clock (clock_txSuper acked _ _ _)
    · have taken : Moves acked
          (recvInfo { acked with lapm := { acked.lapm with reject := false } } f chars) :=
        moves_recvInfo { acked with lapm := { acked.lapm with reject := false } } f chars
      exact (taken.of_clock rfl).trans (moves_respondInfo _ f chars)

theorem moves_answerSuper (m : Modem) (f : Hdlc.Frame) (chars : Chars) :
    Moves m (m.answerSuper f chars) := by
  unfold answerSuper
  split
  · exact moves_of_clock (clock_txReady m _ _)
  · simp only
    split
    · exact moves_txInfo m chars
    · exact (moves_txInfo m chars).of_clock (clock_txReady _ _ _)

theorem nr_lt (f : Hdlc.Frame) : Frame.nr f < 128 := by
  have byte := UInt8.toNat_lt (f.buf.getD 2 0)
  unfold Frame.nr
  rw [Nat.shiftRight_eq_div_pow]
  omega

theorem moves_pushRestData (m : Modem) (chars : Chars) : Moves m (m.pushRestData chars) := by
  have put := moves_callPutChars m chars (m.lapm.rxBuf.drop m.lapm.rxHead) m.lapm.rxCount
  unfold pushRestData
  simp only
  split_ifs
  · exact moves_of_clock rfl
  · exact put.of_clock (clock_txSuper _ _ _ _)
  · exact put.of_clock rfl
  · exact put
  · exact moves_of_clock rfl

theorem clock_rejectInfo (data : m.lapm.state = .data) :
    m.rejectInfo.clock = { m.clock with vs := m.lapm.va, txInfo := m.lapm.sentInfo } := by
  unfold rejectInfo
  rw [if_neg (by rw [data]; decide)]
  rfl

theorem numbered_reset (numbered : m.clock.Numbered) : m.reset.clock.Numbered := by
  have restarted := Clock.Numbered.restart m.clock numbered.list numbered.window
  exact { restarted with }

theorem txInfo_more (m : Modem) (chars : Chars) (filled : (m.txInfo chars).2 = true) :
    (m.txInfo chars).1.lapm.txInfo ≠ (m.txInfo chars).1.lapm.infoList := by
  unfold txInfo at filled ⊢
  simp only at filled ⊢
  split_ifs at filled ⊢ with closed drained full charless
  · cases got : chars.get with
    | none =>
        rw [got] at filled
        cases filled
    | some bytes =>
        simp only [got] at filled ⊢
        split at filled
        · cases filled
        · rename_i some
          rw [if_neg some]
          intro wraps
          exact full (Or.inl wraps.symm)
  · exact drained

theorem clock_t401Resend (m : Modem) : m.t401Resend.clock = m.clock := by
  unfold t401Resend
  split
  · exact clock_putCtrl m _
  · cases m.lapm.state with
    | estab | disc => exact clock_putCtrl m _
    | data => exact clock_txReady m _ _
    | idle => rfl

/-! ### Parameters -/

theorem setParam_default (value : Nat) : setParam lapmMaxWinSize value lapmDfltWinSize = 15 := by
  unfold setParam
  by_cases low : value < 15
  · rw [if_pos (Or.inl ⟨low, Nat.le_refl _⟩)]
    rfl
  · rw [if_neg (by simp [lapmMaxWinSize, lapmDfltWinSize, low]),
      if_neg (by simp only [lapmMaxWinSize, lapmDfltWinSize]; omega)]
    rfl

structure SameLink (l l' : LapmState) : Prop where
  same : l' = { l with
    txWinSize := l'.txWinSize
    rxWinSize := l'.rxWinSize
    txInfoSize := l'.txInfoSize
    rxInfoSize := l'.rxInfoSize }
  window : l.txWinSize = lapmMaxWinSize → l'.txWinSize = lapmMaxWinSize

theorem SameLink.trans {l l₁ l' : LapmState} (first : SameLink l l₁) (second : SameLink l₁ l') :
    SameLink l l' := by
  constructor
  · have outer := second.same
    rw [first.same] at outer
    exact outer
  · intro window
    exact second.window (first.window window)

theorem SameLink.refl (l : LapmState) : SameLink l l := ⟨rfl, id⟩

theorem sameLink_param (l : LapmState) (pid : UInt8) (plen : Nat) (buf : List UInt8) :
    SameLink l (parseXidParam l pid plen buf) := by
  unfold parseXidParam
  split_ifs
  · exact ⟨rfl, id⟩
  · exact ⟨rfl, id⟩
  · refine ⟨rfl, ?_⟩
    intro window
    simp only [window]
    exact setParam_default _
  · exact ⟨rfl, id⟩
  · exact ⟨rfl, id⟩

theorem sameLink_params (rounds : Nat) (l : LapmState) (buf : List UInt8) (len : Int) :
    SameLink l (parseXidParams rounds l buf len) := by
  induction rounds generalizing l buf len with
  | zero => exact SameLink.refl l
  | succ rounds ih =>
      unfold parseXidParams
      simp only
      split_ifs
      · exact SameLink.refl l
      · exact SameLink.refl l
      · exact (sameLink_param l _ _ _).trans (ih _ _ _)

theorem sameLink_groups (rounds : Nat) (l : LapmState) (cfg : ModemConfig) (buf : List UInt8)
    (len : Int) : SameLink l (parseXidGroups rounds l cfg buf len).1 := by
  induction rounds generalizing l cfg buf len with
  | zero => exact SameLink.refl l
  | succ rounds ih =>
      unfold parseXidGroups
      simp only
      split
      · exact SameLink.refl l
      · split
        · exact SameLink.refl l
        · refine SameLink.trans ?_ (ih _ _ _ _)
          split
          · exact sameLink_params _ l _ _
          · exact SameLink.refl l

theorem updateConfig_frame (m : Modem) (cfg : ModemConfig) :
    ∃ comp dictSize maxString encoder decoder,
      m.modemUpdateConfig cfg =
        { m with
          cfg :=
            { m.cfg with comp := comp, compDictSize := dictSize, compMaxString := maxString }
          encoder := encoder
          decoder := decoder } := by
  unfold modemUpdateConfig modemCompConfig
  simp only
  split
  · cases compConfig m.encoder cfg.compDictSize cfg.compMaxString with
    | none => exact ⟨_, _, _, _, _, rfl⟩
    | some encoder =>
        simp only
        cases compConfig m.decoder cfg.compDictSize cfg.compMaxString with
        | none => exact ⟨_, _, _, _, _, rfl⟩
        | some decoder => exact ⟨_, _, _, _, _, rfl⟩
  · exact ⟨_, _, _, _, _, rfl⟩

theorem rxXid_frame (m : Modem) (f : Hdlc.Frame) :
    ∃ l comp dictSize maxString encoder decoder,
      SameLink m.lapm l ∧
        m.rxXid f =
          { m with
            lapm := l
            cfg :=
              { m.cfg with comp := comp, compDictSize := dictSize, compMaxString := maxString }
            encoder := encoder
            decoder := decoder } := by
  unfold rxXid
  split
  · exact ⟨_, _, _, _, _, _, SameLink.refl _, rfl⟩
  · have link := sameLink_groups ((f.count : Int) - 3).toNat m.lapm defaultModemEcConfig
      (f.buf.drop 3) ((f.count : Int) - 3)
    simp only
    generalize parseXidGroups ((f.count : Int) - 3).toNat m.lapm defaultModemEcConfig
      (f.buf.drop 3) ((f.count : Int) - 3) = parsed at link
    rcases updateConfig_frame { m with lapm := parsed.1 }
      { parsed.2 with
        ecTxWinSize := parsed.1.txWinSize % 256
        ecRxWinSize := parsed.1.rxWinSize % 256
        ecTxInfoSize := parsed.1.txInfoSize % 65536
        ecRxInfoSize := parsed.1.rxInfoSize % 65536 } with
      ⟨comp, dictSize, maxString, encoder, decoder, same⟩
    exact ⟨parsed.1, comp, dictSize, maxString, encoder, decoder, link, same⟩

theorem phase_rxXid (m : Modem) (f : Hdlc.Frame) : (m.rxXid f).lapm.state = m.lapm.state := by
  rcases rxXid_frame m f with ⟨l, _, _, _, _, _, link, same⟩
  rw [same]
  simp only
  rw [link.same]

theorem clock_rxXid (window : m.lapm.txWinSize = lapmMaxWinSize) (f : Hdlc.Frame) :
    (m.rxXid f).clock = m.clock := by
  rcases rxXid_frame m f with ⟨l, _, _, _, _, _, link, same⟩
  rw [same]
  unfold clock
  simp only
  rw [link.window window, link.same, window]

/-! ### The phase after a frame -/

section Phase

variable (m : Modem)

@[simp]
theorem phase_putCtrl (bytes : List UInt8) : (m.putCtrl bytes).lapm.state = m.lapm.state :=
  congrArg Clock.phase (clock_putCtrl m bytes)

@[simp]
theorem phase_setState (newState : ModemState) :
    (m.modemSetState newState).lapm.state = m.lapm.state :=
  congrArg Clock.phase (clock_setState m newState)

@[simp]
theorem phase_release : (m.modemUpdateStatus .ecRelease).lapm.state = m.lapm.state :=
  congrArg Clock.phase (clock_release m)

@[simp]
theorem phase_link : (m.modemUpdateStatus .ecLink).lapm.state = m.lapm.state :=
  congrArg Clock.phase (clock_link m)

@[simp]
theorem phase_setPhase (phase : LapmPhase) : (m.setPhase phase).lapm.state = phase := rfl

@[simp]
theorem phase_reset : m.reset.lapm.state = m.lapm.state := rfl

@[simp]
theorem phase_timerStart : m.timerStart.lapm.state = m.lapm.state := rfl

@[simp]
theorem phase_timerStop : m.timerStop.lapm.state = m.lapm.state := rfl

@[simp]
theorem phase_lapmDisconnect : m.lapmDisconnect.lapm.state = .disc :=
  congrArg Clock.phase (clock_lapmDisconnect m)

end Phase

def Keeps (m m' : Modem) : Prop := m'.lapm.state = m.lapm.state ∨ m'.lapm.state = .disc

theorem Keeps.of_phase {m' m'' : Modem} (keeps : Keeps m m')
    (same : m''.lapm.state = m'.lapm.state) : Keeps m m'' := by
  unfold Keeps
  rw [same]
  exact keeps

theorem keeps_ackInfo (m : Modem) (nr : Nat) : Keeps m (m.ackInfo nr) := by
  unfold ackInfo
  split
  · exact Or.inr (congrArg Clock.phase (clock_lapmDisconnect m))
  · left
    rcases ackLoop_frame 128 m.lapm nr with ⟨sentInfo, va, same⟩
    have phase := congrArg Clock.phase (clock_ackTimer
      { m with lapm := (ackLoop 128 m.lapm nr).1 } (ackLoop 128 m.lapm nr).2)
    rw [Clock.phase_ackTimer] at phase
    simp only [clock, same] at phase
    simp only [same]
    exact phase

theorem keeps_rxInfo (m : Modem) (f : Hdlc.Frame) (chars : Chars) :
    Keeps m (m.rxInfo f chars) :=
  (keeps_ackInfo m _).of_phase (moves_rxInfo m f chars).phase

theorem phase_rejectInfo (m : Modem) : m.rejectInfo.lapm.state = m.lapm.state := by
  unfold rejectInfo
  split <;> rfl

theorem keeps_rxSuperCmd (m : Modem) (f : Hdlc.Frame) (chars : Chars) :
    Keeps m (m.rxSuperCmd f chars) := by
  have acked := fun busy => keeps_ackInfo (m.setPeerBusy busy) (Frame.nr f)
  unfold rxSuperCmd
  simp only
  split
  · exact (acked false).of_phase (moves_answerSuper _ f chars).phase
  · split
    · split
      · exact (acked true).of_phase (congrArg Clock.phase (clock_txReady _ _ _))
      · exact acked true
    · split
      · apply (acked false).of_phase
        rw [(moves_answerSuper _ f chars).phase]
        split
        · exact phase_rejectInfo _
        · rfl
      · exact Or.inl rfl

theorem Keeps.goBack {m' : Modem} (keeps : Keeps m m') : Keeps m m'.rejectInfo.timerStop :=
  keeps.of_phase (phase_rejectInfo m')

theorem keeps_rxSuperRsp (m : Modem) (f : Hdlc.Frame) : Keeps m (m.rxSuperRsp f) := by
  have ready : Keeps m ((m.setPeerBusy false).ackInfo (Frame.nr f)) :=
    keeps_ackInfo (m.setPeerBusy false) (Frame.nr f)
  have busy : Keeps m ((m.setPeerBusy true).ackInfo (Frame.nr f)) :=
    keeps_ackInfo (m.setPeerBusy true) (Frame.nr f)
  unfold rxSuperRsp
  generalize (m.setPeerBusy false).ackInfo (Frame.nr f) = readyAcked at ready
  generalize (m.setPeerBusy true).ackInfo (Frame.nr f) = busyAcked at busy
  simp only
  split
  · exact Or.inl rfl
  · split
    · split
      · exact ready.goBack
      · exact ready
    · split
      · have back : Keeps m (if busyAcked.lapm.rtxCount ≠ 0 ∧ Frame.pf f ≠ 0 then
            busyAcked.rejectInfo.timerStop else busyAcked) := by
          split
          · exact busy.goBack
          · exact busy
        generalize (if busyAcked.lapm.rtxCount ≠ 0 ∧ Frame.pf f ≠ 0 then
          busyAcked.rejectInfo.timerStop else busyAcked) = backed at back
        split
        · exact back.of_phase rfl
        · exact back
      · split
        · split
          · exact ready.goBack
          · exact ready
        · exact Or.inl rfl

theorem phase_t401Resend (m : Modem) : m.t401Resend.lapm.state = m.lapm.state :=
  congrArg Clock.phase (clock_t401Resend m)

theorem phase_sendInfo (m : Modem) : m.sendInfo.1.lapm.state = m.lapm.state := by
  unfold sendInfo
  simp only
  split <;> rfl

theorem phase_getTxFrame (m : Modem) (chars : Chars) :
    (m.lapmGetTxFrame chars).1.lapm.state = m.lapm.state := by
  unfold lapmGetTxFrame
  simp only
  split
  · rfl
  · split
    · rfl
    · have filled : (if m.lapm.txInfo = m.lapm.infoList then m.txInfo chars
          else (m, true)).1.lapm.state = m.lapm.state := by
        split
        · exact (moves_txInfo m chars).phase
        · rfl
      generalize (if m.lapm.txInfo = m.lapm.infoList then m.txInfo chars else (m, true)) = sent
        at filled
      split
      · rw [phase_sendInfo, filled]
      · exact filled

theorem phase_pushRestData (m : Modem) (chars : Chars) :
    (m.pushRestData chars).lapm.state = m.lapm.state := (moves_pushRestData m chars).phase

/-! ### Kinds of frames -/

def IsCommand (l : LapmState) (f : Hdlc.Frame) (kind : UInt8) : Prop :=
  Frame.type f = frameU ∧ Frame.addr f = l.rspAddr ∧ Frame.ctrl f &&& 0xef = kind

def IsResponse (l : LapmState) (f : Hdlc.Frame) (kind : UInt8) : Prop :=
  Frame.type f = frameU ∧ Frame.addr f ≠ l.rspAddr ∧ Frame.ctrl f &&& 0xef = kind

def IsLinkFrame (f : Hdlc.Frame) : Prop := Frame.type f = frameI ∨ Frame.type f = frameS

end Modem

end DModem
