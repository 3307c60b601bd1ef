/-
A frame while the HDLC transmitter sends it.

`lapm_get_tx_frame` hands out a pointer into `ctrl_buf` or `info_buf` and counts the frame
as sent.  `modem_hdlc_get_bits` reads the bytes there one by one, while further frames are
received and queued.
-/

import DModem.Modem.Acknowledge
import DModem.Modem.Frames
import DModem.Modem.Overrun

namespace DModem

open Lib

/-- The place of a frame. -/
inductive FramePointer where
  | ctrl (slot : Nat)
  | info (slot : Nat)
  deriving DecidableEq, Repr

namespace Modem

/-- The bytes of the frame, of which there are `size`. -/
def frameAt (m : Modem) : FramePointer → List UInt8
  | .ctrl slot => m.lapm.ctrlBuf slot
  | .info slot => (m.lapm.infoBuf slot).ctrl ++ (m.lapm.infoBuf slot).info

/-- The pointer `lapm_get_tx_frame` returns when it returns a frame. -/
def txPointer (m : Modem) : FramePointer :=
  if m.lapm.txCtrl ≠ m.lapm.ctrlList then .ctrl m.lapm.txCtrl else .info m.lapm.txInfo

/-- `get_tx_frame`, which is NULL until LAPM attaches its framer. -/
def framer (chars : Chars) (m : Modem) : Option Hdlc.Frame × Modem :=
  if m.getTxFrame then
    let sent := m.lapmGetTxFrame chars
    (sent.2.map fun text => { count := 0, size := text.length, fcs := 0, buf := text }, sent.1)
  else (none, m)

end Modem

/-- The transmitter with `tx_frame`, which is NULL when `hdlc` has no frame. -/
structure Transmitter where
  modem : Modem
  hdlc : Hdlc.HdlcState
  pointer : FramePointer

inductive TxEvent where
  | round (chars : Chars)
  | take (nbits : Nat)
  | lapm (event : Modem.LapmEvent)
  | negotiate
  | txUnnum (addr ctrl : UInt8)
  | txSuper (addr ctrl pfMask : UInt8)
  | txXid (addr : UInt8)

namespace Transmitter

def start (m : Modem) : Transmitter :=
  { modem := m.modemSetupConfig.lapmInit, hdlc := Hdlc.modemHdlcStart, pointer := .ctrl 0 }

def load (t : Transmitter) : Hdlc.HdlcState :=
  { t.hdlc with
    txFrame := t.hdlc.txFrame.map fun f =>
      { f with size := (t.modem.frameAt t.pointer).length, buf := t.modem.frameAt t.pointer } }

/-- A round of the loop of `modem_hdlc_get_bits` that fills the register. -/
def round (t : Transmitter) (chars : Chars) : Transmitter :=
  let next := Hdlc.HdlcState.refill (Modem.framer chars) t.load t.modem
  { modem := next.2
    hdlc := next.1
    pointer := if t.hdlc.txFrame = none then t.modem.txPointer else t.pointer }

def take (t : Transmitter) (nbits : Nat) : Transmitter :=
  { t with
    hdlc :=
      { t.hdlc with
        pack := { bit := t.hdlc.pack.bit - nbits, data := t.hdlc.pack.data } } }

def step (t : Transmitter) : TxEvent → Transmitter
  | .round chars => t.round chars
  | .take nbits => t.take nbits
  | .lapm event => { t with modem := t.modem.lapmStep event }
  | .negotiate => { t with modem := t.modem.modemEcNegotiate }
  | .txUnnum addr ctrl => { t with modem := t.modem.txUnnum addr ctrl }
  | .txSuper addr ctrl pfMask => { t with modem := t.modem.txSuper addr ctrl pfMask }
  | .txXid addr => { t with modem := t.modem.txXid addr }

def run (t : Transmitter) : List TxEvent → Transmitter
  | [] => t
  | event :: rest => (t.step event).run rest

/-- The frame of the transmitter is not finished before or after any of the steps. -/
def Unfinished (t : Transmitter) : List TxEvent → Prop
  | [] => t.hdlc.txFrame ≠ none
  | event :: rest => t.hdlc.txFrame ≠ none ∧ (t.step event).Unfinished rest

/-- No frame that is received overruns `rx_buf`. -/
def Roomy (t : Transmitter) : List TxEvent → Prop
  | [] => True
  | event :: rest =>
      (∀ f chars, event = .lapm (.frame f chars) → ¬ t.modem.Overruns f chars) ∧
        (t.step event).Roomy rest

end Transmitter

/-- Of the frames received, only information and supervisory frames; nobody connects; and
`lapm_get_tx_frame` and `tx_info` are only called by the transmitter and for a frame. -/
def TxEvent.KeepsLink : TxEvent → Prop
  | .lapm (.frame f _) => Frame.type f = Modem.frameI ∨ Frame.type f = Modem.frameS
  | .lapm (.fetch _) => False
  | .lapm (.prefetch _) => False
  | .lapm .connect => False
  | _ => True

namespace Modem

/-- The frame is spared by what is filled next.  A control frame is behind those that are
still to be sent; an information frame matters in the data phase. -/
def Spared (m : Modem) : FramePointer → Prop
  | .ctrl slot => m.ctrlRing.next = nextCtrl slot
  | .info slot =>
      m.lapm.state ≠ .estab ∧
        (m.lapm.state = .data → m.infoRing.Guards lapmInfoFrames slot)

def Leaves (m m' : Modem) : Prop :=
  ∀ p, m.Spared p → m'.Spared p ∧ m'.frameAt p = m.frameAt p

def Declines (m m' : Modem) : Prop :=
  m'.lapm.state = m.lapm.state ∨ m'.lapm.state = .disc ∨ m'.lapm.state = .idle

theorem QueuesCtrl.leaves {m m' : Modem} {slot : Nat} (queues : QueuesCtrl m m')
    (spared : m.Spared (.ctrl slot)) :
    m'.Spared (.ctrl slot) ∧ m'.frameAt (.ctrl slot) = m.frameAt (.ctrl slot) := by
  rcases SlotQueue.puts_keep queues spared with ⟨next, buf⟩
  exact ⟨next.trans spared, buf⟩

theorem Sends.leaves {m m' : Modem} (sends : Sends m m') (declines : Declines m m') :
    Leaves m m' := by
  intro p spared
  cases p with
  | ctrl slot => exact sends.ctrl.leaves spared
  | info slot =>
      have buf : m'.lapm.infoBuf = m.lapm.infoBuf := congrArg SlotWindow.buf sends.info
      constructor
      · constructor
        · intro estab
          rcases declines with same | disc | idle
          · exact spared.1 (same.symm.trans estab)
          · exact LapmPhase.noConfusion (disc.symm.trans estab)
          · exact LapmPhase.noConfusion (idle.symm.trans estab)
        · intro data
          rw [sends.info]
          rcases declines with same | disc | idle
          · exact spared.2 (same.symm.trans data)
          · exact LapmPhase.noConfusion (disc.symm.trans data)
          · exact LapmPhase.noConfusion (idle.symm.trans data)
      · simp only [frameAt, buf]

theorem Passes.leaves {m m' : Modem} (passes : Passes m m') (data : m.lapm.state = .data)
    (keeps : Keeps m m') : Leaves m m' := by
  intro p spared
  cases p with
  | ctrl slot => exact passes.ctrl.leaves spared
  | info slot =>
      rcases SlotWindow.moves_guard (by decide) passes.info (spared.2 data) with ⟨guards, same⟩
      have buf : m'.lapm.infoBuf slot = m.lapm.infoBuf slot := same
      constructor
      · constructor
        · intro estab
          rcases keeps with same | disc
          · exact LapmPhase.noConfusion (data.symm.trans (same.symm.trans estab))
          · exact LapmPhase.noConfusion (disc.symm.trans estab)
        · exact fun _ => guards
      · simp only [frameAt, buf]

/-! ### Handing out -/

theorem sendInfo_at (m : Modem) :
    m.sendInfo.2 = some (m.sendInfo.1.frameAt (.info m.lapm.txInfo)) := by
  unfold sendInfo
  simp only
  split <;> simp [frameAt, timerStart]

theorem filled_info (m : Modem) (chars : Chars)
    (some : (if m.lapm.txInfo = m.lapm.infoList then m.txInfo chars else (m, true)).2 = true) :
    let filled := if m.lapm.txInfo = m.lapm.infoList then m.txInfo chars else (m, true)
    filled.1.lapm.txInfo = m.lapm.txInfo ∧ filled.1.lapm.txInfo ≠ filled.1.lapm.infoList := by
  split at some
  · rename_i drained
    simp only [if_pos drained]
    exact ⟨(txInfo_header m chars some).2.2.2, txInfo_more m chars some⟩
  · rename_i more
    simp only [if_neg more]
    exact ⟨trivial, more⟩

theorem getTxFrame_at (m : Modem) (chars : Chars) (text : List UInt8)
    (given : (m.lapmGetTxFrame chars).2 = some text) :
    text = (m.lapmGetTxFrame chars).1.frameAt m.txPointer := by
  unfold lapmGetTxFrame at given ⊢
  unfold txPointer
  by_cases queued : m.lapm.txCtrl ≠ m.lapm.ctrlList
  · simp only [if_pos queued] at given ⊢
    exact (Option.some.inj given).symm
  · simp only [if_neg queued] at given ⊢
    split at given
    · cases given
    · rename_i ready
      rw [if_neg ready]
      have pointers := filled_info m chars
      simp only at pointers
      generalize (if m.lapm.txInfo = m.lapm.infoList then m.txInfo chars else (m, true)) = filled
        at given pointers
      split at given
      · rename_i some
        rw [if_pos some, ← (pointers some).1]
        rw [sendInfo_at] at given
        exact (Option.some.inj given).symm
      · cases given

theorem infoRing_ordered {m : Modem} (numbered : m.clock.Numbered) :
    m.infoRing.Ordered lapmInfoFrames :=
  { first := numbered.sent
    next := numbered.tx
    last := numbered.list
    within := numbered.within }

theorem sendInfo_pointers (m : Modem) :
    m.sendInfo.1.lapm.txInfo = nextInfo m.lapm.txInfo ∧
      m.sendInfo.1.lapm.infoList = m.lapm.infoList := by
  unfold sendInfo
  simp only
  split
  · exact ⟨rfl, rfl⟩
  · exact ⟨rfl, rfl⟩

theorem getTxFrame_info (m : Modem) (chars : Chars) (text : List UInt8)
    (empty : ¬ m.lapm.txCtrl ≠ m.lapm.ctrlList)
    (given : (m.lapmGetTxFrame chars).2 = some text) :
    m.lapm.state = .data ∧
      (m.lapmGetTxFrame chars).1.lapm.txInfo = nextInfo m.lapm.txInfo ∧
      (m.lapmGetTxFrame chars).1.lapm.infoList ≠ m.lapm.txInfo := by
  unfold lapmGetTxFrame at given ⊢
  simp only [if_neg empty] at given ⊢
  split at given
  · cases given
  · rename_i ready
    rw [if_neg ready]
    have pointers := filled_info m chars
    simp only at pointers
    generalize (if m.lapm.txInfo = m.lapm.infoList then m.txInfo chars else (m, true)) = filled
      at given pointers
    split at given
    · rename_i some
      have sent := sendInfo_pointers filled.1
      rw [if_pos some, sent.1, sent.2, ← (pointers some).1]
      constructor
      · simp only [Bool.or_eq_true, decide_eq_true_eq, not_or, not_not] at ready
        exact ready.2
      · exact ⟨rfl, Ne.symm (pointers some).2⟩
    · cases given

theorem getTxFrame_spares (m : Modem) (numbered : m.clock.Numbered) (chars : Chars)
    (text : List UInt8) (given : (m.lapmGetTxFrame chars).2 = some text) :
    (m.lapmGetTxFrame chars).1.Spared m.txPointer := by
  unfold txPointer
  by_cases queued : m.lapm.txCtrl ≠ m.lapm.ctrlList
  · rw [if_pos queued]
    unfold lapmGetTxFrame
    simp only [if_pos queued]
    rfl
  · rw [if_neg queued]
    rcases getTxFrame_info m chars text queued given with ⟨data, next, spared⟩
    have phase := phase_getTxFrame m chars
    constructor
    · intro estab
      rw [phase, data] at estab
      cases estab
    · intro _
      exact
        { ordered := infoRing_ordered (rings_getTxFrame m chars numbered).1
          slot := numbered.tx
          spared := spared
          place := Or.inl next }

/-! ### Meanwhile -/

theorem sends_link (m : Modem) : Sends m (m.modemUpdateStatus .ecLink) := by
  have logged : Sends m m.logLink := sends_of_rings rfl rfl
  have online := sends_setState m.logLink .modemOnline
  apply (logged.trans online).trans
  change Sends _ ((m.logLink.modemSetState .modemOnline).modemReportResult .connect)
  rw [report_eq]
  exact sends_of_rings rfl rfl

theorem queues_validDataState (m : Modem) : QueuesCtrl m m.validDataState.1 := by
  have resets : ∀ phase, QueuesCtrl m (m.reset.setPhase phase) :=
    fun _ => Relation.ReflTransGen.refl
  unfold validDataState
  cases m.lapm.state with
  | estab => exact (resets .data).trans (sends_link _).ctrl
  | disc => exact (resets .idle).trans (sends_release _).ctrl
  | data | idle => exact Relation.ReflTransGen.refl

theorem validDataState_down {m : Modem} (down : m.lapm.state ≠ .data)
    (settled : m.lapm.state ≠ .estab) :
    m.validDataState.2 = false ∧ m.validDataState.1.lapm.state = .idle ∧
      m.validDataState.1.lapm.infoBuf = m.lapm.infoBuf := by
  unfold validDataState
  cases phase : m.lapm.state with
  | estab => exact absurd phase settled
  | data => exact absurd phase down
  | disc =>
      have released := sends_release (m.reset.setPhase .idle)
      have state : ((m.reset.setPhase .idle).modemUpdateStatus .ecRelease).lapm.state = .idle := by
        simp
      exact ⟨rfl, state, congrArg SlotWindow.buf released.info⟩
  | idle => exact ⟨rfl, phase, rfl⟩

theorem rxComplete_cases (m : Modem) (f : Hdlc.Frame) (chars : Chars)
    (kind : Frame.type f = frameI ∨ Frame.type f = frameS) :
    (m.validDataState.2 = false ∧ m.lapmRxComplete f chars = m.validDataState.1) ∨
      (m.validDataState.2 = true ∧ Passes m.validDataState.1 (m.lapmRxComplete f chars) ∧
        Keeps m.validDataState.1 (m.lapmRxComplete f chars)) := by
  unfold lapmRxComplete
  generalize m.validDataState = state
  rcases kind with info | super
  · simp only [if_pos info]
    split
    · rename_i valid
      exact Or.inr ⟨valid, passes_rxInfo _ f chars, keeps_rxInfo _ f chars⟩
    · rename_i refused
      exact Or.inl ⟨Bool.eq_false_of_not_eq_true refused, rfl⟩
  · have notInfo : ¬ Frame.type f = frameI := by
      rw [super]
      decide
    simp only [if_neg notInfo, if_pos super]
    split
    · rename_i valid
      right
      split
      · exact ⟨valid, passes_rxSuperCmd _ f chars, keeps_rxSuperCmd _ f chars⟩
      · exact ⟨valid, passes_rxSuperRsp _ f, keeps_rxSuperRsp _ f⟩
    · rename_i refused
      exact Or.inl ⟨Bool.eq_false_of_not_eq_true refused, rfl⟩

theorem rxComplete_leaves (m : Modem) (f : Hdlc.Frame) (chars : Chars)
    (kind : Frame.type f = frameI ∨ Frame.type f = frameS) :
    Leaves m (m.lapmRxComplete f chars) := by
  intro p spared
  cases p with
  | ctrl slot =>
      have checked := queues_validDataState m
      rcases rxComplete_cases m f chars kind with ⟨_, refused⟩ | ⟨_, passes, _⟩
      · rw [refused]
        exact checked.leaves spared
      · exact QueuesCtrl.leaves (checked.trans passes.ctrl) spared
  | info slot =>
      by_cases data : m.lapm.state = .data
      · have same : m.validDataState = (m, true) := by
          unfold validDataState
          rw [data]
        rcases rxComplete_cases m f chars kind with ⟨refused, _⟩ | ⟨_, passes, keeps⟩
        · rw [same] at refused
          cases refused
        · rw [same] at passes keeps
          exact passes.leaves data keeps _ spared
      · rcases validDataState_down data spared.1 with ⟨refused, idle, buf⟩
        rcases rxComplete_cases m f chars kind with ⟨_, after⟩ | ⟨valid, _⟩
        · rw [after]
          constructor
          · constructor
            · intro estab
              rw [idle] at estab
              cases estab
            · intro data'
              rw [idle] at data'
              cases data'
          · simp only [frameAt, buf]
        · rw [refused] at valid
          cases valid

theorem declines_t401Timeout (m : Modem) : Declines m m.t401Timeout := by
  unfold t401Timeout
  split
  · unfold t401Exhausted
    simp only
    cases phase : m.lapm.state with
    | estab | disc => exact Or.inr (Or.inr (by simp))
    | data => exact Or.inr (Or.inl (by simp))
    | idle => exact Or.inl phase.symm
  · exact Or.inl (phase_t401Resend _)

theorem declines_lapmConfig (m : Modem) : Declines m m.lapmConfig := by
  left
  unfold lapmConfig txXid txRnr txSuper
  simp only
  split
  · simp
  · simp

theorem Leaves.refl (m : Modem) : Leaves m m := fun _ spared => ⟨spared, rfl⟩

theorem putCtrl_leaves (m : Modem) (bytes : List UInt8) : Leaves m (m.putCtrl bytes) :=
  (sends_putCtrl m bytes).leaves (Or.inl (phase_putCtrl m bytes))

end Modem

namespace Transmitter

open Modem

theorem round_busy {t : Transmitter} (chars : Chars) (busy : t.hdlc.txFrame ≠ none) :
    (t.round chars).modem = t.modem ∧ (t.round chars).pointer = t.pointer := by
  rcases Option.ne_none_iff_exists'.mp busy with ⟨f, held⟩
  constructor
  · simp only [round, load, Hdlc.HdlcState.refill, held, Option.map_some]
    split <;> rfl
  · exact if_neg busy

theorem step_leaves {t : Transmitter} {event : TxEvent} (keeps : event.KeepsLink)
    (busy : t.hdlc.txFrame ≠ none) :
    Leaves t.modem (t.step event).modem ∧ (t.step event).pointer = t.pointer := by
  cases event with
  | round chars =>
      rcases round_busy chars busy with ⟨modem, pointer⟩
      constructor
      · change Leaves t.modem (t.round chars).modem
        rw [modem]
        exact Leaves.refl _
      · exact pointer
  | take nbits => exact ⟨Leaves.refl _, rfl⟩
  | txUnnum addr ctrl => exact ⟨putCtrl_leaves _ _, rfl⟩
  | txSuper addr ctrl pfMask => exact ⟨putCtrl_leaves _ _, rfl⟩
  | txXid addr => exact ⟨putCtrl_leaves _ _, rfl⟩
  | negotiate =>
      have attached : Sends t.modem { t.modem with getTxFrame := true } := sends_of_rings rfl rfl
      exact ⟨(attached.trans (sends_lapmConfig _)).leaves (declines_lapmConfig _), rfl⟩
  | lapm event =>
      refine ⟨?_, rfl⟩
      cases event with
      | frame f chars => exact rxComplete_leaves t.modem f chars keeps
      | fetch chars => exact keeps.elim
      | prefetch chars => exact keeps.elim
      | push chars =>
          exact (sends_pushRestData t.modem chars).leaves (Or.inl (phase_pushRestData _ chars))
      | timeout =>
          have cleared : Sends t.modem { t.modem with bitTimer := 0 } := sends_of_rings rfl rfl
          exact (cleared.trans (sends_t401Timeout _)).leaves (declines_t401Timeout _)
      | connect => exact keeps.elim
      | config => exact (sends_lapmConfig t.modem).leaves (declines_lapmConfig _)
      | disconnect =>
          exact (sends_lapmDisconnect t.modem).leaves (Or.inr (Or.inl (phase_lapmDisconnect _)))
      | stop => exact (sends_ecStop t.modem).leaves (Or.inr (Or.inl (phase_lapmDisconnect _)))
      | setState newState =>
          exact (sends_setState t.modem newState).leaves (Or.inl (phase_setState _ newState))

theorem run_leaves {t : Transmitter} {events : List TxEvent}
    (keeps : ∀ event ∈ events, event.KeepsLink) (unfinished : t.Unfinished events) :
    Leaves t.modem (t.run events).modem ∧ (t.run events).pointer = t.pointer := by
  induction events generalizing t with
  | nil => exact ⟨Leaves.refl _, rfl⟩
  | cons event rest ih =>
      rcases step_leaves (keeps event List.mem_cons_self) unfinished.1 with ⟨first, pointer⟩
      rcases ih (fun later member => keeps later (List.mem_cons_of_mem _ member)) unfinished.2 with
        ⟨second, pointer'⟩
      constructor
      · intro p spared
        rcases first p spared with ⟨between, same⟩
        rcases second p between with ⟨after, same'⟩
        exact ⟨after, same'.trans same⟩
      · exact pointer'.trans pointer

/-! ### The frame handed out -/

theorem rings_framer (m : Modem) (chars : Chars) : Rings m (framer chars m).2 := by
  unfold framer
  split
  · exact rings_getTxFrame m chars
  · exact Rings.refl m

theorem round_idle {t : Transmitter} (chars : Chars) (free : t.hdlc.txFrame = none) :
    (t.round chars).modem = (framer chars t.modem).2 ∧
      (t.round chars).pointer = t.modem.txPointer ∧
      (t.round chars).hdlc.txFrame =
        (framer chars t.modem).1.map fun f => { f with fcs := Hdlc.initFcs, count := 0 } := by
  unfold round
  simp only [load, Hdlc.HdlcState.refill, free, Option.map_none, if_true]
  exact ⟨trivial, trivial, trivial⟩

theorem rings_step (t : Transmitter) (event : TxEvent) : Rings t.modem (t.step event).modem := by
  cases event with
  | round chars =>
      change Rings t.modem (t.round chars).modem
      by_cases free : t.hdlc.txFrame = none
      · rw [(round_idle chars free).1]
        exact rings_framer t.modem chars
      · rw [(round_busy chars free).1]
        exact Rings.refl _
  | take nbits => exact Rings.refl _
  | lapm event => exact rings_lapmStep t.modem event
  | negotiate =>
      have attached : Rings t.modem { t.modem with getTxFrame := true } := rings_of_clock rfl
      exact attached.trans (rings_lapmConfig _)
  | txUnnum addr ctrl => exact rings_putCtrl t.modem _
  | txSuper addr ctrl pfMask => exact rings_putCtrl t.modem _
  | txXid addr => exact rings_putCtrl t.modem _

theorem rings_run (t : Transmitter) (events : List TxEvent) :
    Rings t.modem (t.run events).modem := by
  induction events generalizing t with
  | nil => exact Rings.refl _
  | cons event rest ih => exact (rings_step t event).trans (ih _)

theorem round_hands {t : Transmitter} (numbered : t.modem.clock.Numbered) (chars : Chars)
    (free : t.hdlc.txFrame = none) {f : Hdlc.Frame}
    (handed : (t.round chars).hdlc.txFrame = some f) :
    f.buf = (t.round chars).modem.frameAt (t.round chars).pointer ∧ f.size = f.buf.length ∧
      (t.round chars).modem.Spared (t.round chars).pointer := by
  rcases round_idle chars free with ⟨modem, pointer, txFrame⟩
  rw [modem, pointer]
  rw [handed] at txFrame
  unfold framer at txFrame ⊢
  split at txFrame
  · rename_i attached
    simp only [if_pos attached] at txFrame ⊢
    cases given : (t.modem.lapmGetTxFrame chars).2 with
    | none =>
        rw [given] at txFrame
        cases txFrame
    | some text =>
        rw [given] at txFrame
        cases txFrame
        exact ⟨getTxFrame_at t.modem chars text given, rfl,
          getTxFrame_spares t.modem numbered chars text given⟩
  · cases txFrame

/-! ### What `rx_info` writes over -/

theorem spilled_round (t : Transmitter) (chars : Chars) :
    (t.round chars).modem.lapm.spilled = t.modem.lapm.spilled := by
  by_cases free : t.hdlc.txFrame = none
  · rw [(round_idle chars free).1]
    unfold framer
    split
    · exact spilled_of_rest (rest_getTxFrame t.modem chars)
    · rfl
  · rw [(round_busy chars free).1]

theorem spilled_step {t : Transmitter} {event : TxEvent}
    (short : ∀ f chars, event = .lapm (.frame f chars) → ¬ t.modem.Overruns f chars) :
    (t.step event).modem.lapm.spilled = t.modem.lapm.spilled := by
  cases event with
  | round chars => exact spilled_round t chars
  | take nbits => rfl
  | lapm event =>
      apply spilled_lapmStep
      intro f chars same
      exact short f chars (by rw [same])
  | negotiate =>
      rcases rest_lapmConfig { t.modem with getTxFrame := true } with same | same
      · exact spilled_of_rest same
      · exact spilled_of_rest same
  | txUnnum addr ctrl => exact spilled_of_rest (rest_putCtrl t.modem _)
  | txSuper addr ctrl pfMask => exact spilled_of_rest (rest_putCtrl t.modem _)
  | txXid addr => exact spilled_of_rest (rest_putCtrl t.modem _)

theorem spilled_run {t : Transmitter} {events : List TxEvent} (roomy : t.Roomy events) :
    (t.run events).modem.lapm.spilled = t.modem.lapm.spilled := by
  induction events generalizing t with
  | nil => rfl
  | cons event rest ih => exact (ih roomy.2).trans (spilled_step roomy.1)

/-- In every run, from the moment a frame is handed to the transmitter until the
transmitter has finished it, the frame stays as it was handed out, as long as the link
is not reset.  Only `rx_info` may write over frames, if what it copies to `rx_buf` does
not fit there. -/
theorem in_flight_unmodified (m : Modem) (before during : List TxEvent) (chars : Chars)
    (f : Hdlc.Frame) :
    let idle := (start m).run before
    let handed := idle.step (.round chars)
    idle.hdlc.txFrame = none → handed.hdlc.txFrame = some f →
    (∀ event ∈ during, event.KeepsLink) → handed.Unfinished during →
    let later := handed.run during
    later.pointer = handed.pointer ∧ later.modem.frameAt handed.pointer = f.buf ∧
      f.size = f.buf.length ∧
      (handed.Roomy during → later.modem.lapm.spilled = handed.modem.lapm.spilled) := by
  intro idle handed free given keeps unfinished later
  have numbered := (rings_run (start m) before (numbered_lapmInit _ rfl)).1
  rcases round_hands numbered chars free given with ⟨place, size, spared⟩
  rcases run_leaves keeps unfinished with ⟨leaves, pointer⟩
  rcases leaves _ spared with ⟨_, same⟩
  exact ⟨pointer, same.trans place.symm, size, spilled_run⟩

def attached : Modem := { modemCreate with getTxFrame := true }

def answerGone : List TxEvent :=
  [.lapm (.frame sabmeFrame noChars), .round noChars, .round noChars, .round noChars,
    .round noChars]

def whileSending : List TxEvent :=
  [.lapm (.frame (rrFrame 2) oneByte), .round noChars, .lapm .timeout, .txSuper 3 frameSRr 0]

/-- A further frame is prefetched while the first information frame is sent. -/
theorem in_flight_unmodified_prefetched :
    let handed := ((start attached).run answerGone).step (.round oneByte)
    let later := handed.run whileSending
    handed.pointer = .info 0 ∧ later.modem.lapm.infoList = 2 ∧
      later.modem.frameAt handed.pointer = [1, 0, 0, 1] := by
  have keeps : ∀ event ∈ whileSending, event.KeepsLink := by
    intro event member
    simp only [whileSending, List.mem_cons, List.not_mem_nil, or_false] at member
    rcases member with rfl | rfl | rfl | rfl
    · exact Or.inr (by decide)
    · trivial
    · trivial
    · trivial
  have unfinished : (((start attached).run answerGone).step (.round oneByte)).Unfinished
      whileSending := by
    simp only [whileSending, Unfinished]
    decide +kernel
  have kept := in_flight_unmodified attached answerGone whileSending oneByte
    { count := 0, size := 4, fcs := Hdlc.initFcs, buf := [1, 0, 0, 1] } (by decide +kernel)
    (by decide +kernel) keeps unfinished
  exact ⟨by decide +kernel, by decide +kernel, kept.2.1⟩

end Transmitter

end DModem
