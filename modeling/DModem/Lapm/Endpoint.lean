/-
One end of a LAPM link as one end of two go-back-N flows.

`Side` says that a modem sends one flow and receives the other: its sequence
numbers are those of the flows modulo 128, the information ring holds what is not
yet acknowledged, and the control queue holds acknowledgements that are not yet on
the way.  Each function that LAPM handlers are made of keeps `Side`.
-/

import DModem.Modem.Lapm
import DModem.Lib.Ring
import DModem.Lib.GoBackN

namespace DModem.Lapm

open DModem.Lib

abbrev Chunk := List UInt8

/-! ### Frames on the way -/

inductive Packet where
  | info (seq : Nat) (chunk : Chunk) (ack : Nat)
  | super (ack : Nat)
  | unnum (bytes : List UInt8)

def Packet.ack? : Packet → Option Nat
  | .info _ _ ack => some ack
  | .super ack => some ack
  | .unnum _ => none

def Packet.data? : Packet → Option (Nat × Chunk)
  | .info seq chunk _ => some (seq, chunk)
  | _ => none

def seqByte (n : Nat) : UInt8 := UInt8.ofNat ((n % 128) <<< 1)

inductive Encodes : Packet → List UInt8 → Prop where
  | info (addr : UInt8) (seq : Nat) (chunk : Chunk) (ack : Nat) :
      Encodes (.info seq chunk ack) ([addr, seqByte seq, seqByte ack] ++ chunk)
  | super (addr ctrl pf : UInt8) (ack : Nat) (kind : ctrl &&& 0x3 = 0x1) (bit : pf = 0 ∨ pf = 1) :
      Encodes (.super ack) [addr, ctrl, seqByte ack ||| pf]
  | unnum (bytes : List UInt8) (kind : bytes.getD 1 0 &&& 0x3 = 0x3) :
      Encodes (.unnum bytes) bytes

def acksOf (packets : List Packet) : List Nat := packets.filterMap Packet.ack?

def dataOf (packets : List Packet) : List (Nat × Chunk) := packets.filterMap Packet.data?

theorem acksOf_append (front back : List Packet) :
    acksOf (front ++ back) = acksOf front ++ acksOf back := List.filterMap_append

theorem dataOf_append (front back : List Packet) :
    dataOf (front ++ back) = dataOf front ++ dataOf back := List.filterMap_append

/-! ### The fields that matter -/

def deliveredOf : Output → List UInt8
  | .data bytes => bytes
  | .result _ | .echo _ => []

/-- The bytes that `put_chars` has accepted. -/
def delivered (m : Modem) : List UInt8 := m.out.flatMap deliveredOf

structure Core where
  va : Nat
  vs : Nat
  vr : Nat
  txWinSize : Nat
  sentInfo : Nat
  txInfo : Nat
  infoList : Nat
  info : Nat → Chunk
  txCtrl : Nat
  ctrlList : Nat
  ctrlBuf : Nat → List UInt8
  rxCount : Int
  rxHead : Nat
  rxBuf : List UInt8
  busy : Bool
  taken : List Chunk
  delivered : List UInt8

def core (m : Modem) : Core :=
  { va := m.lapm.va
    vs := m.lapm.vs
    vr := m.lapm.vr
    txWinSize := m.lapm.txWinSize
    sentInfo := m.lapm.sentInfo
    txInfo := m.lapm.txInfo
    infoList := m.lapm.infoList
    info := fun i => (m.lapm.infoBuf i).info
    txCtrl := m.lapm.txCtrl
    ctrlList := m.lapm.ctrlList
    ctrlBuf := m.lapm.ctrlBuf
    rxCount := m.lapm.rxCount
    rxHead := m.lapm.rxHead
    rxBuf := m.lapm.rxBuf
    busy := m.lapm.busy
    taken := m.taken
    delivered := delivered m }

namespace Core

/-- The control frames that are not yet fetched. -/
def queue (c : Core) : List (List UInt8) := ringItems lapmCtrlFrames c.ctrlBuf c.txCtrl c.ctrlList

/-- The received bytes that `put_chars` has not accepted. -/
def rest (c : Core) : List UInt8 := (c.rxBuf.drop c.rxHead).take c.rxCount.toNat

structure Rep (c : Core) (s : Sender Chunk) (r : Receiver Chunk) : Prop where
  va : c.va = s.va % 128
  vs : c.vs = s.vs % 128
  vr : c.vr = r.vr % 128
  window : c.txWinSize = lapmMaxWinSize
  sentLt : c.sentInfo < lapmInfoFrames
  listLt : c.infoList < lapmInfoFrames
  next : c.txInfo = (c.sentInfo + (s.vs - s.va)) % lapmInfoFrames
  items : ringItems lapmInfoFrames c.info c.sentInfo c.infoList = s.items.drop s.va
  held : c.rxCount ≠ 0 → c.busy = true

end Core

/-- `before` was read before the flow began, `out` is on the way to the peer, and
`peerR`, `peerS` are the peer's ends of the two flows. -/
structure Side (before : List Chunk) (out : List Packet) (peerR : Receiver Chunk)
    (peerS : Sender Chunk) (alive : Prop) (c : Core) (s : Sender Chunk) (r : Receiver Chunk)
    (queue : List Packet) : Prop where
  flowOut : Flow lapmMaxWinSize s peerR
  flowIn : Flow lapmMaxWinSize peerS r
  data : s.data = dataOf out
  acks : r.acks = acksOf (out ++ queue)
  ctrlLt : c.txCtrl < lapmCtrlFrames
  ctrlListLt : c.ctrlList < lapmCtrlFrames
  queued : List.Forall₂ Encodes queue c.queue
  noData : ∀ packet ∈ queue, packet.data? = none
  taken : c.taken = before ++ s.items
  counted : c.rxCount = c.rest.length
  terminal : c.delivered ++ c.rest = r.received.flatten
  rep : alive → c.Rep s r

def SideOf (before : List Chunk) (out : List Packet) (peerR : Receiver Chunk)
    (peerS : Sender Chunk) (alive : Prop) (m : Modem) : Prop :=
  ∃ s r queue, Side before out peerR peerS alive (core m) s r queue

/-- How many items an end has sent for the first time, how many it has received, and
whether no SABME waits in its queue. -/
structure Track where
  top : Nat
  vr : Nat
  quiet : Prop

def Packet.Sabme : Packet → Prop
  | .unnum bytes => bytes.getD 1 0 &&& 0xef = Modem.frameUSabme
  | _ => False

theorem not_sabme_of_data {packet : Packet} (data : packet.data? ≠ none) : ¬ packet.Sabme := by
  cases packet with
  | info | super => exact id
  | unnum bytes => exact absurd rfl data

def Track.Of (track : Track) (s : Sender Chunk) (r : Receiver Chunk) (queue : List Packet) : Prop :=
  s.top = track.top ∧ r.vr = track.vr ∧ (track.quiet → ∀ packet ∈ queue, ¬ packet.Sabme)

def SideAt (track : Track) (before : List Chunk) (out : List Packet) (peerR : Receiver Chunk)
    (peerS : Sender Chunk) (alive : Prop) (m : Modem) : Prop :=
  ∃ s r queue, Side before out peerR peerS alive (core m) s r queue ∧ track.Of s r queue

theorem SideAt.sideOf {track : Track} {before : List Chunk} {out : List Packet}
    {peerR : Receiver Chunk} {peerS : Sender Chunk} {alive : Prop} {m : Modem}
    (side : SideAt track before out peerR peerS alive m) : SideOf before out peerR peerS alive m := by
  rcases side with ⟨s, r, queue, side, _⟩
  exact ⟨s, r, queue, side⟩

/-! ### Reading a frame -/

/-- A received frame whose bytes are `bytes`. -/
def frameOf (bytes : List UInt8) : Hdlc.Frame :=
  { count := bytes.length, size := 512, fcs := Hdlc.goodFcs, buf := bytes }

theorem seqByte_fields : ∀ k < 128, (UInt8.ofNat (k <<< 1) &&& 0x1 = 0) ∧
    (UInt8.ofNat (k <<< 1)).toNat >>> 1 = k ∧
    ((UInt8.ofNat (k <<< 1) ||| 1).toNat >>> 1 = k) := by
  decide

theorem seqByte_even (n : Nat) : seqByte n &&& 0x1 = 0 :=
  (seqByte_fields (n % 128) (Nat.mod_lt n (by decide))).1

theorem seqByte_shift (n : Nat) : (seqByte n).toNat >>> 1 = n % 128 :=
  (seqByte_fields (n % 128) (Nat.mod_lt n (by decide))).2.1

theorem seqByte_pf_shift (n : Nat) {pf : UInt8} (bit : pf = 0 ∨ pf = 1) :
    (seqByte n ||| pf).toNat >>> 1 = n % 128 := by
  rcases bit with zero | one
  · rw [zero, UInt8.or_zero]
    exact seqByte_shift n
  · rw [one]
    exact (seqByte_fields (n % 128) (Nat.mod_lt n (by decide))).2.2

section Read

variable (addr ctrl pf : UInt8) (seq ack : Nat) (chunk : Chunk)

theorem info_type : Frame.type (frameOf ([addr, seqByte seq, seqByte ack] ++ chunk)) =
    Modem.frameI := by
  simp [Frame.type, Frame.ctrl, frameOf, seqByte_even]

theorem info_ns : Frame.ns (frameOf ([addr, seqByte seq, seqByte ack] ++ chunk)) = seq % 128 :=
  seqByte_shift seq

theorem info_nr : Frame.nr (frameOf ([addr, seqByte seq, seqByte ack] ++ chunk)) = ack % 128 :=
  seqByte_shift ack

theorem forall_byte {p : UInt8 → Prop} (each : ∀ k < 256, p (UInt8.ofNat k)) (x : UInt8) : p x := by
  have here := each x.toNat (UInt8.toNat_lt x)
  rwa [UInt8.ofNat_toNat] at here

theorem odd_of_low (x : UInt8) : x &&& 0x3 = 0x1 ∨ x &&& 0x3 = 0x3 → x &&& 0x1 ≠ 0 := by
  revert x
  apply forall_byte
  decide +kernel

theorem super_type (kind : ctrl &&& 0x3 = 0x1) :
    Frame.type (frameOf [addr, ctrl, seqByte ack ||| pf]) = Modem.frameS := by
  have odd := odd_of_low ctrl (Or.inl kind)
  change (if ctrl &&& 0x1 ≠ 0 then ctrl &&& 0x3 else Modem.frameI) = Modem.frameS
  rw [if_pos odd, kind]
  rfl

theorem super_nr (bit : pf = 0 ∨ pf = 1) :
    Frame.nr (frameOf [addr, ctrl, seqByte ack ||| pf]) = ack % 128 :=
  seqByte_pf_shift ack bit

theorem unnum_type {bytes : List UInt8} (kind : bytes.getD 1 0 &&& 0x3 = 0x3) :
    Frame.type (frameOf bytes) = Modem.frameU := by
  have odd := odd_of_low _ (Or.inr kind)
  change (if bytes.getD 1 0 &&& 0x1 ≠ 0 then bytes.getD 1 0 &&& 0x3 else Modem.frameI) = _
  rw [if_pos odd, kind]
  rfl

theorem pf_bit (f : Hdlc.Frame) : Frame.pf f = 0 ∨ Frame.pf f = 1 := by
  unfold Frame.pf
  generalize f.buf.getD 2 0 = x
  revert x
  apply forall_byte
  decide +kernel

end Read

/-! ### What does not touch the fields -/

section Unchanged

variable (m : Modem)

theorem modemSetState_lapm (newState : ModemState) :
    (m.modemSetState newState).lapm = m.lapm := by
  unfold Modem.modemSetState
  split
  · rfl
  · cases newState <;> rfl

theorem modemSetState_taken (newState : ModemState) :
    (m.modemSetState newState).taken = m.taken := by
  unfold Modem.modemSetState
  split
  · rfl
  · cases newState <;> rfl

theorem modemSetState_out (newState : ModemState) :
    (m.modemSetState newState).out = m.out := by
  unfold Modem.modemSetState
  split
  · rfl
  · cases newState <;> rfl

structure Quiet (m m' : Modem) : Prop where
  lapm : m'.lapm = m.lapm
  taken : m'.taken = m.taken
  delivered : delivered m' = delivered m

variable {m}

theorem Quiet.trans {m₁ m' : Modem} (first : Quiet m m₁) (second : Quiet m₁ m') : Quiet m m' :=
  { lapm := second.lapm.trans first.lapm
    taken := second.taken.trans first.taken
    delivered := second.delivered.trans first.delivered }

theorem Quiet.core {m' : Modem} (quiet : Quiet m m') : core m' = core m := by
  unfold Lapm.core
  rw [quiet.lapm, quiet.taken, quiet.delivered]

theorem quiet_setState (m : Modem) (newState : ModemState) : Quiet m (m.modemSetState newState) :=
  { lapm := modemSetState_lapm m newState
    taken := modemSetState_taken m newState
    delivered := by rw [delivered, delivered, modemSetState_out] }

theorem quiet_scheduled (m : Modem) : Quiet m m.defaultResult.scheduleModemStop := by
  unfold Modem.defaultResult
  split
  · exact ⟨rfl, rfl, rfl⟩
  · exact ⟨rfl, rfl, rfl⟩

theorem quiet_hup (m : Modem) (isLocal : Bool)
    (remote : m.state = .ecEstab ∨ m.state = .modemOnline ∨ m.state = .commandOnline →
      isLocal = false) : Quiet m (m.modemHup isLocal) := by
  unfold Modem.modemHup
  cases stateEq : m.state with
  | modemIdle => exact ⟨rfl, rfl, rfl⟩
  | dpEstab => exact (quiet_setState m .dpDisc).trans (quiet_scheduled _)
  | ecEstab | modemOnline | commandOnline =>
      have notLocal := remote (by simp [stateEq])
      simp only [notLocal, Bool.false_and, Bool.false_eq_true, if_false]
      exact (quiet_setState m .dpDisc).trans (quiet_scheduled _)
  | ecDisc => exact quiet_setState m .dpDisc
  | dpDisc => exact ⟨rfl, rfl, rfl⟩

theorem quiet_code (m : Modem) (code : ModemResult) : Quiet m { m with resultCode := code } :=
  ⟨rfl, rfl, rfl⟩

theorem quiet_release (m : Modem) : Quiet m (m.modemUpdateStatus .ecRelease) := by
  apply (quiet_code m .nocarrier).trans
  apply quiet_hup
  intro linked
  change m.state = _ ∨ m.state = _ ∨ m.state = _ at linked
  rcases linked with linked | linked | linked <;> simp [linked]

theorem quiet_ecError (m : Modem) : Quiet m (m.modemUpdateStatus .ecError) := quiet_release m

theorem quiet_link (m : Modem) : Quiet m (m.modemUpdateStatus .ecLink) := by
  have logged : Quiet m m.logLink := ⟨rfl, rfl, rfl⟩
  change Quiet m ((m.logLink.modemSetState .modemOnline).modemReportResult .connect)
  apply (logged.trans (quiet_setState m.logLink .modemOnline)).trans
  rw [Modem.report_eq]
  refine ⟨rfl, rfl, ?_⟩
  cases quiet : (m.logLink.modemSetState .modemOnline).isQuiet with
  | true => simp [delivered, Modem.printed, quiet]
  | false => simp [delivered, Modem.printed, quiet, deliveredOf]

theorem quiet_error (m : Modem) : Quiet m (m.modemUpdateStatus .error) := by
  apply (quiet_code m .nocarrier).trans
  apply quiet_hup
  intro linked
  change m.state = _ ∨ m.state = _ ∨ m.state = _ at linked
  rcases linked with linked | linked | linked <;> simp [linked, ModemState.disc]

end Unchanged

end DModem.Lapm
