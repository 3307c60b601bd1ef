/-
What LAPM handlers are made of keeps the two flows of an end.

The lemmas follow `modem_ec.c`: queueing a control frame, acknowledging, going
back, prefetching, taking received data, and fetching a frame to transmit.
-/

import DModem.Lapm.Endpoint
import DModem.Modem.Effects

namespace DModem.Lapm

open DModem.Lib

section Operations

variable {track : Track} {before : List Chunk} {out : List Packet} {peerR : Receiver Chunk}
  {peerS : Sender Chunk} {alive : Prop} {m : Modem}

theorem SideAt.of_core {m' : Modem} (side : SideAt track before out peerR peerS alive m)
    (same : core m' = core m) : SideAt track before out peerR peerS alive m' := by
  unfold SideAt
  rw [same]
  exact side

theorem SideAt.weaken {alive' : Prop} (side : SideAt track before out peerR peerS alive m)
    (fewer : alive' → alive) : SideAt track before out peerR peerS alive' m := by
  obtain ⟨s, r, queue, side, tracks⟩ := side
  exact ⟨s, r, queue, { side with rep := fun still => side.rep (fewer still) }, tracks⟩

theorem SideAt.live (side : SideAt track before out peerR peerS alive m) (isAlive : alive) :
    SideAt track before out peerR peerS True m :=
  side.weaken fun _ => isAlive

theorem SideAt.of_live (side : SideAt track before out peerR peerS True m) :
    SideAt track before out peerR peerS alive m :=
  side.weaken fun _ => trivial

/-! ### Control frames -/

theorem Side.putCtrl {s : Sender Chunk} {r : Receiver Chunk} {queue : List Packet}
    (side : Side before out peerR peerS alive (core m) s r queue) (tracks : track.Of s r queue)
    (packet : Packet) {bytes : List UInt8} (encodes : Encodes packet bytes)
    (noData : packet.data? = none) (other : track.quiet → ¬ packet.Sabme)
    (flow : Flow lapmMaxWinSize peerS { r with acks := acksOf (out ++ (queue ++ [packet])) }) :
    SideAt track before out peerR peerS alive (m.putCtrl bytes) := by
  unfold Modem.putCtrl
  by_cases full : nextCtrl m.lapm.ctrlList = m.lapm.txCtrl
  · rw [if_pos full]
    exact ⟨s, r, queue, side, tracks⟩
  · rw [if_neg full]
    have still : track.quiet → ∀ waiting ∈ queue ++ [packet], ¬ waiting.Sabme := by
      intro quiet waiting member
      rcases List.mem_append.mp member with old | new
      · exact tracks.2.2 quiet waiting old
      · rw [List.mem_singleton] at new
        rw [new]
        exact other quiet
    refine ⟨s, { r with acks := acksOf (out ++ (queue ++ [packet])) }, queue ++ [packet], ?_,
      tracks.1, tracks.2.1, still⟩
    constructor
    · exact side.flowOut
    · exact flow
    · exact side.data
    · rfl
    · exact side.ctrlLt
    · exact Nat.mod_lt _ (by decide)
    · have pushed := ringItems_push m.lapm.ctrlBuf side.ctrlLt side.ctrlListLt full bytes
      simp only [Core.queue, core, nextCtrl] at pushed ⊢
      rw [pushed]
      exact List.rel_append side.queued (.cons encodes .nil)
    · intro other member
      rcases List.mem_append.mp member with old | new
      · exact side.noData other old
      · rw [List.mem_singleton] at new
        rw [new]
        exact noData
    · exact side.taken
    · exact side.counted
    · exact side.terminal
    · intro live
      exact { side.rep live with }

theorem SideAt.putUnnum (side : SideAt track before out peerR peerS alive m) (bytes : List UInt8)
    (kind : bytes.getD 1 0 &&& 0x3 = 0x3)
    (other : track.quiet → bytes.getD 1 0 &&& 0xef ≠ Modem.frameUSabme) :
    SideAt track before out peerR peerS alive (m.putCtrl bytes) := by
  obtain ⟨s, r, queue, side, tracks⟩ := side
  apply side.putCtrl tracks (.unnum bytes)
  · exact .unnum bytes kind
  · rfl
  · exact other
  · have sameAcks : acksOf (out ++ (queue ++ [Packet.unnum bytes])) = r.acks := by
      rw [side.acks, ← List.append_assoc, acksOf_append]
      simp [acksOf, Packet.ack?]
    rw [sameAcks]
    exact side.flowIn

theorem SideAt.txUnnum (side : SideAt track before out peerR peerS alive m) (addr ctrl : UInt8)
    (kind : ctrl &&& 0x3 = 0x3) (other : track.quiet → ctrl &&& 0xef ≠ Modem.frameUSabme) :
    SideAt track before out peerR peerS alive (m.txUnnum addr ctrl) :=
  side.putUnnum [addr, ctrl] kind other

theorem SideAt.txXid (side : SideAt track before out peerR peerS alive m) (addr : UInt8) :
    SideAt track before out peerR peerS alive (m.txXid addr) :=
  side.putUnnum (m.xidFrame addr) (show Modem.frameUXid &&& 0x3 = 0x3 by decide)
    fun _ => (show Modem.frameUXid &&& 0xef ≠ Modem.frameUSabme by decide)

theorem SideAt.txSuper (side : SideAt track before out peerR peerS True m) (addr ctrl : UInt8)
    {pf : UInt8} (kind : ctrl &&& 0x3 = 0x1) (bit : pf = 0 ∨ pf = 1) :
    SideAt track before out peerR peerS True (m.txSuper addr ctrl pf) := by
  obtain ⟨s, r, queue, side, tracks⟩ := side
  have vr : m.lapm.vr = r.vr % 128 := (side.rep trivial).vr
  unfold Modem.txSuper
  rw [vr]
  apply side.putCtrl tracks (.super r.vr)
  · exact .super addr ctrl pf r.vr kind bit
  · rfl
  · exact fun _ => id
  · have moreAcks : acksOf (out ++ (queue ++ [Packet.super r.vr])) = r.acks ++ [r.vr] := by
      rw [side.acks, ← List.append_assoc, acksOf_append]
      simp [acksOf, Packet.ack?]
    rw [moreAcks]
    exact side.flowIn.respond

theorem SideAt.txRr (side : SideAt track before out peerR peerS True m) (addr : UInt8) {pf : UInt8}
    (bit : pf = 0 ∨ pf = 1) : SideAt track before out peerR peerS True (m.txRr addr pf) :=
  side.txSuper addr _ (by decide) bit

theorem SideAt.txRnr (side : SideAt track before out peerR peerS True m) (addr : UInt8) {pf : UInt8}
    (bit : pf = 0 ∨ pf = 1) : SideAt track before out peerR peerS True (m.txRnr addr pf) :=
  side.txSuper addr _ (by decide) bit

theorem SideAt.txRej (side : SideAt track before out peerR peerS True m) (addr : UInt8) {pf : UInt8}
    (bit : pf = 0 ∨ pf = 1) : SideAt track before out peerR peerS True (m.txRej addr pf) :=
  side.txSuper addr _ (by decide) bit

theorem SideAt.txReady (side : SideAt track before out peerR peerS True m) (addr : UInt8) {pf : UInt8}
    (bit : pf = 0 ∨ pf = 1) : SideAt track before out peerR peerS True (m.txReady addr pf) := by
  unfold Modem.txReady
  split
  · exact side.txRnr addr bit
  · exact side.txRr addr bit

/-! ### Acknowledging and going back -/

theorem core_ackTimer (m : Modem) (n : Nat) : core (m.ackTimer n) = core m := by
  unfold Modem.ackTimer
  split
  · split
    · rfl
    · rfl
  · rfl

theorem Core.Rep.ring_length {c : Core} {s : Sender Chunk} {r : Receiver Chunk}
    (rep : c.Rep s r) : ringLength lapmInfoFrames c.sentInfo c.infoList = s.items.length - s.va := by
  have lengths := congrArg List.length rep.items
  rwa [ringItems_length, List.length_drop] at lengths

theorem SideAt.ackInfo {a : Nat} {rest : List Nat}
    (side : SideAt track before out { peerR with acks := a :: rest } peerS True m) :
    SideAt track before out { peerR with acks := rest } peerS True (m.ackInfo (a % 128)) := by
  obtain ⟨s, r, queue, side, tracks⟩ := side
  have rep := side.rep trivial
  have flow := side.flowOut
  have low := flow.acksLow a List.mem_cons_self
  have high := flow.acksHigh a List.mem_cons_self
  have sent := flow.sent
  have assigned := flow.assigned
  have filled := flow.filled
  have window := flow.window
  have expected := flow.expected
  simp only [lapmMaxWinSize] at high expected window
  have vaEq : m.lapm.va = s.va % 128 := rep.va
  have vsEq : m.lapm.vs = s.vs % 128 := rep.vs
  have winEq : m.lapm.txWinSize = 15 := rep.window
  have inWindow : seqSub m.lapm.vs m.lapm.va ≤ m.lapm.txWinSize := by
    rw [vaEq, vsEq, winEq, Modem.seqSub_mod sent (by omega)]
    omega
  have loop := Modem.ackLoop_spec 128 m.lapm s.va s.vs a low sent (by omega) (by omega) vaEq rep.sentLt
    rep.next (by omega)
  unfold Modem.ackInfo
  rw [if_neg (by simp [inWindow]), loop]
  apply SideAt.of_core _ (core_ackTimer _ _)
  refine ⟨{ s with va := min a s.vs }, r, queue, ?_, tracks⟩
  constructor
  · exact flow.acknowledge
  · exact side.flowIn
  · exact side.data
  · exact side.acks
  · exact side.ctrlLt
  · exact side.ctrlListLt
  · exact side.queued
  · exact side.noData
  · exact side.taken
  · exact side.counted
  · exact side.terminal
  · intro live
    constructor
    · rfl
    · exact rep.vs
    · exact rep.vr
    · exact rep.window
    · exact Nat.mod_lt _ (by decide)
    · exact rep.listLt
    · simp only [core, Nat.mod_add_mod]
      rw [show m.lapm.txInfo = _ from rep.next]
      congr 1
      simp only [core]
      omega
    · have lengths := rep.ring_length
      have dropped := ringItems_drop (fun i => (m.lapm.infoBuf i).info) rep.sentLt rep.listLt
        (show min a s.vs - s.va ≤ _ by rw [lengths]; omega)
      have items := rep.items
      simp only [core] at dropped items ⊢
      rw [dropped, items, List.drop_drop]
      congr 1
      omega
    · exact rep.held

theorem SideAt.rejectInfo (side : SideAt track before out peerR peerS True m) :
    SideAt track before out peerR peerS True m.rejectInfo := by
  unfold Modem.rejectInfo
  split
  · exact side
  · obtain ⟨s, r, queue, side, tracks⟩ := side
    have rep := side.rep trivial
    refine ⟨{ s with vs := s.va }, r, queue, ?_, tracks⟩
    refine { side with flowOut := side.flowOut.rewind, rep := fun _ => ?_ }
    refine { rep with vs := rep.va, next := ?_ }
    have sentLt := rep.sentLt
    simp only [core, Nat.sub_self, Nat.add_zero] at sentLt ⊢
    exact (Nat.mod_eq_of_lt sentLt).symm

/-! ### Prefetching -/

theorem info_update (infoBuf : Nat → InfoSlot) (i : Nat) (slot : InfoSlot) :
    (fun k => (Function.update infoBuf i slot k).info) =
      Function.update (fun k => (infoBuf k).info) i slot.info := by
  funext k
  by_cases same : k = i
  · rw [same, Function.update_self, Function.update_self]
  · rw [Function.update_of_ne same, Function.update_of_ne same]

theorem Core.Rep.drained {c : Core} {s : Sender Chunk} {r : Receiver Chunk} (rep : c.Rep s r)
    (flow : Flow lapmMaxWinSize s peerR) : c.txInfo = c.infoList ↔ s.vs = s.items.length := by
  have sent := flow.sent
  have assigned := flow.assigned
  have filled := flow.filled
  have window := flow.window
  simp only [lapmMaxWinSize] at window
  have lengths := rep.ring_length
  have last := ring_last rep.sentLt rep.listLt
  rw [lengths] at last
  have sentLt := rep.sentLt
  rw [rep.next, ← last]
  simp only [lapmInfoFrames, lapmMaxWinSize] at sentLt ⊢
  omega

theorem SideAt.txInfo (side : SideAt track before out peerR peerS True m) (chars : Chars) :
    SideAt track before out peerR peerS True (m.txInfo chars).1 ∧
      ((m.txInfo chars).2 = true →
        (m.txInfo chars).1.lapm.txInfo ≠ (m.txInfo chars).1.lapm.infoList) := by
  obtain ⟨s, r, queue, side, tracks⟩ := side
  have same : SideAt track before out peerR peerS True m := ⟨s, r, queue, side, tracks⟩
  have rep := side.rep trivial
  have flow := side.flowOut
  unfold Modem.txInfo
  simp only
  by_cases closed : (m.lapm.peerBusy || decide (m.lapm.txWinSize ≤ seqSub m.lapm.vs m.lapm.va))
  · rw [if_pos closed]
    exact ⟨same, by simp⟩
  rw [if_neg closed]
  by_cases empty : m.lapm.txInfo = m.lapm.infoList
  · rw [if_pos empty]
    by_cases full : nextInfo m.lapm.infoList = m.lapm.txInfo ∨
        nextInfo m.lapm.infoList = m.lapm.sentInfo
    · rw [if_pos full]
      exact ⟨same, by simp⟩
    rw [if_neg full]
    by_cases absent : m.getChars = none
    · rw [if_pos absent]
      exact ⟨same, by simp⟩
    rw [if_neg absent]
    cases given : chars.get with
    | none => exact ⟨same.of_core (quiet_ecError m).core, by simp⟩
    | some bytes =>
        by_cases nothing : bytes.take m.lapm.txInfoSize = []
        · simp only [nothing, if_true]
          exact ⟨same, by simp⟩
        simp only [nothing, if_false]
        refine ⟨?_, fun _ equal => full (Or.inl equal.symm)⟩
        have atEnd : s.vs = s.items.length := (rep.drained flow).mp empty
        have sent := flow.sent
        have room : s.items.length < s.va + lapmMaxWinSize := by
          simp only [Bool.or_eq_true, decide_eq_true_eq, not_or, Nat.not_le] at closed
          have open' := closed.2
          rw [show m.lapm.vs = s.vs % 128 from rep.vs, show m.lapm.va = s.va % 128 from rep.va,
            show m.lapm.txWinSize = lapmMaxWinSize from rep.window] at open'
          have window := flow.window
          simp only [lapmMaxWinSize] at open' window ⊢
          rw [Modem.seqSub_mod sent (by omega)] at open'
          omega
        have free : nextInfo m.lapm.infoList ≠ m.lapm.sentInfo := fun equal =>
          full (Or.inr equal)
        refine ⟨{ s with items := s.items ++ [bytes.take m.lapm.txInfoSize] }, r, queue, ?_,
          tracks⟩
        refine { side with flowOut := flow.fill _ room, taken := ?_, rep := fun _ => ?_ }
        · have taken := side.taken
          simp only [core] at taken ⊢
          rw [taken, List.append_assoc]
        · refine { rep with listLt := Nat.mod_lt _ (by decide), items := ?_ }
          have pushed := ringItems_push (fun i => (m.lapm.infoBuf i).info) rep.sentLt rep.listLt
            free (bytes.take m.lapm.txInfoSize)
          have items := rep.items
          simp only [core, nextInfo, info_update] at pushed items ⊢
          rw [pushed, items, List.drop_append_of_le_length (by omega)]
  · rw [if_neg empty]
    exact ⟨same, fun _ => empty⟩

/-! ### Received data -/

/-- `put_chars` accepts a beginning of what it is offered. -/
theorem callPutChars_spec (m : Modem) (chars : Chars) (bytes : List UInt8) (n : Int) :
    ∃ k : Nat, k ≤ n.toNat ∧ (m.callPutChars chars bytes n).2 = k ∧
      (m.callPutChars chars bytes n).1.lapm = m.lapm ∧
      (m.callPutChars chars bytes n).1.taken = m.taken ∧
      delivered (m.callPutChars chars bytes n).1 = delivered m ++ bytes.take k := by
  unfold Modem.callPutChars
  split
  · exact ⟨0, Nat.zero_le _, rfl, rfl, rfl, by simp⟩
  · refine ⟨min chars.accept n.toNat, Nat.min_le_right _ _, by simp, ?_⟩
    simp only
    split
    · have quiet := quiet_error
        { m with out := m.out ++ [.data (bytes.take (min chars.accept n.toNat))] }
      refine ⟨quiet.lapm, quiet.taken, ?_⟩
      rw [quiet.delivered]
      simp [delivered, deliveredOf]
    · refine ⟨rfl, rfl, ?_⟩
      simp [delivered, deliveredOf]

theorem Side.rest_nil {s : Sender Chunk} {r : Receiver Chunk} {queue : List Packet} {c : Core}
    (side : Side before out peerR peerS True c s r queue) (idle : c.busy = false) :
    c.rxCount = 0 ∧ c.rest = [] := by
  have none : c.rxCount = 0 := by
    by_contra some
    rw [(side.rep trivial).held some] at idle
    cases idle
  have counted := side.counted
  rw [none] at counted
  exact ⟨none, List.eq_nil_of_length_eq_zero (by omega)⟩

def incrVr (m : Modem) : Modem := { m with lapm := { m.lapm with vr := seqNext m.lapm.vr } }

theorem SideAt.accept {seq : Nat} {item : Chunk} {later : List (Nat × Chunk)}
    (side : SideAt track before out peerR { peerS with data := (seq, item) :: later } True m)
    (idle : m.lapm.busy = false) (wanted : seq % 128 = m.lapm.vr) (f : Hdlc.Frame)
    (count : f.count = 3 + item.length) (buf : f.buf.drop 3 = item) (chars : Chars) :
    SideAt { track with vr := track.vr + 1 } before out peerR { peerS with data := later } True
      (incrVr (m.recvInfo f chars)) := by
  obtain ⟨s, r, queue, side, tracks⟩ := side
  have rep := side.rep trivial
  have vr : m.lapm.vr = r.vr % 128 := rep.vr
  have seqEq : seq = r.vr := by
    apply side.flowIn.expected_of_mod (n := 128) (by decide) (p := (seq, item))
      List.mem_cons_self
    rw [← vr]
    exact wanted
  subst seqEq
  have nEq : (f.count : Int) - 3 = item.length := by omega
  obtain ⟨noRest, restNil⟩ := side.rest_nil idle
  have terminal := side.terminal
  rw [restNil, List.append_nil] at terminal
  obtain ⟨k, kLe, retEq, lapmEq, takenEq, deliveredEq⟩ :=
    callPutChars_spec m chars item item.length
  rw [Int.toNat_natCast] at kLe
  have vrNext : seqNext m.lapm.vr = (r.vr + 1) % 128 := by
    rw [vr, seqNext]
    omega
  refine ⟨s, { r with vr := r.vr + 1, received := r.received ++ [item] }, queue, ?_, tracks.1,
    congrArg (· + 1) tracks.2.1, tracks.2.2⟩
  by_cases whole : k = item.length
  · have coreEq : core (incrVr (m.recvInfo f chars)) =
        { core m with vr := (r.vr + 1) % 128, delivered := delivered m ++ item } := by
      unfold Modem.recvInfo incrVr core
      simp only [nEq, buf, retEq, whole, ne_eq, not_true, if_false, lapmEq, takenEq, vrNext]
      congr 1
      change delivered (m.callPutChars chars item item.length).1 = _
      rw [deliveredEq, whole, List.take_length]
    rw [coreEq]
    refine { side with flowIn := side.flowIn.accept, terminal := ?_, rep := fun _ => ?_ }
    · change delivered m ++ item ++ (core m).rest = _
      rw [restNil, List.append_nil, List.flatten_append, ← terminal]
      simp [core]
    · exact { rep with vr := rfl }
  · have coreEq : core (incrVr (m.recvInfo f chars)) =
        { core m with
          vr := (r.vr + 1) % 128
          delivered := delivered m ++ item.take k
          rxHead := 0
          rxCount := item.length - k
          rxBuf := item.drop k
          busy := true } := by
      have partly : ((k : Int) = item.length) ↔ False := iff_false_intro (by omega)
      have restEq : (f.buf.drop (3 + k)).take ((item.length : Int) - k).toNat = item.drop k := by
        rw [← List.drop_drop, buf]
        apply List.take_of_length_le
        rw [List.length_drop]
        omega
      unfold Modem.recvInfo incrVr core
      simp only [nEq, buf, retEq, partly, ne_eq, not_false_iff, if_true, lapmEq, takenEq, vrNext,
        Int.toNat_natCast, restEq]
      congr 1
    rw [coreEq]
    have restEq : Core.rest
        { core m with
          vr := (r.vr + 1) % 128
          delivered := delivered m ++ item.take k
          rxHead := 0
          rxCount := item.length - k
          rxBuf := item.drop k
          busy := true } = item.drop k := by
      simp only [Core.rest, List.drop_zero]
      apply List.take_of_length_le
      rw [List.length_drop]
      omega
    refine { side with
      flowIn := side.flowIn.accept
      counted := ?_
      terminal := ?_
      rep := fun _ => ?_ }
    · rw [restEq, List.length_drop]
      simp only
      omega
    · rw [restEq, List.flatten_append, ← terminal]
      simp [core]
    · exact { rep with vr := rfl, held := fun _ => rfl }

section Push

variable {s : Sender Chunk} {r : Receiver Chunk} {queue : List Packet} {c : Core}

theorem Side.push_part (side : Side before out peerR peerS alive c s r queue) {k : Nat}
    (within : k < c.rest.length) :
    Side before out peerR peerS alive
      { c with
        delivered := c.delivered ++ c.rest.take k
        rxHead := c.rxHead + k
        rxCount := c.rxCount - k } s r queue := by
  have counted := side.counted
  have restEq : (c.rxBuf.drop (c.rxHead + k)).take (c.rxCount - k).toNat = c.rest.drop k := by
    rw [Core.rest, List.drop_take, List.drop_drop]
    congr 1
    omega
  refine { side with counted := ?_, terminal := ?_, rep := fun live => ?_ }
  · change c.rxCount - k = ((c.rxBuf.drop (c.rxHead + k)).take (c.rxCount - k).toNat).length
    rw [restEq, List.length_drop]
    omega
  · change c.delivered ++ c.rest.take k ++
      (c.rxBuf.drop (c.rxHead + k)).take (c.rxCount - k).toNat = _
    rw [restEq, List.append_assoc, List.take_append_drop]
    exact side.terminal
  · refine { side.rep live with held := fun _ => ?_ }
    apply (side.rep live).held
    omega

theorem Side.push_all (side : Side before out peerR peerS alive c s r queue) :
    Side before out peerR peerS alive
      { c with
        delivered := c.delivered ++ c.rest
        rxHead := 0
        rxCount := 0
        busy := false } s r queue := by
  refine { side with counted := ?_, terminal := ?_, rep := fun live => ?_ }
  · simp [Core.rest]
  · have terminal := side.terminal
    simp only [Core.rest, Int.toNat_zero, List.take_zero, List.append_nil] at terminal ⊢
    exact terminal
  · exact { side.rep live with held := fun some => absurd rfl some }

end Push

theorem SideAt.pushRestData (side : SideAt track before out peerR peerS alive m)
    (live : m.lapm.state = .data → alive) (chars : Chars) :
    SideAt track before out peerR peerS alive (m.pushRestData chars) := by
  unfold Modem.pushRestData
  by_cases open' : m.lapm.state = .data
  · rw [if_neg (fun closed => closed open')]
    split
    · apply SideAt.of_live
      obtain ⟨s, r, queue, side, tracks⟩ := side.live (live open')
      have counted : m.lapm.rxCount = (core m).rest.length := side.counted
      obtain ⟨k, kLe, retEq, lapmEq, takenEq, deliveredEq⟩ := callPutChars_spec m chars
        (m.lapm.rxBuf.drop m.lapm.rxHead) m.lapm.rxCount
      have takeEq : (m.lapm.rxBuf.drop m.lapm.rxHead).take k = (core m).rest.take k := by
        change _ = ((m.lapm.rxBuf.drop m.lapm.rxHead).take m.lapm.rxCount.toNat).take k
        rw [List.take_take, Nat.min_eq_left kLe]
      rw [takeEq] at deliveredEq
      simp only [retEq, lapmEq]
      by_cases some : (0 : Int) < k
      · rw [if_pos some]
        by_cases all : m.lapm.rxCount - k = 0
        · rw [if_pos all]
          apply SideAt.of_core (m := Modem.txRr _ _ 0) _ rfl
          apply SideAt.txRr _ _ (Or.inl rfl)
          refine ⟨s, r, queue, ?_, tracks⟩
          convert side.push_all using 1
          rw [List.take_of_length_le (by omega)] at deliveredEq
          simp only [core, all, takenEq]
          congr 1
        · rw [if_neg all]
          refine ⟨s, r, queue, ?_, tracks⟩
          convert side.push_part (k := k) (by omega) using 1
          simp only [core, takenEq, Int.toNat_natCast]
          congr 1
      · rw [if_neg some]
        have none : k = 0 := by omega
        refine ⟨s, r, queue, ?_, tracks⟩
        rw [none, List.take_zero, List.append_nil] at deliveredEq
        have quiet : Quiet m (m.callPutChars chars (m.lapm.rxBuf.drop m.lapm.rxHead)
            m.lapm.rxCount).1 := ⟨lapmEq, takenEq, deliveredEq⟩
        rw [quiet.core]
        exact side
    · exact side
  · rw [if_pos open']
    exact side

/-! ### Fetching a frame -/

theorem txInfo_ctrl (m : Modem) (chars : Chars) :
    (m.txInfo chars).1.lapm.txCtrl = m.lapm.txCtrl ∧
      (m.txInfo chars).1.lapm.ctrlList = m.lapm.ctrlList := by
  unfold Modem.txInfo
  simp only
  split_ifs
  · exact ⟨rfl, rfl⟩
  · exact ⟨rfl, rfl⟩
  · exact ⟨rfl, rfl⟩
  · cases chars.get with
    | none =>
        simp only [(quiet_ecError m).lapm]
        exact ⟨trivial, trivial⟩
    | some bytes =>
        simp only
        split
        · exact ⟨rfl, rfl⟩
        · exact ⟨rfl, rfl⟩
  · exact ⟨rfl, rfl⟩

theorem core_sendInfo (m : Modem) :
    core m.sendInfo.1 =
      { core m with txInfo := nextInfo m.lapm.txInfo, vs := seqNext m.lapm.vs } := by
  have infoEq : (fun i => (Function.update m.lapm.infoBuf m.lapm.txInfo
      { m.lapm.infoBuf m.lapm.txInfo with
        ctrl := [m.lapm.cmdAddr, UInt8.ofNat (m.lapm.vs <<< 1),
          UInt8.ofNat (m.lapm.vr <<< 1)] } i).info) = fun i => (m.lapm.infoBuf i).info := by
    rw [info_update]
    exact Function.update_eq_self _ _
  unfold Modem.sendInfo
  simp only
  split
  · simp only [core, Modem.timerStart, infoEq]
    rfl
  · simp only [core, infoEq]
    rfl

def Track.sent (track : Track) (m : Modem) : Track :=
  { track with top := if m.lapm.vs = track.top % 128 then track.top + 1 else track.top }

/-- What is followed of an end that hands the frame `packet` to its transmitter. -/
def Track.after (track : Track) (m : Modem) (packet : Packet) : Track :=
  if packet.data? = none then track else track.sent m

theorem SideAt.sendInfo (side : SideAt track before out peerR peerS True m)
    (empty : m.lapm.txCtrl = m.lapm.ctrlList) (more : m.lapm.txInfo ≠ m.lapm.infoList)
    {bytes : List UInt8} (sent : m.sendInfo.2 = some bytes) :
    ∃ packet, Encodes packet bytes ∧ packet.data? ≠ none ∧
      SideAt (track.sent m) before (out ++ [packet]) peerR peerS True m.sendInfo.1 := by
  obtain ⟨s, r, queue, side, tracks⟩ := side
  have rep := side.rep trivial
  have flow := side.flowOut
  have none : queue = [] := by
    have queued := side.queued
    have nothing : (core m).queue = [] := by
      unfold Core.queue core
      simp only [← empty]
      exact ringItems_empty side.ctrlLt
    rw [nothing] at queued
    cases queued
    rfl
  have behind : s.vs < s.items.length := by
    have notEnd : s.vs ≠ s.items.length := fun atEnd => more ((rep.drained flow).mpr atEnd)
    have := flow.assigned
    have := flow.filled
    omega
  obtain ⟨chunk, chunkEq⟩ : ∃ chunk, s.items[s.vs] = chunk := ⟨_, rfl⟩
  have sentLe := flow.sent
  have slotEq : (m.lapm.infoBuf m.lapm.txInfo).info = chunk := by
    have within : s.vs - s.va < (ringItems lapmInfoFrames (core m).info (core m).sentInfo
        (core m).infoList).length := by
      rw [rep.items, List.length_drop]
      omega
    have here := ringItems_getElem within
    have there : (ringItems lapmInfoFrames (core m).info (core m).sentInfo
        (core m).infoList)[s.vs - s.va] = chunk := by
      simp only [rep.items, List.getElem_drop, ← chunkEq]
      congr 1
      omega
    rw [there, ← rep.next] at here
    exact here.symm
  have bytesEq : bytes = [m.lapm.cmdAddr, seqByte s.vs, seqByte r.vr] ++ chunk := by
    unfold Modem.sendInfo at sent
    simp only [Option.some.injEq] at sent
    rw [← sent, slotEq, show m.lapm.vs = s.vs % 128 from rep.vs,
      show m.lapm.vr = r.vr % 128 from rep.vr]
    rfl
  have again : max s.top (s.vs + 1) = (track.sent m).top := by
    have assigned := flow.assigned
    have filled := flow.filled
    have window := flow.window
    simp only [lapmMaxWinSize] at window
    rw [Track.sent, ← tracks.1, show m.lapm.vs = s.vs % 128 from rep.vs]
    simp only
    split <;> omega
  refine ⟨.info s.vs chunk r.vr, bytesEq ▸ .info _ _ _ _, Option.some_ne_none _, ?_⟩
  have sends := flow.send (show s.items[s.vs]? = some chunk by
    rw [List.getElem?_eq_getElem behind, chunkEq])
  refine ⟨{ s with
      vs := s.vs + 1
      top := max s.top (s.vs + 1)
      data := s.data ++ [(s.vs, chunk)] }, { r with acks := r.acks ++ [r.vr] }, queue, ?_,
    again, tracks.2⟩
  rw [core_sendInfo]
  refine { side with
    flowOut := sends
    flowIn := side.flowIn.respond
    data := ?_
    acks := ?_
    rep := fun _ => ?_ }
  · simp only [side.data, dataOf_append]
    rfl
  · simp only [side.acks, none, List.append_nil, acksOf_append]
    rfl
  · refine { rep with vs := ?_, next := ?_ }
    · simp only [seqNext, show m.lapm.vs = s.vs % 128 from rep.vs]
      omega
    · simp only [nextInfo, show m.lapm.txInfo = _ from rep.next, Nat.mod_add_mod]
      congr 1
      omega

theorem SideAt.getTxFrame (side : SideAt track before out peerR peerS alive m)
    (live : m.lapm.state = .data → alive) (chars : Chars) :
    ((m.lapmGetTxFrame chars).2 = none →
      SideAt track before out peerR peerS alive (m.lapmGetTxFrame chars).1) ∧
    ∀ bytes, (m.lapmGetTxFrame chars).2 = some bytes → ∃ packet, Encodes packet bytes ∧
      (track.quiet → ¬ packet.Sabme) ∧
      SideAt (track.after m packet) before (out ++ [packet]) peerR peerS alive
        (m.lapmGetTxFrame chars).1 := by
  unfold Modem.lapmGetTxFrame
  simp only
  by_cases ctrl : m.lapm.txCtrl ≠ m.lapm.ctrlList
  · rw [if_pos ctrl]
    refine ⟨by simp, ?_⟩
    intro bytes bytesEq
    rw [Option.some.injEq] at bytesEq
    obtain ⟨s, r, queue, side, tracks⟩ := side
    have queued := side.queued
    have popped := ringItems_pop m.lapm.ctrlBuf side.ctrlLt side.ctrlListLt ctrl
    rw [show (core m).queue = _ from popped] at queued
    cases queued with
    | cons encodes later =>
        rename_i packet queue
        rw [← bytesEq]
        have noData := side.noData packet List.mem_cons_self
        have same : track.after m packet = track := if_pos noData
        refine ⟨packet, encodes, fun quiet => tracks.2.2 quiet packet List.mem_cons_self, ?_⟩
        rw [same]
        refine ⟨s, r, queue, ?_, tracks.1, tracks.2.1,
          fun quiet other member => tracks.2.2 quiet other (List.mem_cons_of_mem packet member)⟩
        refine { side with data := ?_, acks := ?_, ctrlLt := ?_, queued := later, noData := ?_,
                           rep := fun still => { side.rep still with } }
        · rw [side.data, dataOf_append]
          simp [dataOf, noData]
        · rw [side.acks]
          simp
        · exact Nat.mod_lt _ (by decide)
        · intro other member
          exact side.noData other (List.mem_cons_of_mem packet member)
  · rw [if_neg ctrl]
    by_cases closed : (m.lapm.peerBusy || m.lapm.config || decide (m.lapm.state ≠ .data))
    · rw [if_pos closed]
      exact ⟨fun _ => side, by simp⟩
    rw [if_neg closed]
    have open' : m.lapm.state = .data := by
      simp only [Bool.or_eq_true, decide_eq_true_eq, not_or, not_not] at closed
      exact closed.2
    have side' := side.live (live open')
    have ready : SideAt track before out peerR peerS True
        (if m.lapm.txInfo = m.lapm.infoList then m.txInfo chars else (m, true)).1 ∧
        ((if m.lapm.txInfo = m.lapm.infoList then m.txInfo chars else (m, true)).2 = true →
          (if m.lapm.txInfo = m.lapm.infoList then m.txInfo chars else (m, true)).1.lapm.txInfo ≠
          (if m.lapm.txInfo = m.lapm.infoList then m.txInfo chars else (m, true)).1.lapm.infoList)
        := by
      split
      · exact side'.txInfo chars
      · rename_i more
        exact ⟨side', fun _ => more⟩
    have emptyBoth : (if m.lapm.txInfo = m.lapm.infoList then m.txInfo chars
        else (m, true)).1.lapm.txCtrl = (if m.lapm.txInfo = m.lapm.infoList then m.txInfo chars
          else (m, true)).1.lapm.ctrlList := by
      rw [not_not] at ctrl
      split
      · rw [(txInfo_ctrl m chars).1, (txInfo_ctrl m chars).2]
        exact ctrl
      · exact ctrl
    have vs : (if m.lapm.txInfo = m.lapm.infoList then m.txInfo chars
        else (m, true)).1.lapm.vs = m.lapm.vs := by
      split
      · rcases Modem.moves_txInfo m chars with ⟨_, _, _, same, _⟩
        exact congrArg Clock.vs same
      · rfl
    revert ready emptyBoth vs
    generalize (if m.lapm.txInfo = m.lapm.infoList then m.txInfo chars else (m, true)) = sent
    intro ready emptyBoth vs
    by_cases some : sent.2 = true
    · rw [if_pos some]
      refine ⟨by simp [Modem.sendInfo], ?_⟩
      intro bytes bytesEq
      obtain ⟨packet, encodes, data, after⟩ := ready.1.sendInfo emptyBoth (ready.2 some) bytesEq
      have numbered : track.after m packet = track.sent sent.1 := by
        rw [Track.after, if_neg data, Track.sent, Track.sent, vs]
      refine ⟨packet, encodes, fun _ => not_sabme_of_data data, ?_⟩
      rw [numbered]
      exact after.of_live
    · rw [if_neg some]
      exact ⟨fun _ => ready.1.of_live, by simp⟩

end Operations

end DModem.Lapm
