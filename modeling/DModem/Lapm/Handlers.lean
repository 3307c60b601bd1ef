/-
Received information and supervisory frames at one end of a link.

A frame from the peer carries the oldest acknowledgement on the way, and an
information frame also the oldest item.  Whatever the handler does with them, the
two flows go on without them.
-/

import DModem.Lapm.Operations

namespace DModem.Lapm

open DModem.Lib

section Handlers

variable {track : Track} {before : List Chunk} {out : List Packet} {peerR : Receiver Chunk}
  {peerS : Sender Chunk} {alive : Prop} {m : Modem}

theorem SideAt.dropAck {a : Nat} {rest : List Nat}
    (side : SideAt track before out { peerR with acks := a :: rest } peerS alive m) :
    SideAt track before out { peerR with acks := rest } peerS alive m := by
  obtain ⟨s, r, queue, side, tracks⟩ := side
  exact ⟨s, r, queue, { side with
    flowOut := side.flowOut.lose (List.Sublist.refl _) (List.sublist_cons_self a rest) }, tracks⟩

theorem SideAt.dropData {p : Nat × Chunk} {rest : List (Nat × Chunk)}
    (side : SideAt track before out peerR { peerS with data := p :: rest } alive m) :
    SideAt track before out peerR { peerS with data := rest } alive m := by
  obtain ⟨s, r, queue, side, tracks⟩ := side
  exact ⟨s, r, queue, { side with
    flowIn := side.flowIn.lose (List.sublist_cons_self p rest) (List.Sublist.refl _) }, tracks⟩

/-! ### Information frames -/

theorem SideAt.respondInfo (side : SideAt track before out peerR peerS True m) (f : Hdlc.Frame)
    (chars : Chars) : SideAt track before out peerR peerS True (m.respondInfo f chars) := by
  have bit := pf_bit f
  unfold Modem.respondInfo
  split
  · exact side.txRnr _ bit
  · split
    · exact side.txRr _ bit
    · simp only
      split
      · exact (side.txInfo chars).1
      · exact (side.txInfo chars).1.txRr _ bit

theorem SideAt.rxInfo {seq ack : Nat} {chunk : Chunk} {acks : List Nat}
    {later : List (Nat × Chunk)} (addr : UInt8)
    (side : SideAt track before out { peerR with acks := ack :: acks }
      { peerS with data := (seq, chunk) :: later } True m) (chars : Chars) :
    ∃ vr, SideAt { track with vr := vr } before out { peerR with acks := acks }
      { peerS with data := later } True
      (m.rxInfo (frameOf ([addr, seqByte seq, seqByte ack] ++ chunk)) chars) := by
  have bit := pf_bit (frameOf ([addr, seqByte seq, seqByte ack] ++ chunk))
  have acked := side.ackInfo
  unfold Modem.rxInfo
  rw [info_nr, info_ns]
  simp only
  split
  · refine ⟨track.vr, ?_⟩
    split
    · exact acked.dropData.txRnr _ (Or.inr rfl)
    · exact acked.dropData
  · rename_i idle
    split
    · refine ⟨track.vr, ?_⟩
      split
      · exact acked.dropData
      · exact (acked.dropData.txRej _ bit).of_core rfl
    · rename_i wanted
      rw [not_not] at wanted
      refine ⟨track.vr + 1, ?_⟩
      apply SideAt.respondInfo
      have cleared : SideAt track before out { peerR with acks := acks }
          { peerS with data := (seq, chunk) :: later } True
          { m.ackInfo (ack % 128) with
            lapm := { (m.ackInfo (ack % 128)).lapm with reject := false } } :=
        acked.of_core rfl
      apply cleared.accept _ wanted
      · simp only [frameOf, List.length_append, List.length_cons, List.length_nil]
      · rfl
      · simpa using idle

/-! ### Supervisory frames -/

theorem SideAt.answerSuper (side : SideAt track before out peerR peerS True m) (f : Hdlc.Frame)
    (chars : Chars) : SideAt track before out peerR peerS True (m.answerSuper f chars) := by
  have bit := pf_bit f
  unfold Modem.answerSuper
  split
  · exact side.txReady _ bit
  · simp only
    split
    · exact (side.txInfo chars).1
    · exact (side.txInfo chars).1.txReady _ bit

theorem SideAt.peerAck {a : Nat} {rest : List Nat} (peerBusy : Bool)
    (side : SideAt track before out { peerR with acks := a :: rest } peerS True m) :
    SideAt track before out { peerR with acks := rest } peerS True
      ((m.setPeerBusy peerBusy).ackInfo (a % 128)) := by
  have set : SideAt track before out { peerR with acks := a :: rest } peerS True
      (m.setPeerBusy peerBusy) := side.of_core rfl
  exact set.ackInfo

theorem SideAt.timerStop (side : SideAt track before out peerR peerS alive m) :
    SideAt track before out peerR peerS alive m.timerStop :=
  side.of_core rfl

theorem SideAt.timerStart (side : SideAt track before out peerR peerS alive m) :
    SideAt track before out peerR peerS alive m.timerStart :=
  side.of_core rfl

theorem SideAt.rxSuperCmd {a : Nat} {rest : List Nat} (f : Hdlc.Frame)
    (nr : Frame.nr f = a % 128)
    (side : SideAt track before out { peerR with acks := a :: rest } peerS True m) (chars : Chars) :
    SideAt track before out { peerR with acks := rest } peerS True (m.rxSuperCmd f chars) := by
  have bit := pf_bit f
  unfold Modem.rxSuperCmd
  rw [nr]
  split
  · exact (side.peerAck false).answerSuper f chars
  · split
    · simp only
      split
      · exact (side.peerAck true).txReady _ bit
      · exact side.peerAck true
    · split
      · apply SideAt.answerSuper
        split
        · exact (side.peerAck false).timerStop.rejectInfo
        · exact side.peerAck false
      · exact side.dropAck

theorem SideAt.rxSuperRsp {a : Nat} {rest : List Nat} (f : Hdlc.Frame)
    (nr : Frame.nr f = a % 128)
    (side : SideAt track before out { peerR with acks := a :: rest } peerS True m) :
    SideAt track before out { peerR with acks := rest } peerS True (m.rxSuperRsp f) := by
  unfold Modem.rxSuperRsp
  rw [nr]
  split
  · exact side.dropAck
  · split
    · simp only
      split
      · exact (side.peerAck false).rejectInfo.timerStop
      · exact side.peerAck false
    · split
      · simp only
        split
        · split
          · exact (side.peerAck true).rejectInfo.timerStop.timerStart
          · exact (side.peerAck true).rejectInfo.timerStop
        · split
          · exact (side.peerAck true).timerStart
          · exact side.peerAck true
      · split
        · simp only
          split
          · exact (side.peerAck false).rejectInfo.timerStop
          · exact side.peerAck false
        · exact side.dropAck

/-! ### Disconnecting -/

theorem SideAt.reset (side : SideAt track before out peerR peerS False m) :
    SideAt track before out peerR peerS False m.reset := by
  obtain ⟨s, r, queue, side, tracks⟩ := side
  exact ⟨s, r, queue, { side with rep := False.elim }, tracks⟩

theorem SideAt.setPhase (side : SideAt track before out peerR peerS alive m) (phase : LapmPhase) :
    SideAt track before out peerR peerS alive (m.setPhase phase) :=
  side.of_core rfl

theorem SideAt.lapmDisconnect (side : SideAt track before out peerR peerS alive m) :
    SideAt track before out peerR peerS alive m.lapmDisconnect :=
  ((side.setPhase .disc).txUnnum _ _ (by decide) (fun _ => by decide)).timerStart

end Handlers

end DModem.Lapm
