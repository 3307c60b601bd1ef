/-
What the check sequence does not see.

The polynomial of the check sequence has an even number of terms, and its order exceeds the
length of the longest frame.  So a frame that is delivered is the one that was sent, or many
of its bits are wrong.
-/

import DModem.Hdlc.Fcs
import DModem.Hdlc.Genuine
import DModem.Lib.Distance

namespace DModem.Hdlc

open DModem.Lib

theorem fcsPoly_odd : regParity fcsPoly = true := by decide

theorem fcsPoly_avoids : avoids fcsPoly 1 4095 fcsPoly = true := by decide +kernel

theorem bitsOf_length (octets : List UInt8) : (bitsOf octets).length = 8 * octets.length := by
  induction octets with
  | nil => rfl
  | cons octet octets ih =>
      rw [bitsOf_cons, List.length_append, octetBits_length, ih, List.length_cons]
      omega

theorem bitsOf_injective {octets octets' : List UInt8} (same : bitsOf octets = bitsOf octets') :
    octets = octets' := by
  have lengths := congrArg List.length same
  rw [bitsOf_length, bitsOf_length] at lengths
  induction octets generalizing octets' with
  | nil => exact (List.eq_nil_of_length_eq_zero (by simpa using lengths.symm)).symm
  | cons octet octets ih =>
      cases octets' with
      | nil => simp at lengths
      | cons octet' octets' =>
          rw [bitsOf_cons, bitsOf_cons] at same
          obtain ⟨first, rest⟩ := List.append_inj same (by rw [octetBits_length, octetBits_length])
          have shorter : 8 * octets.length = 8 * octets'.length := by
            rw [← bitsOf_length, rest, bitsOf_length]
          rw [octetBits_injective first, ih rest shorter]

theorem fcsOf_distance {text octets : List UInt8} (length : octets.length = text.length + 2)
    (short : octets.length ≤ 512) (good : fcsOf octets = goodFcs)
    (differs : octets ≠ checked text) :
    4 ≤ distance (bitsOf (checked text)) (bitsOf octets) ∧
      distance (bitsOf (checked text)) (bitsOf octets) % 2 = 0 := by
  have lengths : (bitsOf (checked text)).length = (bitsOf octets).length := by
    rw [bitsOf_length, bitsOf_length, length, checked, List.length_append]
    rfl
  have fits : (bitsOf (checked text)).length ≤ 4095 + 1 := by
    rw [lengths, bitsOf_length]
    omega
  have other : bitsOf (checked text) ≠ bitsOf octets := fun same =>
    differs (bitsOf_injective same).symm
  have same :
      crc fcsPoly initFcs (bitsOf (checked text)) = crc fcsPoly initFcs (bitsOf octets) := by
    rw [← fcsOf_crc, ← fcsOf_crc, fcsOf_checked, good]
  exact crc_distance fcsPoly_top fcsPoly_odd fcsPoly_avoids lengths fits other same

/-- **Undetected errors.**  Whatever bits are received, in calls with any symbol sizes: where a
frame is delivered in the place of one of the same length that was sent, with its check sequence,
the two are the same, or they differ in four bits at least, in an even number of them, and not
only within 16 bits in a row. -/
theorem hdlc_frames_distance (calls : List (Nat × List UInt8))
    (sizes : ∀ call ∈ calls, 1 ≤ call.1 ∧ call.1 ≤ 8) :
    ∀ frame ∈ (receive calls modemHdlcStart).2, ∀ text : List UInt8, text.length = frame.count →
      frame.buf.take (frame.count + 2) = checked text ∨
        4 ≤ distance (bitsOf (checked text)) (bitsOf (frame.buf.take (frame.count + 2))) ∧
        distance (bitsOf (checked text)) (bitsOf (frame.buf.take (frame.count + 2))) % 2 = 0 ∧
        ¬Burst 16 (bitsOf (checked text)) (bitsOf (frame.buf.take (frame.count + 2))) := by
  intro frame member text length
  have places := receiveAt_frames calls modemHdlcStart 0
  rw [← places] at member
  obtain ⟨entry, here, rfl⟩ := List.mem_map.mp member
  have genuine := (heard_start (fedBits calls)).receive calls sizes (List.prefix_refl _) entry here
  obtain ⟨front, back, opening, octets, -, -, -, -, -, -, -, octetsEq, counted, good⟩ :=
    genuine.opening
  have many := genuine.many
  rw [← octetsEq]
  by_cases same : octets = checked text
  · exact Or.inl same
  · right
    obtain ⟨four, even⟩ := fcsOf_distance (by omega) (by omega) good same
    refine ⟨four, even, ?_⟩
    intro burst
    exact fcsOf_burst burst good

/-- A frame of the octet 41 is not taken for one of the octet 42. -/
theorem hdlc_frames_distance_one :
    ∃ frame, (receive [(1, bitSymbols genuineLine)] modemHdlcStart).2 = [frame] ∧
      4 ≤ distance (bitsOf (checked [0x42])) (bitsOf (frame.buf.take (frame.count + 2))) := by
  have far := hdlc_frames_distance [(1, bitSymbols genuineLine)] (by decide)
  have one : (receive [(1, bitSymbols genuineLine)] modemHdlcStart).2.map
      (fun frame => (frame.count, frame.buf.take (frame.count + 2))) =
      [(1, checked [0x41])] := by
    decide +kernel
  obtain ⟨frame, only, octets⟩ := List.map_eq_singleton_iff.mp one
  obtain ⟨count, taken⟩ := Prod.mk.inj octets
  refine ⟨frame, only, ?_⟩
  have member : frame ∈ (receive [(1, bitSymbols genuineLine)] modemHdlcStart).2 := by
    rw [only]
    exact List.mem_singleton_self frame
  rcases far frame member [0x42] count.symm with same | ⟨four, -⟩
  · rw [taken] at same
    exact absurd same (by decide)
  · exact four

end DModem.Hdlc
