/-
The bit side of a modem: the detector of `modem_pack.c`, the bit timer of
`modem_get_bits`, and the frames and characters that `modem_put_bits` delivers.
-/

import DModem.Modem.Lapm

namespace DModem.Modem

/-! ### The detector -/

def odp1 : UInt8 := 0x89
def adp1V14 : UInt8 := 0x00
def adp1V42 : UInt8 := 0xc2
def patternSize : Int := 36

def detectorStart (m : Modem) : Modem := { m with detector := { m.detector with txCount := 1 } }

def detectorFinish (m : Modem) : Modem :=
  modemUpdateStatus { m with cfg := { m.cfg with ec := m.detector.ecEnable } } .packLink

/-- The character `ch` in the loop of `modem_detector_put_bits`. -/
def detectorChar (m : Modem) (ch : UInt8) : Modem :=
  let d := m.detector
  if ch.toBitVec = Hdlc.hdlcFlag then
    { m with
      detector := { d with ecEnable := true }
      bitTimerFunc := some .detectorFinish
      bitTimer := patternSize }
  else if d.rxCount = 0 then
    { m with detector := { d with rxCount := if ch = d.rxPattern.1 then 1 else 0 } }
  else if 2 ≤ d.rxCount then m
  else if ch = odp1 then
    if !m.caller then
      { m with
        detector := { d with txCount := 1, rxCount := 2, ecEnable := true }
        bitTimerFunc := some .detectorFinish
        bitTimer := 16 * patternSize }
    else { m with detector := { d with rxCount := 0 } }
  else if ch = adp1V14 then
    { m with
      detector := { d with rxCount := 2, ecEnable := false }
      bitTimerFunc := some .detectorFinish
      bitTimer := patternSize }
  else if ch = adp1V42 then
    { m with
      cfg := { m.cfg with ec := true }
      detector := { d with rxCount := 2, ecEnable := true }
      bitTimerFunc := some .detectorFinish
      bitTimer := patternSize }
  else { m with detector := { d with rxCount := 0 } }

/-! ### The bit timer -/

/-- The call of `bit_timer_func`. -/
def runBitTimer (m : Modem) : Modem :=
  match m.bitTimerFunc with
  | none => m.logFault .bitTimerFunc
  | some .t401Timeout => m.t401Timeout
  | some .modemEcNegotiate => m.modemEcNegotiate
  | some .detectorStart => m.detectorStart
  | some .detectorFinish => m.detectorFinish

def bitsExpire (m : Modem) (bits : Nat) : Bool := m.bitTimer != 0 && m.bitTimer - bits ≤ 0

/-- The timer of `modem_get_bits` after `bits` bits. -/
def tickBits (m : Modem) (bits : Nat) : Modem :=
  if m.bitsExpire bits then runBitTimer { m with bitTimer := 0 }
  else if m.bitTimer ≠ 0 then { m with bitTimer := m.bitTimer - bits }
  else m

end DModem.Modem
