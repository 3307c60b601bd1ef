/-
The HDLC packer of `modem_pack.c`.

`pack` and `unpack` are the two shift registers; the 512 bytes of `_rx_buf` are
the buffer of the receive frame.  `get_tx_frame` is a parameter over the state of
the framer.  The calls of `rx_complete` are the list of frames that a function
returns, and `tx_complete` only updates debug counters of the framer and is left
out.  `rx_error` counts, but is only compared with zero.
-/

import DModem.Lib.Bits

namespace DModem.Hdlc

def hdlcFlag : BitVec 8 := 0x7e
def initFcs : BitVec 16 := 0xffff
def goodFcs : BitVec 16 := 0xf0b8

def fcs16Tab : Array (BitVec 16) :=
  #[0x0000, 0x1189, 0x2312, 0x329b, 0x4624, 0x57ad, 0x6536, 0x74bf,
    0x8c48, 0x9dc1, 0xaf5a, 0xbed3, 0xca6c, 0xdbe5, 0xe97e, 0xf8f7,
    0x1081, 0x0108, 0x3393, 0x221a, 0x56a5, 0x472c, 0x75b7, 0x643e,
    0x9cc9, 0x8d40, 0xbfdb, 0xae52, 0xdaed, 0xcb64, 0xf9ff, 0xe876,
    0x2102, 0x308b, 0x0210, 0x1399, 0x6726, 0x76af, 0x4434, 0x55bd,
    0xad4a, 0xbcc3, 0x8e58, 0x9fd1, 0xeb6e, 0xfae7, 0xc87c, 0xd9f5,
    0x3183, 0x200a, 0x1291, 0x0318, 0x77a7, 0x662e, 0x54b5, 0x453c,
    0xbdcb, 0xac42, 0x9ed9, 0x8f50, 0xfbef, 0xea66, 0xd8fd, 0xc974,
    0x4204, 0x538d, 0x6116, 0x709f, 0x0420, 0x15a9, 0x2732, 0x36bb,
    0xce4c, 0xdfc5, 0xed5e, 0xfcd7, 0x8868, 0x99e1, 0xab7a, 0xbaf3,
    0x5285, 0x430c, 0x7197, 0x601e, 0x14a1, 0x0528, 0x37b3, 0x263a,
    0xdecd, 0xcf44, 0xfddf, 0xec56, 0x98e9, 0x8960, 0xbbfb, 0xaa72,
    0x6306, 0x728f, 0x4014, 0x519d, 0x2522, 0x34ab, 0x0630, 0x17b9,
    0xef4e, 0xfec7, 0xcc5c, 0xddd5, 0xa96a, 0xb8e3, 0x8a78, 0x9bf1,
    0x7387, 0x620e, 0x5095, 0x411c, 0x35a3, 0x242a, 0x16b1, 0x0738,
    0xffcf, 0xee46, 0xdcdd, 0xcd54, 0xb9eb, 0xa862, 0x9af9, 0x8b70,
    0x8408, 0x9581, 0xa71a, 0xb693, 0xc22c, 0xd3a5, 0xe13e, 0xf0b7,
    0x0840, 0x19c9, 0x2b52, 0x3adb, 0x4e64, 0x5fed, 0x6d76, 0x7cff,
    0x9489, 0x8500, 0xb79b, 0xa612, 0xd2ad, 0xc324, 0xf1bf, 0xe036,
    0x18c1, 0x0948, 0x3bd3, 0x2a5a, 0x5ee5, 0x4f6c, 0x7df7, 0x6c7e,
    0xa50a, 0xb483, 0x8618, 0x9791, 0xe32e, 0xf2a7, 0xc03c, 0xd1b5,
    0x2942, 0x38cb, 0x0a50, 0x1bd9, 0x6f66, 0x7eef, 0x4c74, 0x5dfd,
    0xb58b, 0xa402, 0x9699, 0x8710, 0xf3af, 0xe226, 0xd0bd, 0xc134,
    0x39c3, 0x284a, 0x1ad1, 0x0b58, 0x7fe7, 0x6e6e, 0x5cf5, 0x4d7c,
    0xc60c, 0xd785, 0xe51e, 0xf497, 0x8028, 0x91a1, 0xa33a, 0xb2b3,
    0x4a44, 0x5bcd, 0x6956, 0x78df, 0x0c60, 0x1de9, 0x2f72, 0x3efb,
    0xd68d, 0xc704, 0xf59f, 0xe416, 0x90a9, 0x8120, 0xb3bb, 0xa232,
    0x5ac5, 0x4b4c, 0x79d7, 0x685e, 0x1ce1, 0x0d68, 0x3ff3, 0x2e7a,
    0xe70e, 0xf687, 0xc41c, 0xd595, 0xa12a, 0xb0a3, 0x8238, 0x93b1,
    0x6b46, 0x7acf, 0x4854, 0x59dd, 0x2d62, 0x3ceb, 0x0e70, 0x1ff9,
    0xf78f, 0xe606, 0xd49d, 0xc514, 0xb1ab, 0xa022, 0x92b9, 0x8330,
    0x7bc7, 0x6a4e, 0x58d5, 0x495c, 0x3de3, 0x2c6a, 0x1ef1, 0x0f78]

/-- `GET_FCS`. -/
def getFcs (fcs : BitVec 16) (c : UInt8) : BitVec 16 :=
  (fcs >>> 8) ^^^ fcs16Tab.getD ((fcs ^^^ c.toBitVec.setWidth 16) &&& 0xff).toNat 0

/-- `frame_t` without its `next` pointer. -/
structure Frame where
  count : Nat
  size : Nat
  fcs : BitVec 16
  buf : List UInt8
  deriving DecidableEq, Repr

structure BitsState where
  bit : Nat
  data : BitVec 32
  deriving DecidableEq, Repr

/-- `struct hdlc_state` with the registers of the modem that it works on. -/
structure HdlcState where
  txFrame : Option Frame
  rxFrame : Frame
  rxError : Nat
  rxOnes : Nat
  txOnes : Nat
  pack : BitsState
  unpack : BitsState
  deriving DecidableEq, Repr

def modemHdlcStart : HdlcState :=
  { txFrame := none
    rxFrame :=
      { count := 0
        size := 512
        fcs := initFcs
        buf := List.replicate 512 0 }
    rxError := 1
    rxOnes := 0
    txOnes := 0
    pack := { bit := 0, data := 0 }
    unpack := { bit := 0, data := 0 } }

namespace HdlcState

/-! ### Transmitter -/

/-- One round of `HDLC_PUT_BYTE`. -/
def putBit (h : HdlcState) (input : BitVec 8) : HdlcState :=
  if input &&& 1 ≠ 0 then
    if h.txOnes + 1 = 5 then
      { h with
        txOnes := 0
        pack :=
          { bit := h.pack.bit + 2
            data := (h.pack.data <<< 1 ||| 1) <<< 1 } }
    else
      { h with
        txOnes := h.txOnes + 1
        pack :=
          { bit := h.pack.bit + 1
            data := h.pack.data <<< 1 ||| 1 } }
  else
    { h with
      txOnes := 0
      pack :=
        { bit := h.pack.bit + 1
          data := h.pack.data <<< 1 } }

def putBitsOf : Nat → HdlcState → BitVec 8 → HdlcState
  | 0, h, _ => h
  | left + 1, h, input => putBitsOf left (h.putBit input) (input >>> 1)

/-- `HDLC_PUT_BYTE`. -/
def hdlcPutByte (h : HdlcState) (input : BitVec 8) : HdlcState := putBitsOf 8 h input

section GetBits

variable {σ : Type} (getTxFrame : σ → Option Frame × σ)

def refill (h : HdlcState) (framer : σ) : HdlcState × σ :=
  match h.txFrame with
  | none =>
      let flagged :=
        { h with
          pack :=
            { bit := h.pack.bit + 8
              data := h.pack.data <<< 8 ||| hdlcFlag.setWidth 32 } }
      let asked := getTxFrame framer
      ({ flagged with txFrame := asked.1.map fun f => { f with fcs := initFcs, count := 0 } },
        asked.2)
  | some f =>
      if f.count = f.size then
        let fcs := f.fcs ^^^ 0xffff
        let h := h.hdlcPutByte ((fcs &&& 0xff).setWidth 8)
        let h := h.hdlcPutByte (((fcs >>> 8) &&& 0xff).setWidth 8)
        ({ h with txOnes := 0, txFrame := none }, framer)
      else
        let input := f.buf.getD f.count 0
        let h := { h with
          txFrame := some { f with count := f.count + 1, fcs := getFcs f.fcs input } }
        (h.hdlcPutByte input.toBitVec, framer)

/-- Refills until the register holds a symbol.  A refill adds at least 8 bits, so
that `nbits` rounds are enough. -/
def refillFor (nbits : Nat) : Nat → HdlcState → σ → HdlcState × σ
  | 0, h, framer => (h, framer)
  | rounds + 1, h, framer =>
      if nbits ≤ h.pack.bit then (h, framer)
      else
        let next := refill getTxFrame h framer
        refillFor nbits rounds next.1 next.2

/-- `modem_hdlc_get_bits`: the symbols that are put into `bit_buf`. -/
def modemHdlcGetBits (nbits : Nat) : Nat → HdlcState → σ → List UInt8 × HdlcState × σ
  | 0, h, framer => ([], h, framer)
  | bitCnt + 1, h, framer =>
      let ready := refillFor getTxFrame nbits nbits h framer
      let s := ready.1.pack
      let symbol := (s.data >>> (s.bit - nbits)).setWidth 8 &&& BitVec.ofNat 8 (2 ^ nbits - 1)
      let taken := { ready.1 with pack := { s with bit := s.bit - nbits } }
      let rest := modemHdlcGetBits nbits bitCnt taken ready.2
      (UInt8.ofBitVec symbol :: rest.1, rest.2)

end GetBits

/-! ### Receiver -/

/-- The frame that is passed to `rx_complete` when a flag is met with `i` bits of
a character already taken. -/
def finishedFrame (h : HdlcState) (i : Nat) : Option Frame :=
  if h.rxFrame.count = 0 then none
  else if h.rxError ≠ 0 then none
  else if i ≠ 0 then none
  else if h.rxFrame.count < 3 then none
  else if h.rxFrame.fcs ≠ goodFcs then none
  else some { h.rxFrame with count := h.rxFrame.count - 2 }

def finishFrame (h : HdlcState) : HdlcState :=
  { h with
    unpack := { h.unpack with bit := h.unpack.bit - 8 }
    rxOnes := 0
    rxError := 0
    rxFrame := { h.rxFrame with fcs := initFcs, count := 0 } }

def takeBit (h : HdlcState) (input : BitVec 8) : HdlcState :=
  if input &&& 0x80 ≠ 0 then
    if h.rxOnes + 1 = 5 then
      let h :=
        if input &&& 0x40 ≠ 0 then
          { h with rxError := h.rxError + 1, rxFrame := { h.rxFrame with count := 0 } }
        else h
      { h with unpack := { h.unpack with bit := h.unpack.bit - 1 - 1 }, rxOnes := 0 }
    else
      { h with
        unpack := { h.unpack with bit := h.unpack.bit - 1 }
        rxOnes := h.rxOnes + 1 }
  else { h with unpack := { h.unpack with bit := h.unpack.bit - 1 }, rxOnes := 0 }

/-- `out >>= 1`, with the new bit put on top. -/
def shiftIn (out input : BitVec 8) : BitVec 8 :=
  if input &&& 0x80 ≠ 0 then out >>> 1 ||| 0x80 else out >>> 1

/-- What the loop over the 8 bits of a character ends with: a flag, or the
character. -/
inductive Taken where
  | flag (frame : Option Frame)
  | char (out : BitVec 8)

def takeChar : Nat → HdlcState → BitVec 8 → HdlcState × Taken
  | 0, h, out => (h, .char out)
  | left + 1, h, out =>
      let input := (h.unpack.data >>> (h.unpack.bit - 8)).setWidth 8
      if input = hdlcFlag then (h.finishFrame, .flag (h.finishedFrame (8 - (left + 1))))
      else if h.rxError ≠ 0 then
        takeChar left { h with unpack := { h.unpack with bit := h.unpack.bit - 1 } } out
      else takeChar left (h.takeBit input) (shiftIn out input)

/-- The end of the character: `i == 8 && !rx_error`. -/
def finishChar (h : HdlcState) (out : UInt8) : HdlcState :=
  if h.rxError ≠ 0 then h
  else if h.rxFrame.count < h.rxFrame.size then
    { h with
      rxFrame :=
        { h.rxFrame with
          buf := h.rxFrame.buf.set h.rxFrame.count out
          count := h.rxFrame.count + 1
          fcs := getFcs h.rxFrame.fcs out } }
  else { h with rxError := h.rxError + 1, rxFrame := { h.rxFrame with count := 0 } }

def pushSymbol (h : HdlcState) (nbits : Nat) (symbol : UInt8) : HdlcState :=
  let masked := symbol.toBitVec &&& BitVec.ofNat 8 (2 ^ nbits - 1)
  { h with
    unpack :=
      { bit := h.unpack.bit + nbits
        data := h.unpack.data <<< nbits ||| masked.setWidth 32 } }

def putSymbol (h : HdlcState) (nbits : Nat) (symbol : UInt8) : HdlcState × List Frame :=
  let h := h.pushSymbol nbits symbol
  if h.unpack.bit < 8 + 8 + 2 then (h, [])
  else
    match takeChar 8 h 0 with
    | (h, .flag frame) => (h, frame.toList)
    | (h, .char out) => (h.finishChar (UInt8.ofBitVec out), [])

def modemHdlcPutBits (nbits : Nat) : List UInt8 → HdlcState → HdlcState × List Frame
  | [], h => (h, [])
  | symbol :: rest, h =>
      let next := h.putSymbol nbits symbol
      let later := modemHdlcPutBits nbits rest next.1
      (later.1, next.2 ++ later.2)

end HdlcState

end DModem.Hdlc
