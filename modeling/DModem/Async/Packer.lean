/-
The asynchronous packer of `modem_pack.c`.

A character goes out as a start bit, its eight bits and one stop bit.
`get_chars` is a parameter over the state of whatever it reads from, and answers
with a character or with nothing; the calls of `put_chars` are the list of
characters that a function returns.
-/

import DModem.Hdlc.Packer

namespace DModem.Async

open DModem.Hdlc (BitsState)

def ordered : Array (BitVec 8) :=
  #[0x0, 0x8, 0x4, 0xc, 0x2, 0xa, 0x6, 0xe, 0x1, 0x9, 0x5, 0xd, 0x3, 0xb, 0x7, 0xf]

/-- `REVERSE_BITS`. -/
def reverseBits (c : BitVec 8) : BitVec 8 :=
  ordered.getD (c &&& 0xf).toNat 0 <<< 4 ||| ordered.getD (c >>> 4).toNat 0

def stopBits : Nat := 1
def charSize : Nat := 10

/-- `CHAR_DATA`. -/
def charData (ch : BitVec 8) : BitVec 32 := ch.setWidth 32 <<< 1 ||| 0x1

/-- The two registers of the modem. -/
structure AsyncState where
  pack : BitsState
  unpack : BitsState
  deriving DecidableEq, Repr

def modemAsyncStart : AsyncState :=
  { pack := { bit := 0, data := 0 }
    unpack := { bit := 0, data := 0 } }

/-! ### Transmitter -/

section GetBits

variable {σ : Type} (getChars : σ → Option UInt8 × σ)

def pushChar (s : BitsState) (ch : UInt8) : BitsState :=
  { bit := s.bit + charSize
    data := s.data <<< charSize ||| charData (reverseBits ch.toBitVec) }

/-- Asks for characters until the register holds a symbol, or there is none.  A
character adds 10 bits, so that `nbits` rounds are enough. -/
def fill (nbits : Nat) : Nat → BitsState → σ → BitsState × σ
  | 0, s, queue => (s, queue)
  | rounds + 1, s, queue =>
      if nbits ≤ s.bit then (s, queue)
      else
        let asked := getChars queue
        match asked.1 with
        | none => (s, asked.2)
        | some ch => fill nbits rounds (pushChar s ch) asked.2

def onesMask (n : Nat) : BitVec 32 := BitVec.ofNat 32 (2 ^ n - 1)

def symbolOf (bits : BitVec 32) : UInt8 := UInt8.ofBitVec (bits.setWidth 8)

/-- The symbols after `get_chars` had nothing: what is left with stop bits, then
stop bits only. -/
def fillStops (nbits bitCnt : Nat) (s : BitsState) : List UInt8 × BitsState :=
  if s.bit ≠ 0 ∧ bitCnt > 0 then
    let short := nbits - s.bit
    (symbolOf (s.data <<< short ||| onesMask short) ::
        List.replicate (bitCnt - 1) (symbolOf (onesMask nbits)),
      { s with bit := 0 })
  else (List.replicate bitCnt (symbolOf (onesMask nbits)), s)

/-- `modem_async_get_bits`: the symbols that are put into `bit_buf`. -/
def modemAsyncGetBits (nbits : Nat) : Nat → BitsState → σ → List UInt8 × BitsState × σ
  | 0, s, queue => ([], s, queue)
  | bitCnt + 1, s, queue =>
      let ready := fill getChars nbits nbits s queue
      let s := ready.1
      if nbits ≤ s.bit then
        let rest := modemAsyncGetBits nbits bitCnt { s with bit := s.bit - nbits } ready.2
        (symbolOf (s.data >>> (s.bit - nbits)) :: rest.1, rest.2)
      else
        let stops := fillStops nbits (bitCnt + 1) s
        (stops.1, stops.2, ready.2)

end GetBits

/-! ### Receiver -/

def pushSymbol (s : BitsState) (nbits : Nat) (symbol : UInt8) : BitsState :=
  let masked := symbol.toBitVec &&& BitVec.ofNat 8 (2 ^ nbits - 1)
  { bit := s.bit + nbits
    data := s.data <<< nbits ||| masked.setWidth 32 }

def dropStops (data : BitVec 32) : Nat → Nat
  | 0 => 0
  | bit + 1 => if data &&& (0x1#32 <<< bit) ≠ 0 then dropStops data bit else bit + 1

/-- Takes characters out of the register; each takes 10 bits, so that `s.bit`
rounds are enough. -/
def takeChars : Nat → BitsState → BitsState × List UInt8
  | 0, s => (s, [])
  | rounds + 1, s =>
      if charSize ≤ s.bit then
        let ch := (s.data >>> (s.bit - (charSize - stopBits))).setWidth 8
        let rest := takeChars rounds { s with bit := s.bit - charSize }
        (rest.1, UInt8.ofBitVec (reverseBits ch) :: rest.2)
      else (s, [])

def putSymbol (s : BitsState) (nbits : Nat) (symbol : UInt8) : BitsState × List UInt8 :=
  let s := pushSymbol s nbits symbol
  let s := { s with bit := dropStops s.data s.bit }
  takeChars s.bit s

def modemAsyncPutBits (nbits : Nat) : List UInt8 → BitsState → BitsState × List UInt8
  | [], s => (s, [])
  | symbol :: rest, s =>
      let next := putSymbol s nbits symbol
      let later := modemAsyncPutBits nbits rest next.1
      (later.1, next.2 ++ later.2)

end DModem.Async
