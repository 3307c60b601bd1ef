/-
The encoder and the decoder of `modem_comp.c` over `struct comp_state`.

Strings and output are lists: `strData` is `str_data[0..str_len)` and `obuf` is
`obuf[0..olen)`.  A write past `str_data` is a fault; the output buffer is a log
whose length the callers bound.  The byte counts that the C functions return are
the growth of `obuf`; every caller only compares them with zero, so a call here
returns the new state, and `return -1` is `Fault.fatal`.
-/

import DModem.Comp.Dict

namespace DModem.Comp

def minDictSize : Int := 512
def minStrSize : Int := 6
def maxStrSize : Int := 250
def charSize : Nat := 8
def compMaxString : Nat := 34
def ccwEtm : Nat := 0
def ccwFlush : Nat := 1
def ccwStepup : Nat := 2
def ccEcm : UInt8 := 0
def ccEid : UInt8 := 1
def ccReset : UInt8 := 2
def escapeStep : UInt8 := 51
def testSlice : Nat := 256

inductive CompMode where
  | transparent
  | compressed
  deriving DecidableEq, Repr

/-- `struct comp_state`; `dict`, `dict_size` and `next_free` are in `dict`. -/
structure CompState where
  mode : CompMode
  escape : Bool
  updateAt : Nat
  lastMatched : Nat
  lastAdded : Nat
  cwSize : Nat
  threshold : Nat
  escapeChar : UInt8
  maxString : Nat
  dict : Dict
  bitLen : Nat
  bitData : Nat
  flushedLen : Nat
  strData : List UInt8
  cmpLast : Nat
  cmpBits : Nat
  rawBits : Nat
  ohead : Nat
  obuf : List UInt8

/-! ### Initialisation -/

def dictInit (c : CompState) : CompState :=
  { c with
    dict :=
      { c.dict with
        nextFree := firstFree
        entry := fun i =>
          if i < c.dict.dictSize then
            { c.dict.entry i with parent := 0, child := 0, next := 0 }
          else c.dict.entry i }
    lastMatched := 0
    updateAt := 0
    lastAdded := 0
    cwSize := charSize + 1
    threshold := totalChars * 2
    bitLen := 0
    flushedLen := 0
    strData := []
    escapeChar := 0
    cmpLast := testSlice * 8
    mode := .transparent
    escape := false }

/-- The fields that `comp_init` sets before it calls `dict_init`. -/
def compAlloc (dictSize maxString : Nat) : CompState :=
  { mode := .transparent
    escape := false
    updateAt := 0
    lastMatched := 0
    lastAdded := 0
    cwSize := 0
    threshold := 0
    escapeChar := 0
    maxString := maxString
    dict :=
      { alloc := dictSize
        dictSize := dictSize
        nextFree := 0
        entry := fun i =>
          if firstEntry ≤ i ∧ i < firstFree then
            { ch := UInt8.ofNat (i - firstEntry), parent := 0, child := 0, next := 0 }
          else { ch := 0, parent := 0, child := 0, next := 0 } }
    bitLen := 0
    bitData := 0
    flushedLen := 0
    strData := []
    cmpLast := 0
    cmpBits := 0
    rawBits := 0
    ohead := 0
    obuf := [] }

/-- `comp_init`; `none` is the refusal of the sizes. -/
def compInit (dictSize maxStr : Int) : Option CompState :=
  if dictSize < minDictSize ∨ maxStr < minStrSize ∨ maxStr > maxStrSize then none
  else some (dictInit (compAlloc dictSize.toNat maxStr.toNat))

/-- The escape character after the characters of a string have passed:
`escape_char += ESCAPE_STEP` at each match. -/
def cycleEscape (escapeChar : UInt8) : List UInt8 → UInt8
  | [] => escapeChar
  | ch :: rest =>
      cycleEscape (if ch = escapeChar then escapeChar + escapeStep else escapeChar) rest

namespace CompState

/-! ### Decoder -/

def sendString (c : CompState) : CompState :=
  { c with obuf := c.obuf ++ c.strData, strData := [], flushedLen := 0 }

/-- Both loops of `recv_data`: the characters from the top of the tree down to
`p`. -/
def stringChars (d : Dict) : Nat → Nat → Except Fault (List UInt8)
  | _, 0 => .ok []
  | 0, _ + 1 => .error .loop
  | fuel + 1, p + 1 => do
      let entry ← d.read (p + 1)
      let above ← stringChars d fuel entry.parent
      .ok (above ++ [entry.ch])

def recvData (c : CompState) (cw : Nat) : Except Fault CompState := do
  let chars ← stringChars c.dict c.dict.alloc cw
  if c.strData.length + chars.length ≤ compMaxString then
    .ok { c with strData := c.strData ++ chars }
  else .error .strIndex

def compFlushDecoder (c : CompState) : CompState :=
  { c.sendString with flushedLen := c.flushedLen + c.strData.length }

/-- `c->bit_data |= *in++ << c->bit_len; c->bit_len += 8`. -/
def pushByte (c : CompState) (b : UInt8) : CompState :=
  { c with
    bitData := (c.bitData ||| b.toNat <<< c.bitLen) % 2 ^ 32
    bitLen := c.bitLen + 8 }

/-- The byte-collecting `while` of the compressed branch of `comp_decode`. -/
def fillBits (c : CompState) : List UInt8 → CompState × List UInt8
  | [] => (c, [])
  | b :: rest => if c.bitLen < c.cwSize then (c.pushByte b).fillBits rest else (c, b :: rest)

/-- The dictionary update of a regular codeword in `comp_decode`. -/
def decodeUpdate (c : CompState) (cw : Nat) : Except Fault CompState :=
  if c.updateAt ≠ 0 then do
    let ch := c.strData.headD 0
    let p ← c.dict.matchChar c.updateAt ch
    if p = 0 then do
      let (dict, new) ← c.dict.addChar c.updateAt ch
      if cw = dict.nextFree then .error .fatal
      else .ok { c with dict := dict, lastAdded := new }
    else if p = c.lastAdded then .ok { c with lastAdded := 0 }
    else .ok c
  else .ok c

/-- The end of a regular codeword in `comp_decode`: the next update point, the
escape character and the output. -/
def finishString (c : CompState) (cw : Nat) : CompState :=
  { c with
    updateAt := if c.strData.length + c.flushedLen = c.maxString then 0 else cw
    escapeChar := cycleEscape c.escapeChar c.strData }.sendString

/-- A regular codeword of `comp_decode`. -/
def decodeString (c : CompState) (cw : Nat) : Except Fault CompState :=
  if cw = c.dict.nextFree then .error .fatal
  else do
    let c ← c.recvData cw
    let c ← c.decodeUpdate cw
    .ok (c.finishString cw)

/-- The `switch (cw)` of `comp_decode`. -/
def decodeCodeword (c : CompState) (cw : Nat) : Except Fault CompState :=
  if cw = ccwEtm then
    .ok { c with bitLen := 0, mode := .transparent, lastMatched := 0, lastAdded := 0 }
  else if cw = ccwFlush then .ok { c with bitLen := 0 }
  else if cw = ccwStepup then
    let c := { c with cwSize := c.cwSize + 1, threshold := c.threshold * 2 % 2 ^ 16 }
    if c.cwSize > c.dict.dictSize / 8 then .error .fatal else .ok c
  else c.decodeString cw

def takeCodeword (c : CompState) : Except Fault CompState :=
  { c with bitData := c.bitData >>> c.cwSize, bitLen := c.bitLen - c.cwSize }.decodeCodeword
    (c.bitData % 2 ^ c.cwSize % 2 ^ 16)

/-- One pass of the compressed branch: collect bits, and take one codeword if
there are enough.  Shifting a 32-bit word by `cw_size` is undefined from 32 on. -/
def decodeCompressed (c : CompState) (input : List UInt8) :
    Except Fault (CompState × List UInt8) :=
  if c.cwSize ≥ 32 then .error .shift
  else
    let filled := c.fillBits input
    if filled.1.bitLen < filled.1.cwSize then .ok filled
    else do
      let c ← filled.1.takeCodeword
      .ok (c, filled.2)

/-- The update at the head of the character branches:
`if (c->update_at) { if (!match_char(..)) add_char(..); c->update_at = 0; }`. -/
def updateDict (c : CompState) (ch : UInt8) : Except Fault CompState :=
  if c.updateAt ≠ 0 then do
    let found ← c.dict.matchChar c.updateAt ch
    if found = 0 then do
      let (dict, new) ← c.dict.addChar c.updateAt ch
      .ok { c with dict := dict, lastAdded := new, updateAt := 0 }
    else .ok { c with updateAt := 0 }
  else .ok c

/-- `str_data[str_len++] = ch`. -/
def pushChar (c : CompState) (ch : UInt8) : Except Fault CompState :=
  if c.strData.length < compMaxString then .ok { c with strData := c.strData ++ [ch] }
  else .error .strIndex

/-- A data character of the transparent branch of `comp_decode`; the flag says
whether the character was taken. -/
def decodeChar (c : CompState) (ch : UInt8) : Except Fault (CompState × Bool) := do
  let c ← c.updateDict ch
  let cw ← c.dict.matchChar c.lastMatched ch
  if cw = 0 then
    .ok ({ c.sendString with updateAt := c.lastMatched, lastMatched := 0 }, false)
  else if cw = c.lastAdded then
    .ok ({ c.sendString with lastAdded := 0, lastMatched := 0 }, false)
  else do
    let c ← { c with lastMatched := cw }.pushChar ch
    if c.strData.length + c.flushedLen = c.maxString then
      .ok ({ c.sendString with lastMatched := 0 }, true)
    else .ok (c, true)

/-- `decodeChar` in the loop: a character that was not taken stays in the
input. -/
def decodeData (c : CompState) (ch : UInt8) (rest : List UInt8) :
    Except Fault (CompState × List UInt8) := do
  let (c, taken) ← c.decodeChar ch
  .ok (c, if taken then rest else ch :: rest)

/-- One pass of the transparent branch of `comp_decode`.  `CC_EID` rewrites the
input byte. -/
def decodeTransparent (c : CompState) (b : UInt8) (rest : List UInt8) :
    Except Fault (CompState × List UInt8) :=
  if c.escape then
    let c := { c with escape := false }
    if b = ccEcm then
      .ok ({ c.sendString with
              mode := .compressed, updateAt := c.lastMatched, lastMatched := 0 }, rest)
    else if b = ccEid then
      { c with escapeChar := c.escapeChar + escapeStep }.decodeData c.escapeChar rest
    else if b = ccReset then .ok (dictInit c.sendString, rest)
    else .error .fatal
  else if b = c.escapeChar then .ok ({ c with escape := true }, rest)
  else c.decodeData b rest

def decodePass (c : CompState) (input : List UInt8) : Except Fault (CompState × List UInt8) :=
  match c.mode, input with
  | _, [] => .ok (c, [])
  | .compressed, b :: rest => c.decodeCompressed (b :: rest)
  | .transparent, b :: rest => c.decodeTransparent b rest

/-- The `for` loop of `comp_decode`. -/
def decodeLoop : Nat → CompState → List UInt8 → Except Fault CompState
  | _, c, [] => .ok c
  | 0, _, _ :: _ => .error .loop
  | fuel + 1, c, b :: rest => do
      let (c, left) ← c.decodePass (b :: rest)
      decodeLoop fuel c left

/-- `comp_decode`: no byte takes more than two passes. -/
def compDecode (c : CompState) (input : List UInt8) : Except Fault CompState :=
  decodeLoop (2 * input.length) c input

/-! ### Encoder -/

/-- `SEND_CW`, `ALIGN_BITS` and `SEND_BITS`. -/
def sendCw (c : CompState) (cw : Nat) : CompState :=
  { c with
    bitData := (c.bitData ||| cw <<< c.bitLen) % 2 ^ 32
    bitLen := c.bitLen + c.cwSize }

def alignBits (c : CompState) : CompState :=
  if c.bitLen % 8 ≠ 0 then { c with bitLen := c.bitLen + (8 - c.bitLen % 8) } else c

def sendBytes : Nat → CompState → CompState
  | 0, c => c
  | count + 1, c =>
      sendBytes count
        { c with
          obuf := c.obuf ++ [UInt8.ofNat (c.bitData % 256)]
          bitData := c.bitData >>> 8
          bitLen := c.bitLen - 8 }

def sendBits (c : CompState) : CompState := sendBytes (c.bitLen / 8) c

/-- The statistics at the head of `send_data`. -/
def countBits (c : CompState) : CompState :=
  { c with
    rawBits := (c.rawBits + c.strData.length * 8) % 2 ^ 32
    cmpBits := (c.cmpBits + c.cwSize) % 2 ^ 32
    cmpLast := (c.cmpLast + c.cwSize - c.cmpLast * c.strData.length / testSlice) % 2 ^ 16 }

/-- The bytes of a string in transparent mode: the escape character is followed
by `CC_EID` and cycled. -/
def escapeBytes (escapeChar : UInt8) : List UInt8 → List UInt8
  | [] => []
  | ch :: rest =>
      if ch = escapeChar then ch :: ccEid :: escapeBytes (escapeChar + escapeStep) rest
      else ch :: escapeBytes escapeChar rest

/-- The `STEPUP` loop of `send_data`. -/
def stepUp (cw : Nat) : Nat → CompState → Except Fault CompState
  | 0, c => if cw ≥ c.threshold then .error .loop else .ok c
  | fuel + 1, c =>
      if cw ≥ c.threshold then
        let c := (c.sendCw ccwStepup).sendBits
        stepUp cw fuel
          { c with threshold := c.threshold * 2 % 2 ^ 16, cwSize := c.cwSize + 1 }
      else .ok c

/-- The `switch (c->mode)` of `send_data`. -/
def emitString (c : CompState) (cw : Nat) : Except Fault CompState :=
  match c.mode with
  | .transparent =>
      .ok { c with
            obuf := c.obuf ++ escapeBytes c.escapeChar c.strData
            escapeChar := cycleEscape c.escapeChar c.strData }
  | .compressed => do
      let c ← stepUp cw 16 { c with escapeChar := cycleEscape c.escapeChar c.strData }
      .ok (c.sendCw cw).sendBits

def sendData (c : CompState) (cw : Nat) : Except Fault CompState := do
  let c ← c.countBits.emitString cw
  .ok { c with strData := [], flushedLen := 0 }

/-- The first part of both mode switches: a pending string is sent and becomes
the update point. -/
def sendPending (c : CompState) : Except Fault CompState :=
  if c.lastMatched ≠ 0 then do
    let c ← { c with updateAt := c.lastMatched }.sendData c.lastMatched
    .ok { c with lastMatched := 0 }
  else .ok c

def testMode (c : CompState) : Except Fault CompState :=
  match c.mode with
  | .transparent =>
      if c.cmpLast < testSlice * 8 - 11 then do
        let c ← c.sendPending
        .ok { c with
              obuf := c.obuf ++ [c.escapeChar, ccEcm]
              bitData := 0
              mode := .compressed }
      else .ok c
  | .compressed =>
      if c.cmpLast > testSlice * 8 then do
        let c ← c.sendPending
        let c := (({ c with lastAdded := 0 }.sendCw ccwEtm).alignBits).sendBits
        .ok { c with mode := .transparent }
      else .ok c

/-- The second half of `comp_flush_encoder`: in compressed mode the flushed string
becomes the update point and `CCW_FLUSH` follows. -/
def flushCodeword (c : CompState) : CompState :=
  match c.mode with
  | .transparent => c
  | .compressed =>
      let c := { c with updateAt := c.lastMatched, lastMatched := 0, flushedLen := 0 }
      ((c.sendCw ccwFlush).alignBits).sendBits

def compFlushEncoder (c : CompState) : Except Fault CompState :=
  if c.updateAt ≠ 0 then .ok c
  else if c.lastMatched ≠ 0 then do
    let sent ← c.sendData c.lastMatched
    .ok { sent with flushedLen := c.flushedLen + c.strData.length }.flushCodeword
  else .ok c.flushCodeword

/-- The inner `while` of `comp_encode`: match until the string ends or the input
does. -/
def matchString (c : CompState) : List UInt8 → Except Fault (CompState × List UInt8)
  | [] => .ok (c, [])
  | ch :: rest => do
      let cw ← c.dict.matchChar c.lastMatched ch
      if cw = 0 then do
        let c ← { c with updateAt := c.lastMatched }.sendData c.lastMatched
        .ok ({ c with lastMatched := 0 }, ch :: rest)
      else if cw = c.lastAdded then do
        let c ← { c with lastAdded := 0 }.sendData c.lastMatched
        .ok ({ c with lastMatched := 0 }, ch :: rest)
      else do
        let c ← { c with lastMatched := cw }.pushChar ch
        if c.strData.length + c.flushedLen = c.maxString then do
          let c ← c.sendData c.lastMatched
          .ok ({ c with lastMatched := 0 }, rest)
        else matchString c rest

/-- The outer `for` of `comp_encode`. -/
def encodeLoop : Nat → CompState → List UInt8 → Except Fault CompState
  | _, c, [] => .ok c
  | 0, _, _ :: _ => .error .loop
  | fuel + 1, c, ch :: rest => do
      let c ← c.updateDict ch
      let (c, left) ← c.matchString (ch :: rest)
      let c ← c.testMode
      encodeLoop fuel c left

/-- `comp_encode`: at most every second iteration takes no byte. -/
def compEncode (c : CompState) (input : List UInt8) : Except Fault CompState :=
  encodeLoop (2 * input.length) c input

def drain (c : CompState) : CompState := { c with obuf := [], ohead := 0 }

end CompState

end DModem.Comp
