/-
The LAPM functions of `modem_ec.c`.

`get_chars` and `put_chars` are called at most once each while one frame is
handled, so their answers are one argument `chars` of each function.  Sequence
numbers are below 128 and the C expressions `(x - y) & 0x7f` are `seqSub`.
-/

import DModem.Modem.Xid

namespace DModem

/-- The answers of the character routines: the bytes that `get_chars` returns
(`none` for its error), how many bytes `put_chars` accepts, and whether the
decompressor fails meanwhile. -/
structure Chars where
  get : Option (List UInt8)
  accept : Nat
  fails : Bool
  deriving DecidableEq, Repr

def seqSub (x y : Nat) : Nat := (x + 128 - y) % 128

def seqNext (x : Nat) : Nat := (x + 1) % 128

namespace Frame

def addr (f : Hdlc.Frame) : UInt8 := f.buf.getD 0 0
def ctrl (f : Hdlc.Frame) : UInt8 := f.buf.getD 1 0
def type (f : Hdlc.Frame) : UInt8 :=
  if ctrl f &&& 0x1 ≠ 0 then ctrl f &&& 0x3 else Modem.frameI
/-- `FRAME_I_PF` and `FRAME_S_PF`. -/
def pf (f : Hdlc.Frame) : UInt8 := f.buf.getD 2 0 &&& 0x1
def uPf (f : Hdlc.Frame) : UInt8 := ctrl f &&& 0x10
def ns (f : Hdlc.Frame) : Nat := (ctrl f).toNat >>> 1
def nr (f : Hdlc.Frame) : Nat := (f.buf.getD 2 0).toNat >>> 1

end Frame

namespace Modem

/-! ### Characters -/

/-- The call of `put_chars` with `n` bytes from `bytes`, and its return value. -/
def callPutChars (m : Modem) (chars : Chars) (bytes : List UInt8) (n : Int) : Modem × Int :=
  match m.putChars with
  | none => (m, 0)
  | some routine =>
      let ret := min chars.accept n.toNat
      let m := { m with out := m.out ++ [.data (bytes.take ret)] }
      (if routine = .comp ∧ chars.fails then m.modemUpdateStatus .error else m, ret)

/-! ### Information frames -/

def txInfo (m : Modem) (chars : Chars) : Modem × Bool :=
  let l := m.lapm
  if l.peerBusy || l.txWinSize ≤ seqSub l.vs l.va then (m, false)
  else if l.txInfo = l.infoList then
    if nextInfo l.infoList = l.txInfo ∨ nextInfo l.infoList = l.sentInfo then
      ({ m with allocErrors := m.allocErrors + 1 }, false)
    else if m.getChars = none then (m, false)
    else
      match chars.get with
      | none => (m.modemUpdateStatus .ecError, false)
      | some given =>
          let bytes := given.take l.txInfoSize
          if bytes = [] then (m, false)
          else
            ({ m with
                lapm :=
                  { l with
                    infoBuf := Function.update l.infoBuf l.infoList
                      { l.infoBuf l.infoList with info := bytes }
                    infoList := nextInfo l.infoList }
                taken := m.taken ++ [bytes] }, true)
  else (m, true)

def rejectInfo (m : Modem) : Modem :=
  if m.lapm.state ≠ .data then m
  else { m with lapm := { m.lapm with vs := m.lapm.va, txInfo := m.lapm.sentInfo } }

/-- The loop of `ack_info`; 128 rounds are enough, as `va` counts modulo 128. -/
def ackLoop : Nat → LapmState → Nat → LapmState × Nat
  | 0, l, _ => (l, 0)
  | rounds + 1, l, nr =>
      if l.va = nr then (l, 0)
      else if l.sentInfo = l.txInfo then (l, 0)
      else
        let next := ackLoop rounds
          { l with sentInfo := nextInfo l.sentInfo, va := seqNext l.va } nr
        (next.1, next.2 + 1)

/-- The end of `ack_info`, after `n` frames were acknowledged. -/
def ackTimer (m : Modem) (n : Nat) : Modem :=
  if 0 < n ∧ m.lapm.rtxCount = 0 then
    if seqSub m.lapm.vs m.lapm.va ≠ 0 then m.timerStop.timerStart else m.timerStop
  else m

/-- `ack_info`.  Its first two tests compare an unsigned number with `>= 0`. -/
def ackInfo (m : Modem) (nr : Nat) : Modem :=
  if ¬ (0 ≤ seqSub nr m.lapm.va ∧ 0 ≤ seqSub m.lapm.vs nr ∧
      seqSub m.lapm.vs m.lapm.va ≤ m.lapm.txWinSize) then m.lapmDisconnect
  else
    let acked := ackLoop 128 m.lapm nr
    ackTimer { m with lapm := acked.1 } acked.2

def pushRestData (m : Modem) (chars : Chars) : Modem :=
  if m.lapm.state ≠ .data then m
  else if m.lapm.rxCount ≠ 0 ∧ m.putChars ≠ none then
    let put := m.callPutChars chars (m.lapm.rxBuf.drop m.lapm.rxHead) m.lapm.rxCount
    let m := put.1
    let ret := put.2
    if 0 < ret then
      let count := m.lapm.rxCount - ret
      if count = 0 then
        let m :=
          { m with lapm := { m.lapm with rxHead := 0, rxCount := count, busy := false } }
        { m.txRr m.lapm.cmdAddr 0 with packerProcess := false }
      else
        { m with
          lapm := { m.lapm with rxHead := m.lapm.rxHead + ret.toNat, rxCount := count } }
    else m
  else m

/-- The size that `memcpy` is called with: an `int` as a `size_t`. -/
def copySize (rest : Int) : Nat := if rest < 0 then (2 ^ 32 + rest).toNat else rest.toNat

/-- `rx_info` where the received data is handed on: the call of `put_chars`, and
what is kept of the rest.  `rx_buf` may be too short for it. -/
def recvInfo (m : Modem) (f : Hdlc.Frame) (chars : Chars) : Modem :=
  let n : Int := (f.count : Int) - 3
  let put := m.callPutChars chars (f.buf.drop 3) n
  let m := put.1
  let ret := put.2
  if ret ≠ n then
    { m with
      lapm :=
        { m.lapm with
          rxHead := 0
          rxCount := n - ret
          rxBuf := (f.buf.drop (3 + ret.toNat)).take (n - ret).toNat
          spilled := max m.lapm.spilled (copySize (n - ret) - lapmMaxInfoSize)
          busy := true }
      packerProcess := true }
  else m

def respondInfo (m : Modem) (f : Hdlc.Frame) (chars : Chars) : Modem :=
  if m.lapm.busy then m.txRnr (Frame.addr f) (Frame.pf f)
  else if m.lapm.peerBusy || Frame.pf f ≠ 0 then m.txRr (Frame.addr f) (Frame.pf f)
  else
    let sent := m.txInfo chars
    if sent.2 then sent.1 else sent.1.txRr (Frame.addr f) (Frame.pf f)

def rxInfo (m : Modem) (f : Hdlc.Frame) (chars : Chars) : Modem :=
  let m := m.ackInfo (Frame.nr f)
  if m.lapm.busy then
    if Frame.pf f ≠ 0 then m.txRnr m.lapm.rspAddr 1 else m
  else if Frame.ns f ≠ m.lapm.vr then
    if m.lapm.reject then m
    else
      let m := m.txRej m.lapm.rspAddr (Frame.pf f)
      { m with lapm := { m.lapm with reject := true } }
  else
    let m := { m with lapm := { m.lapm with reject := false } }
    let m := m.recvInfo f chars
    let m := { m with lapm := { m.lapm with vr := seqNext m.lapm.vr } }
    m.respondInfo f chars

/-! ### Supervisory frames -/

def setPeerBusy (m : Modem) (peerBusy : Bool) : Modem :=
  { m with lapm := { m.lapm with peerBusy := peerBusy } }

def txReady (m : Modem) (addr pfMask : UInt8) : Modem :=
  if m.lapm.busy then m.txRnr addr pfMask else m.txRr addr pfMask

/-- `if (FRAME_S_PF(f) || !tx_info(l))` with the response behind it. -/
def answerSuper (m : Modem) (f : Hdlc.Frame) (chars : Chars) : Modem :=
  if Frame.pf f ≠ 0 then m.txReady (Frame.addr f) (Frame.pf f)
  else
    let sent := m.txInfo chars
    if sent.2 then sent.1 else sent.1.txReady (Frame.addr f) (Frame.pf f)

def rxSuperCmd (m : Modem) (f : Hdlc.Frame) (chars : Chars) : Modem :=
  if Frame.ctrl f = frameSRr then
    ((m.setPeerBusy false).ackInfo (Frame.nr f)).answerSuper f chars
  else if Frame.ctrl f = frameSRnr then
    let m := (m.setPeerBusy true).ackInfo (Frame.nr f)
    if Frame.pf f ≠ 0 then m.txReady m.lapm.rspAddr (Frame.pf f) else m
  else if Frame.ctrl f = frameSRej then
    let m := (m.setPeerBusy false).ackInfo (Frame.nr f)
    let m := if m.lapm.rtxCount = 0 then m.timerStop.rejectInfo else m
    m.answerSuper f chars
  else m

def rxSuperRsp (m : Modem) (f : Hdlc.Frame) : Modem :=
  if m.lapm.rtxCount = 0 ∧ Frame.pf f ≠ 0 then m
  else if Frame.ctrl f = frameSRr then
    let m := (m.setPeerBusy false).ackInfo (Frame.nr f)
    if m.lapm.rtxCount ≠ 0 ∧ Frame.pf f ≠ 0 then m.rejectInfo.timerStop else m
  else if Frame.ctrl f = frameSRnr then
    let m := (m.setPeerBusy true).ackInfo (Frame.nr f)
    let m := if m.lapm.rtxCount ≠ 0 ∧ Frame.pf f ≠ 0 then m.rejectInfo.timerStop else m
    if m.lapm.rtxCount = 0 then m.timerStart else m
  else if Frame.ctrl f = frameSRej then
    let m := (m.setPeerBusy false).ackInfo (Frame.nr f)
    if m.lapm.rtxCount = 0 ∨ Frame.pf f ≠ 0 then m.rejectInfo.timerStop else m
  else m

/-! ### Unnumbered frames -/

def lapmConnect (m : Modem) : Modem :=
  if m.lapm.state ≠ .idle then m
  else (m.reset.setPhase .estab).txSabme.timerStart

def lapmConfig (m : Modem) : Modem :=
  let m := { m with lapm := { m.lapm with config := true } }
  let m :=
    if m.lapm.state = .data then
      let m := { m with lapm := { m.lapm with busy := true } }
      m.txRnr m.lapm.cmdAddr 1
    else m
  (m.txXid m.lapm.cmdAddr).timerStart

def rxSabme (m : Modem) (f : Hdlc.Frame) : Modem :=
  (((m.reset.setPhase .data).txUa (Frame.uPf f)).timerStop).modemUpdateStatus .ecLink

def rxDisc (m : Modem) (f : Hdlc.Frame) : Modem :=
  if m.lapm.state = .idle then m.txDm 1
  else (((m.setPhase .idle).reset.txUa (Frame.uPf f)).timerStop).modemUpdateStatus .ecRelease

def rxUnnumCmd (m : Modem) (f : Hdlc.Frame) : Modem :=
  if Frame.ctrl f &&& 0xef = frameUSabme then m.rxSabme f
  else if Frame.ctrl f &&& 0xef = frameUDisc then m.rxDisc f
  else if Frame.ctrl f &&& 0xef = frameUXid then
    let m := m.rxXid f
    m.txXid m.lapm.rspAddr
  else m

def rxDm (m : Modem) (f : Hdlc.Frame) : Modem :=
  match m.lapm.state with
  | .estab | .disc =>
      if Frame.uPf f ≠ 0 then
        ((m.setPhase .idle).reset.timerStop).modemUpdateStatus .ecRelease
      else m
  | .data =>
      if m.lapm.rtxCount ≠ 0 ∨ Frame.uPf f = 0 then
        ((m.setPhase .idle).reset).modemUpdateStatus .ecRelease
      else m
  | .idle => if Frame.uPf f = 0 then m.modemUpdateStatus .ecLink else m

def rxUa (m : Modem) : Modem :=
  match m.lapm.state with
  | .estab => ((m.setPhase .data).reset.timerStop).modemUpdateStatus .ecLink
  | .disc => ((m.setPhase .idle).reset.timerStop).modemUpdateStatus .ecRelease
  | _ => m

def rxXidRsp (m : Modem) (f : Hdlc.Frame) : Modem :=
  if m.lapm.config then
    let m := m.rxXid f
    let m := timerStop { m with lapm := { m.lapm with config := false } }
    match m.lapm.state with
    | .idle => m.lapmConnect
    | .data =>
        let m := { m with lapm := { m.lapm with busy := false } }
        m.txRr m.lapm.cmdAddr 0
    | _ => m
  else m

def rxUnnumRsp (m : Modem) (f : Hdlc.Frame) : Modem :=
  if Frame.ctrl f &&& 0xef = frameUDm then m.rxDm f
  else if Frame.ctrl f &&& 0xef = frameUUa then m.rxUa
  else if Frame.ctrl f &&& 0xef = frameUXid then m.rxXidRsp f
  else m

/-! ### The framer interface -/

/-- The end of `lapm_get_tx_frame`: the header of the frame `tx_info` is filled in
and the frame handed out. -/
def sendInfo (m : Modem) : Modem × Option (List UInt8) :=
  let l := m.lapm
  let slot := { l.infoBuf l.txInfo with
    ctrl := [l.cmdAddr, UInt8.ofNat (l.vs <<< 1), UInt8.ofNat (l.vr <<< 1)] }
  let m :=
    { m with
      lapm :=
        { l with
          infoBuf := Function.update l.infoBuf l.txInfo slot
          txInfo := nextInfo l.txInfo
          vs := seqNext l.vs } }
  (if m.bitTimer = 0 then m.timerStart else m, some (slot.ctrl ++ slot.info))

def lapmGetTxFrame (m : Modem) (chars : Chars) : Modem × Option (List UInt8) :=
  let l := m.lapm
  if l.txCtrl ≠ l.ctrlList then
    ({ m with lapm := { l with txCtrl := nextCtrl l.txCtrl } }, some (l.ctrlBuf l.txCtrl))
  else if l.peerBusy || l.config || l.state ≠ .data then (m, none)
  else
    let sent := if l.txInfo = l.infoList then m.txInfo chars else (m, true)
    if sent.2 then sent.1.sendInfo else (sent.1, none)

def validDataState (m : Modem) : Modem × Bool :=
  match m.lapm.state with
  | .estab => ((m.reset.setPhase .data).modemUpdateStatus .ecLink, true)
  | .data => (m, true)
  | .disc => ((m.reset.setPhase .idle).modemUpdateStatus .ecRelease, false)
  | .idle => (m, false)

def lapmRxComplete (m : Modem) (f : Hdlc.Frame) (chars : Chars) : Modem :=
  if Frame.type f = frameI then
    let valid := m.validDataState
    if valid.2 then valid.1.rxInfo f chars else valid.1
  else if Frame.type f = frameS then
    let valid := m.validDataState
    if valid.2 then
      if Frame.addr f = valid.1.lapm.rspAddr then valid.1.rxSuperCmd f chars
      else valid.1.rxSuperRsp f
    else valid.1
  else if Frame.type f = frameU then
    if Frame.addr f = m.lapm.rspAddr then m.rxUnnumCmd f else m.rxUnnumRsp f
  else m

/-! ### Timer expiry -/

def t401Exhausted (m : Modem) : Modem :=
  let m := { m with lapm := { m.lapm with rtxCount := 0 } }
  match m.lapm.state with
  | .estab | .disc => (m.setPhase .idle).modemUpdateStatus .ecRelease
  | .data => m.lapmDisconnect
  | .idle => m

def t401Resend (m : Modem) : Modem :=
  if m.lapm.config then m.txXid m.lapm.cmdAddr
  else
    match m.lapm.state with
    | .estab => m.txSabme
    | .disc => m.txDisc
    | .data => m.txReady m.lapm.cmdAddr 1
    | .idle => m

/-- `t401_timeout`.  It is called with `bit_timer` already 0. -/
def t401Timeout (m : Modem) : Modem :=
  if lapmMaxRtx < m.lapm.rtxCount then m.t401Exhausted
  else
    let m := { m with lapm := { m.lapm with rtxCount := m.lapm.rtxCount + 1 } }
    { m.t401Resend with bitTimer := t401TimeoutBits, bitTimerFunc := some .t401Timeout }

def modemEcNegotiate (m : Modem) : Modem := lapmConfig { m with getTxFrame := true }

/-- `lapm_init` on a modem. -/
def lapmInit (m : Modem) : Modem :=
  { m with
    lapm :=
      { state := .idle
        config := false
        reject := false
        busy := false
        peerBusy := false
        cmdAddr := if m.caller then 0x3 else 0x1
        rspAddr := if m.caller then 0x1 else 0x3
        vs := 0
        va := 0
        vr := 0
        rtxCount := 0
        txWinSize := m.cfg.ecTxWinSize
        rxWinSize := m.cfg.ecRxWinSize
        txInfoSize := m.cfg.ecTxInfoSize
        rxInfoSize := m.cfg.ecRxInfoSize
        sentInfo := 0
        txInfo := 0
        infoList := 0
        infoBuf := fun _ => { ctrl := [0, 0, 0], info := List.replicate (lapmMaxInfoSize + 1) 0 }
        txCtrl := 0
        ctrlList := 0
        ctrlBuf := fun _ => List.replicate (lapmMaxInfoSize + 4) 0
        rxCount := 0
        rxHead := 0
        rxBuf := List.replicate lapmMaxInfoSize 0
        spilled := 0 } }

end Modem

end DModem
