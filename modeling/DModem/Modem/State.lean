/-
The part of `struct modem` that error correction works on, with `struct lapm_state`.

The two rings of frames are index maps: `next` of slot `i` is slot `i + 1` modulo
the ring size, and a slot holds the bytes `buf[0..size)` of its frame.  An
information slot keeps the three control bytes apart from the data behind them.
`rx_buf` ends where the information slots begin, with the `next` pointer of the first:
`spilled` is how far a longer rest was written over them.  The steps do not follow what
was written there.
The transmit queue `xmit` is the list of its bytes.  What the modem writes to its
terminal is the log `out`, the calls of `modem_report_result`, printed or not, are the log
`reports`, what `get_chars` returned to LAPM is the log `taken`, what `modem_at_process`
read is the log `commandText`, `links` has the states of the
modem and of LAPM at each report of `STATUS_EC_LINK`, `starts` counts the calls of
`modem_start`, and `allocErrors` those of `tx_info` that find no frame.
-/

import DModem.Hdlc.Packer

namespace DModem

/-- `STATE_MODEM_IDLE` and so on, with the values of `modem.c` as the order. -/
inductive ModemState where
  | modemIdle
  | dpEstab
  | ecEstab
  | modemOnline
  | commandOnline
  | ecDisc
  | dpDisc
  deriving DecidableEq, Repr

/-- `enum MODEM_RESULT`; `ok` is 0. -/
inductive ModemResult where
  | ok
  | connect
  | ring
  | nocarrier
  | error
  | nodialtone
  | busy
  | noanswer
  deriving DecidableEq, Repr

/-- `enum LAPM_STATES`. -/
inductive LapmPhase where
  | idle
  | estab
  | data
  | disc
  deriving DecidableEq, Repr

inductive BitTimerFunc where
  | t401Timeout
  | modemEcNegotiate
  | detectorStart
  | detectorFinish
  deriving DecidableEq, Repr

inductive SampleTimerFunc where
  | runModemStop
  | doModemChangeDp
  | modemCidStop
  deriving DecidableEq, Repr

/-- `modem_dp_process` and so on. -/
inductive Process where
  | dp
  | cid
  | ringDetector
  | voice
  | fax
  deriving DecidableEq, Repr

/-- `enum MODEM_MODE`. -/
inductive ModemMode where
  | data
  | fax
  | voice
  deriving DecidableEq, Repr

/-- `modem_get_chars`/`modem_put_chars`, or their compressing versions. -/
inductive CharRoutine where
  | plain
  | comp
  deriving DecidableEq, Repr

inductive BitRoutine where
  | async
  | detector
  | hdlc
  deriving DecidableEq, Repr

/-- `enum DP_ID`, the data pumps that the tests of `modem.c` name and the rest. -/
inductive DpId where
  | callprog
  | v8
  | v21
  | v23
  | b103
  | v34
  | v90
  | v92
  | other (id : Nat)
  deriving DecidableEq, Repr

/-- `struct detect_state`. -/
structure DetectState where
  txCount : Nat
  txPattern : UInt8 × UInt8
  rxCount : Nat
  rxPattern : UInt8 × UInt8
  ecEnable : Bool
  deriving DecidableEq, Repr

/-- `struct modem_config`. -/
structure ModemConfig where
  ec : Bool
  ecDetector : Bool
  ecTxWinSize : Nat
  ecRxWinSize : Nat
  ecTxInfoSize : Nat
  ecRxInfoSize : Nat
  comp : UInt8
  compDictSize : Int
  compMaxString : Int
  deriving DecidableEq, Repr

/-- The sizes of one `comp_state` that `comp_config` checks and sets. -/
structure CompSizes where
  dictSize : Int
  maxString : Int
  deriving DecidableEq, Repr

structure InfoSlot where
  ctrl : List UInt8
  info : List UInt8
  deriving DecidableEq, Repr

def lapmMaxWinSize : Nat := 15
def lapmMaxInfoSize : Nat := 128
def lapmInfoFrames : Nat := lapmMaxWinSize + 1
def lapmCtrlFrames : Nat := 8
def lapmMaxRtx : Nat := 5
def t401TimeoutBits : Int := 28800 * 2

def nextInfo (i : Nat) : Nat := (i + 1) % lapmInfoFrames
def nextCtrl (i : Nat) : Nat := (i + 1) % lapmCtrlFrames

/-- `struct lapm_state` without the debug counters. -/
structure LapmState where
  state : LapmPhase
  config : Bool
  reject : Bool
  busy : Bool
  peerBusy : Bool
  cmdAddr : UInt8
  rspAddr : UInt8
  vs : Nat
  va : Nat
  vr : Nat
  rtxCount : Nat
  txWinSize : Nat
  rxWinSize : Nat
  txInfoSize : Nat
  rxInfoSize : Nat
  sentInfo : Nat
  txInfo : Nat
  infoList : Nat
  infoBuf : Nat → InfoSlot
  txCtrl : Nat
  ctrlList : Nat
  ctrlBuf : Nat → List UInt8
  rxCount : Int
  rxHead : Nat
  rxBuf : List UInt8
  spilled : Nat

/-- The size of an entry of `info_buf` in the 32-bit build: `frame_t`, `ctrl` and `info`. -/
def infoSlotSize : Nat := 20 + 4 + lapmMaxInfoSize

/-- The frame that `next` of an information slot points to; nothing is known of a pointer
that was written over. -/
def LapmState.next (l : LapmState) (i : Nat) : Option Nat :=
  if i * infoSlotSize < l.spilled then none else some (nextInfo i)

/-- What is written to the terminal: a result code with the texts around it, received data,
or the echo of command text. -/
inductive Output where
  | result (code : ModemResult)
  | data (bytes : List UInt8)
  | echo (bytes : List UInt8)
  deriving DecidableEq, Repr

/-- `MODEM_HOOK_ON` and so on. -/
inductive Hook where
  | on
  | off
  | snooping
  deriving DecidableEq, Repr

/-- A byte of the transmit queue, with the mode in which it was written. -/
structure Queued where
  byte : UInt8
  data : Bool
  deriving DecidableEq, Repr

/-- A use of a pointer that is NULL or of a descriptor that is negative: `m->dp` in
`modem_report_result` or in `modem_update_status`, the two timer callbacks, and
`dev->fd` in the select sets. -/
inductive Fault where
  | modulation
  | dpLink
  | sampleTimerFunc
  | bitTimerFunc
  | deviceFd
  deriving DecidableEq, Repr

structure Modem where
  state : ModemState
  command : Bool
  resultCode : ModemResult
  caller : Bool
  cfg : ModemConfig
  encoder : CompSizes
  decoder : CompSizes
  getChars : Option CharRoutine
  putChars : Option CharRoutine
  bitTimer : Int
  bitTimerFunc : Option BitTimerFunc
  packerProcess : Bool
  getBits : Option BitRoutine
  putBits : Option BitRoutine
  getTxFrame : Bool
  detector : DetectState
  qcLapm : Bool
  dp : Option DpId
  count : Nat
  sampleTimer : Nat
  sampleTimerFunc : Option SampleTimerFunc
  lapm : LapmState
  started : Bool
  hook : Hook
  process : Option Process
  mode : ModemMode
  cid : Bool
  cidRequested : Bool
  rdObj : Bool
  voiceObj : Bool
  faxObj : Bool
  fd : Int
  sregs : Nat → UInt8
  atCount : Nat
  atLine : Nat → UInt8
  xmit : List Queued
  escapeCount : Nat
  lastEscCheck : BitVec 32
  escapeTimer : Bool
  ringCount : Nat
  ringFirst : BitVec 32
  ringLast : BitVec 32
  out : List Output
  reports : List ModemResult
  taken : List (List UInt8)
  commandText : List Queued
  links : List (ModemState × LapmPhase)
  starts : Nat
  allocErrors : Nat
  opens : Nat
  session : Bool
  stops : Nat
  armedAt : Nat
  fired : List (Nat × Nat)
  faults : List Fault

namespace Modem

/-! ### Control frames -/

def frameI : UInt8 := 0x00
def frameS : UInt8 := 0x01
def frameU : UInt8 := 0x03
def frameSRr : UInt8 := 0x01
def frameSRnr : UInt8 := 0x05
def frameSRej : UInt8 := 0x09
def frameUSabme : UInt8 := 0x6f
def frameUDm : UInt8 := 0x0f
def frameUDisc : UInt8 := 0x43
def frameUUa : UInt8 := 0x63
def frameUXid : UInt8 := 0xaf

/-- `get_ctrl_frame` and the bytes that its caller puts into the frame. -/
def putCtrl (m : Modem) (bytes : List UInt8) : Modem :=
  if nextCtrl m.lapm.ctrlList = m.lapm.txCtrl then m
  else
    { m with
      lapm :=
        { m.lapm with
          ctrlBuf := Function.update m.lapm.ctrlBuf m.lapm.ctrlList bytes
          ctrlList := nextCtrl m.lapm.ctrlList } }

/-- `tx_unnum`; every caller passes no information. -/
def txUnnum (m : Modem) (addr ctrl : UInt8) : Modem := m.putCtrl [addr, ctrl]

def txSuper (m : Modem) (addr ctrl pfMask : UInt8) : Modem :=
  m.putCtrl [addr, ctrl, UInt8.ofNat (m.lapm.vr <<< 1) ||| pfMask]

def txSabme (m : Modem) : Modem := m.txUnnum m.lapm.cmdAddr (frameUSabme ||| 0x10)
def txDisc (m : Modem) : Modem := m.txUnnum m.lapm.cmdAddr (frameUDisc ||| 0x10)
def txUa (m : Modem) (pfMask : UInt8) : Modem := m.txUnnum m.lapm.rspAddr (frameUUa ||| pfMask)
def txDm (m : Modem) (pfMask : UInt8) : Modem := m.txUnnum m.lapm.rspAddr (frameUDm ||| pfMask)
def txRr (m : Modem) (addr pfMask : UInt8) : Modem := m.txSuper addr frameSRr pfMask
def txRnr (m : Modem) (addr pfMask : UInt8) : Modem := m.txSuper addr frameSRnr pfMask
def txRej (m : Modem) (addr pfMask : UInt8) : Modem := m.txSuper addr frameSRej pfMask

/-! ### The timer -/

/-- `T401_START`, which is also `TIMER_START`. -/
def timerStart (m : Modem) : Modem :=
  { m with
    lapm := { m.lapm with rtxCount := 0 }
    bitTimer := t401TimeoutBits
    bitTimerFunc := some .t401Timeout }

/-- `T401_STOP`, which is also `TIMER_STOP`. -/
def timerStop (m : Modem) : Modem :=
  { m with bitTimer := 0, lapm := { m.lapm with rtxCount := 0 } }

def reset (m : Modem) : Modem :=
  { m with
    lapm :=
      { m.lapm with
        busy := false
        peerBusy := false
        vs := 0
        va := 0
        vr := 0
        sentInfo := m.lapm.infoList
        txInfo := m.lapm.infoList } }

def setPhase (m : Modem) (phase : LapmPhase) : Modem :=
  { m with lapm := { m.lapm with state := phase } }

def lapmDisconnect (m : Modem) : Modem := ((m.setPhase .disc).txDisc).timerStart

/-- `modem_ec_stop`. -/
def modemEcStop (m : Modem) : Modem :=
  lapmDisconnect { m with bitTimer := 0, packerProcess := false }

end Modem

end DModem
