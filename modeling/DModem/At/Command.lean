/-
The sub-commands of an AT command.

Each parser of `modem_at.c` reads the text at the pointer that it is given, and reports with
`*len` how many characters it has used.  A place is the distance of a pointer from the first
character of the sub-command.  What a parser does to the modem goes through the calls of
`DModem.Modem.Control`; the settings that only the parsers use are here.
-/

import DModem.Lib.CString
import DModem.Modem.Control

namespace DModem.At

open DModem.Lib DModem.Lib.Reading DModem.Modem

def modemMinRate : Nat := 300
def modemMaxRate : Nat := 56000

/-- `DP_V22`. -/
def dpV22 : Nat := 22

/-! ### The modem and its settings -/

structure Homolog where
  id : Nat
  name : List UInt8
  dialPauseTime : UInt8
  hookFlashTime : UInt8
  deriving DecidableEq, Repr

/-- A `struct dp_driver`; `code` and `op` say whether the fields are set. -/
structure DpDriver where
  id : Nat
  code : Bool
  op : Bool
  deriving DecidableEq, Repr

structure VoiceInfo where
  compMethod : Nat
  sampleRate : Nat
  rxGain : Nat
  txGain : Nat
  dtmfSymbol : Nat
  tone1Freq : Nat
  tone2Freq : Nat
  toneDuration : Nat
  inactivityTimer : Nat
  silenceDetectSensitivity : Nat
  silenceDetectPeriod : Nat
  deriving DecidableEq, Repr

inductive FaxCmd where
  | fts
  | frs
  | ftm
  | frm
  | fth
  | frh
  deriving DecidableEq, Repr

inductive VoiceCmd where
  | stateRx
  | stateTx
  | stateDuplex
  | beep
  | dtmf
  deriving DecidableEq, Repr

/-- What the parsers find around them: the texts and tables of the program, how the device
answers each call, and what `FAX_class1_command` returns. -/
structure Board where
  device : Nat → Device
  faxClass1Command : Nat → FaxCmd → Nat → Int
  modemName : List UInt8
  modemVersion : List UInt8
  modemAuthor : List UInt8
  devName : Option (List UInt8)
  driverName : Option (List UInt8)
  homologSet : List Homolog
  modemDpDrivers : List DpDriver

structure Console where
  modem : Modem
  minRate : Nat
  maxRate : Nat
  cidRequested : Nat
  voiceInfo : VoiceInfo
  homolog : Homolog
  dialString : List UInt8
  calls : Nat

namespace Console

def call (board : Board) (c : Console) (made : Call) : Console :=
  { c with modem := c.modem.call (board.device c.calls) made, calls := c.calls + 1 }

def sendToTty (board : Board) (c : Console) (bytes : List UInt8) : Console :=
  c.call board (.send bytes)

def sendCrlf (board : Board) (c : Console) : Console := c.sendToTty board c.modem.crlf

def sendLine (board : Board) (c : Console) (bytes : List UInt8) : Console :=
  (c.sendToTty board bytes).sendCrlf board

def modemSetSreg (board : Board) (c : Console) (num val : Nat) : Console :=
  c.call board (.setSreg num (UInt8.ofNat val))

def modemHomologInit (board : Board) (c : Console) (id : Nat) : Console × Bool :=
  match board.homologSet.find? fun set => set.id = id with
  | none => (c, false)
  | some set =>
      let c := { c with homolog := set }
      let c := c.modemSetSreg board sregDialPauseTime set.dialPauseTime.toNat
      (c.modemSetSreg board sregFlashTimer set.hookFlashTime.toNat, true)

def modemReset (board : Board) (c : Console) : Console :=
  let c := { c.call board .reset with minRate := modemMinRate, maxRate := modemMaxRate }
  (c.modemHomologInit board c.homolog.id).1

def modemVoiceInit (c : Console) : Console :=
  { c with
    voiceInfo :=
      { compMethod := 1
        sampleRate := 8000
        rxGain := 128
        txGain := 128
        dtmfSymbol := 0
        tone1Freq := 933
        tone2Freq := 0
        toneDuration := 150
        inactivityTimer := 0
        silenceDetectSensitivity := 128
        silenceDetectPeriod := 50 } }

/-- `modem_voice_command`; it never returns 0. -/
def modemVoiceCommand (board : Board) (c : Console) : VoiceCmd → Console × Int
  | .stateDuplex => (c, -1)
  | _ => if c.modem.voiceObj then (c.call board .voiceCommand, 1) else (c, -1)

/-- `modem_voice_set_device`; `device` is not more than `VOICE_DEVICE_LINE`. -/
def modemVoiceSetDevice (board : Board) (c : Console) (device : Nat) : Console × Int :=
  let line := decide (device ≠ 0)
  let started := (c.modem.modemVoiceStart (board.device c.calls)).2
  (c.call board (.voiceDevice line),
    if line then if c.modem.voiceObj then 0 else if started then 1 else -1 else 0)

end Console

/-- What a parser reports. -/
structure Sub where
  console : Console
  ret : Int
  len : Nat

/-- `return -1`; the caller does not look at `*len` then. -/
def Sub.failed (c : Console) : Sub := { console := c, ret := -1, len := 0 }

def status (ok : Bool) : Int := if ok then 0 else -1

/-! ### Texts -/

def text (s : String) : List UInt8 := s.toList.map ch

def digits : List UInt8 := word ['0', '1', '2', '3', '4', '5', '6', '7', '8', '9']

/-- `%x`. -/
def hexText (value : Nat) : List UInt8 := (Nat.toDigits 16 value).map ch

/-- `%u`. -/
def decimalText (value : Nat) : List UInt8 := (Nat.toDigits 10 value).map ch

/-- `%d` of an `unsigned`. -/
def intText (value : Nat) : List UInt8 :=
  if value < 2 ^ 31 then decimalText value else ch '-' :: decimalText (2 ^ 32 - value)

/-- `%.2d` and `%.3d`. -/
def paddedText (width value : Nat) : List UInt8 :=
  let digits := decimalText value
  List.replicate (width - digits.length) (ch '0') ++ digits

/-! ### AT commands -/

section Parsers

variable (board : Board) (c : Console) (place : Nat)

/-- `=` or `?` at the pointer; anything else is an error. -/
def question {α : Type} (place : Nat) (other shown : α) (set : Reading α) : Reading α := do
  match ← peek (word ['=', '?']) place with
  | none => pure other
  | some kind => if kind = ch '?' then pure shown else set

def setSreg (num low hi : Nat) : Reading Sub := do
  let digit ← peek digits place
  let value := (digit.getD (ch '0')).toNat - (ch '0').toNat
  let len := if digit.isSome then 1 else 0
  if low ≤ value ∧ value ≤ hi then
    pure { console := c.modemSetSreg board num value, ret := 0, len := len }
  else pure (Sub.failed c)

def processA : Console × Int :=
  (c.call board .answer, if (c.modem.modemAnswer (board.device c.calls)).2 then 1 else -1)

def processB : Console :=
  { (c.modemSetSreg board sregDp dpV22).modemSetSreg board sregAutomode 0 with
    minRate := 1200
    maxRate := 1200 }

def dial (c : Console) : Console × Int :=
  (c.call board .dial, if (c.modem.modemDial (board.device c.calls)).2 then 1 else -1)

def processD : Reading (Console × Int) := do
  match ← letter (word ['T', 'P', 'L']) place with
  | none =>
      let number ← copy 128 place
      pure (dial board { c with dialString := number })
  | some kind =>
      if kind = ch 'L' then
        let c := c.sendToTty board (text "Dialing ")
        let c := c.sendToTty board c.dialString
        pure (dial board (c.sendLine board (text "...")))
      else
        let c := c.modemSetSreg board sregToneOrPulse (if kind = ch 'T' then 1 else 0)
        let number ← copy 128 place
        pure (dial board { c with dialString := number })

def hook (hookState : Hook) (len : Nat) : Sub :=
  { console := c.call board (.hook hookState)
    ret := status (c.modem.modemHook (board.device c.calls) hookState).2
    len := len }

def processH : Reading Sub := do
  match ← peek (word ['0', '1']) place with
  | none =>
      match ← peek digits place with
      | some _ => pure (Sub.failed c)
      | none => pure (hook board c .on 0)
  | some state =>
      if state = ch '1' then pure (hook board c .off 1)
      else
        match ← peek digits (place + 1) with
        | some _ => pure (Sub.failed c)
        | none => pure (hook board c .on 1)

def sregTexts (c : Console) : Console :=
  let c := (List.range 24).foldl
    (fun c i =>
      let entry := text "s" ++ paddedText 2 i ++ text "=" ++
        paddedText 3 (c.modem.sregs i).toNat ++ text " "
      let c := c.sendToTty board entry
      if (i + 1) % 8 = 0 then c.sendCrlf board else c) c
  c.sendCrlf board

def information (c : Console) (number : Nat) : Option Console :=
  if number = 0 then some (c.sendLine board board.modemName)
  else if number = 1 ∨ number = 2 then
    let c := (c.sendToTty board board.modemName).sendToTty board (text ", ")
    some ((c.sendLine board board.modemVersion).sendLine board board.modemAuthor)
  else if number = 3 then
    let c := c.sendLine board (board.devName.getD (text "unknown"))
    some (c.sendLine board (board.driverName.getD (text "unknown")))
  else if number = 4 then some (sregTexts board c)
  else if number = 5 then some (c.sendLine board (text "Stored Profile 0:"))
  else if number = 6 then some (c.sendLine board (text "Stored Profile 1:"))
  else if number = 7 then
    some ((c.sendToTty board (text "Country: ")).sendLine board c.homolog.name)
  else none

def processI : Reading Sub := do
  let (value, len) ← number 0 place
  match information board c value with
  | none => pure (Sub.failed c)
  | some c => pure { console := c, ret := 0, len := len }

def processO : Console × Int :=
  (c.call board .online, if c.modem.modemOnline.2 then 1 else -1)

def processS : Reading Sub := do
  let (num, len) ← number 0 place
  if 256 ≤ num then pure (Sub.failed c)
  else
    match ← peek (word ['?', '=']) (place + len) with
    | none => pure (Sub.failed c)
    | some kind =>
        if kind = ch '?' then
          let c := c.sendLine board (decimalText (c.modem.sregs num).toNat)
          pure { console := c, ret := 0, len := len + 1 }
        else
          let (val, more) ← number 0 (place + len + 1)
          pure { console := c.modemSetSreg board num val, ret := 0, len := len + 1 + more }

def processZ : Reading (Console × Int) := do
  let _ ← peek (word ['1', '2', '3', '0']) place
  pure (c.modemReset board, 0)

/-! ### AT+ commands -/

def gciText (c : Console) : Console :=
  (c.sendToTty board (text "+GCI:")).sendLine board (hexText c.homolog.id)

def gciTexts (c : Console) : Console :=
  let c := (c.sendToTty board (text "+GCI:")).sendToTty board (text "(")
  let c := board.homologSet.foldl
    (fun c set => c.sendToTty board (hexText set.id ++ text ",")) c
  c.sendLine board (text ")")

def processPlusGCI : Reading Sub :=
  question place (Sub.failed c) { console := gciText board c, ret := 0, len := 1 } do
    match ← peek [ch '?'] (place + 1) with
    | some _ => pure { console := gciTexts board c, ret := 0, len := 2 }
    | none =>
        let (id, len) ← number 16 (place + 1)
        if len = 0 then pure (Sub.failed c)
        else
          let (c, found) := c.modemHomologInit board id
          pure { console := c, ret := status found, len := 1 + len }

/-- The drivers that `+MS` knows. -/
def msDrivers : List DpDriver :=
  board.modemDpDrivers.filter fun driver => driver.code && driver.op

def msTexts (c : Console) : Console :=
  let c := c.sendToTty board (text "(")
  let ids := (msDrivers board).map fun driver => decimalText driver.id
  let c := (ids.intersperse (text ",")).foldl (fun c part => c.sendToTty board part) c
  let c := c.sendToTty board (text "),(0,1),")
  let rates := text "(" ++ decimalText modemMinRate ++ text "-" ++ decimalText modemMaxRate ++
    text ")"
  (c.sendToTty board (rates ++ text ",")).sendLine board rates

/-- `PARSE_MS_ITEM`, from one item to the next; an item that is left out keeps its value. -/
def msItems : List Nat → Nat → Reading (List Nat × Nat)
  | [], _ => pure ([], 0)
  | item :: rest, place => do
      let (value, len) ← number 0 place
      let item := if len = 0 then item else value
      match ← peek [ch ','] (place + len) with
      | none => pure (item :: rest, len)
      | some _ =>
          let (items, more) ← msItems rest (place + len + 1)
          pure (item :: items, len + 1 + more)

/-- An `int` that has been given an `unsigned long`. -/
def asInt (value : Nat) : Int := (BitVec.ofNat 32 value).toInt

/-- `setup_ms`. -/
def setupMs (items : List Nat) (len : Nat) : Sub :=
  let dp := items.getD 0 0
  let autoMode := asInt (items.getD 1 0)
  let minRate := asInt (items.getD 2 0)
  let maxRate := asInt (items.getD 3 0)
  if dp ≠ (c.modem.sregs sregDp).toNat ∧ ¬ (msDrivers board).any (fun driver => driver.id = dp) then
    Sub.failed c
  else if autoMode ≠ 0 ∧ autoMode ≠ 1 ∨ maxRate < minRate ∨ minRate < modemMinRate ∨
      modemMaxRate < maxRate then
    Sub.failed c
  else
    let c := (c.modemSetSreg board sregDp dp).modemSetSreg board sregAutomode autoMode.toNat
    { console := { c with minRate := minRate.toNat, maxRate := maxRate.toNat }
      ret := 0
      len := len }

def msText (c : Console) : Console :=
  c.sendLine board
    (decimalText (c.modem.sregs sregDp).toNat ++ text "," ++
      decimalText (c.modem.sregs sregAutomode).toNat ++ text "," ++
      decimalText c.minRate ++ text "," ++ decimalText c.maxRate)

def processPlusMS : Reading Sub :=
  question place (Sub.failed c) { console := msText board c, ret := 0, len := 1 } do
    match ← peek [ch '?'] (place + 1) with
    | some _ => pure { console := msTexts board c, ret := 0, len := 2 }
    | none =>
        let current := [(c.modem.sregs sregDp).toNat, (c.modem.sregs sregAutomode).toNat,
          c.minRate, c.maxRate]
        let (items, len) ← msItems current (place + 1)
        pure (setupMs board c items (1 + len))

def modeDigit : ModemMode → UInt8
  | .data => ch '0'
  | .fax => ch '1'
  | .voice => ch '8'

def modeOf (digit : UInt8) : Option ModemMode :=
  if digit = ch '0' then some .data
  else if digit = ch '1' then some .fax
  else if digit = ch '8' then some .voice
  else none

def processPlusFCLASS : Reading Sub :=
  let shown := c.sendLine board [modeDigit c.modem.mode]
  question place (Sub.failed c) { console := shown, ret := 0, len := 1 } do
    match ← peek (ch '?' :: digits) (place + 1) with
    | none => pure (Sub.failed c)
    | some value =>
        if value = ch '?' then
          let c := (c.sendToTty board (text "0")).sendToTty board (text ",1")
          pure { console := c.sendLine board (text ",8"), ret := 0, len := 2 }
        else
          match modeOf value with
          | none => pure (Sub.failed c)
          | some mode => pure { console := c.call board (.setMode mode), ret := 0, len := 2 }

/-! ### Caller ID -/

def processCID : Reading Sub :=
  let shown := c.sendLine board [UInt8.ofNat ((ch '0').toNat + c.cidRequested)]
  question place (Sub.failed c) { console := shown, ret := 0, len := 1 } do
    match ← peek (word ['?', '0', '1', '2']) (place + 1) with
    | none => pure (Sub.failed c)
    | some value =>
        if value = ch '?' then
          pure { console := c.sendLine board (text "0,1,2"), ret := 0, len := 2 }
        else
          let requested := value.toNat - (ch '0').toNat
          let c := c.call board (.setCid (decide (requested ≠ 0)))
          pure { console := { c with cidRequested := requested }, ret := 0, len := 2 }

/-! ### Voice -/

/-- A `struct voice_param`, with the value of its variable. -/
structure VoiceParam where
  val : Nat
  min : Nat
  max : Nat

/-- The values after `=`, and their length; `none` is `return -1`. -/
def voiceValues : List VoiceParam → Nat → Reading (Option (List Nat × Nat))
  | [], _ => pure (some ([], 0))
  | param :: rest, place => do
      let (val, len) ← number 0 place
      if param.min ≠ 0 ∧ val < param.min ∨ param.max ≠ 0 ∧ param.max < val then pure none
      else if rest = [] then pure (some ([val], len))
      else
        match ← peek [ch ','] (place + len) with
        | none => pure none
        | some _ =>
            match ← voiceValues rest (place + len + 1) with
            | none => pure none
            | some (vals, more) => pure (some (val :: vals, len + 1 + more))

/-- `strncmp` with the character before or after the values; `none` is a difference. -/
def bracket (mark : Option UInt8) (place : Nat) : Reading (Option Nat) :=
  match mark with
  | none => pure (some 0)
  | some mark => do
      let found ← peek [mark] place
      pure (if found.isSome then some 1 else none)

def voiceText (cmd : List UInt8) (before after : Option UInt8) (items : List (List UInt8))
    (c : Console) : Console :=
  let c := c.sendToTty board (text "+" ++ cmd ++ text "=")
  let c := before.elim c fun mark => c.sendToTty board [mark]
  let c := (items.intersperse (text ",")).foldl (fun c part => c.sendToTty board part) c
  let c := after.elim c fun mark => c.sendToTty board [mark]
  c.sendCrlf board

/-- `set_voice_params` behind `=`, up to its end; `none` is `return -1`. -/
def voiceList (place : Nat) (params : List VoiceParam) (before after : Option UInt8) :
    Reading (Option (List Nat × Nat)) := do
  match ← bracket before place with
  | none => pure none
  | some opened =>
      match ← voiceValues params (place + opened) with
      | none => pure none
      | some (vals, len) =>
          match ← bracket after (place + opened + len) with
          | none => pure none
          | some closed => pure (some (vals, opened + len + closed))

/-- `set_voice_params`, with the values that are set. -/
def setVoiceParams (c : Console) (place : Nat) (cmd : List UInt8) (params : List VoiceParam)
    (before after : Option UInt8) : Reading (Sub × Option (List Nat)) :=
  let shown := voiceText board cmd before after (params.map fun param => intText param.val) c
  question place (Sub.failed c, none) ({ console := shown, ret := 0, len := 1 }, none) do
    match ← peek [ch '?'] (place + 1) with
    | some _ =>
        let items := params.map fun param => intText param.min ++ text "-" ++ intText param.max
        let c := voiceText board cmd before after items c
        pure ({ console := c, ret := 0, len := 2 }, none)
    | none =>
        match ← voiceList (place + 1) params before after with
        | none => pure (Sub.failed c, none)
        | some (vals, len) => pure ({ console := c, ret := 0, len := 1 + len }, some vals)

/-- A voice command that sets some values of `voice_info`. -/
def voiceSetting (cmd : List UInt8) (params : List VoiceParam)
    (store : List Nat → VoiceInfo → VoiceInfo) : Reading Sub := do
  let (sub, vals) ← setVoiceParams board c (place + 2) cmd params none none
  let set := vals.elim sub.console fun vals =>
    { sub.console with voiceInfo := store vals sub.console.voiceInfo }
  pure { sub with console := set, len := 2 + sub.len }

def toneParams : List VoiceParam :=
  [{ val := c.voiceInfo.tone1Freq, min := 0, max := 0 },
    { val := c.voiceInfo.tone2Freq, min := 0, max := 0 },
    { val := c.voiceInfo.toneDuration, min := 0, max := 6000 }]

def storeTone (vals : List Nat) (info : VoiceInfo) : VoiceInfo :=
  { info with
    tone1Freq := vals.getD 0 0
    tone2Freq := vals.getD 1 0
    toneDuration := vals.getD 2 0 }

/-- One of the forms of `+VTS=`, with the command that it gives. -/
structure VoiceTone where
  params : List VoiceParam
  before : Option UInt8
  after : Option UInt8
  store : List Nat → VoiceInfo → VoiceInfo
  cmd : VoiceCmd

def voiceTones : List VoiceTone :=
  [{ params := toneParams c
     before := some (ch '[')
     after := some (ch ']')
     store := storeTone
     cmd := .beep },
    { params :=
        [{ val := c.voiceInfo.dtmfSymbol, min := 0, max := 0 },
          { val := c.voiceInfo.toneDuration, min := 0, max := 100 }]
      before := some (ch '\x7b')
      after := some (ch '\x7d')
      store := fun vals info =>
        { info with dtmfSymbol := vals.getD 0 0, toneDuration := vals.getD 1 0 }
      cmd := .dtmf },
    { params := [{ val := c.voiceInfo.dtmfSymbol, min := 0, max := 0 }]
      before := none
      after := none
      store := fun vals info => { info with dtmfSymbol := vals.getD 0 0 }
      cmd := .dtmf }]

/-- The forms of `+VTS=` are tried one after the other. -/
def playTone (place : Nat) : List VoiceTone → Reading Sub
  | [] => pure (Sub.failed c)
  | tone :: rest => do
      let (sub, vals) ←
        setVoiceParams board c place (text "VTS") tone.params tone.before tone.after
      if sub.ret = 0 then
        let set := vals.elim sub.console fun vals =>
          { sub.console with voiceInfo := tone.store vals sub.console.voiceInfo }
        let (c, ret) := set.modemVoiceCommand board tone.cmd
        pure { console := c, ret := ret, len := 2 + sub.len }
      else playTone place rest

/-- `*p == '?' || (*p == '=' && *(p+1) == '?')`. -/
def listed (place : Nat) : Reading Bool := do
  match ← peek (word ['?', '=']) place with
  | none => pure false
  | some kind =>
      if kind = ch '?' then pure true
      else
        let second ← peek [ch '?'] (place + 1)
        pure second.isSome

/-- `AT+VTS`. -/
def processVTS : Reading Sub := do
  if ← listed (place + 2) then
    let (sub, _) ← setVoiceParams board c (place + 2) (text "VTS") (toneParams c) none none
    pure { sub with len := 2 + sub.len }
  else playTone board c (place + 2) (voiceTones c)

/-- `AT+VLS`. -/
def processVLS : Reading Sub := do
  let device := if c.modem.voiceObj then 1 else 0
  let (sub, vals) ← setVoiceParams board c (place + 2) (text "VLS")
    [{ val := device, min := 0, max := 1 }] none none
  if sub.ret ≠ 0 then pure sub
  else
    let (c, ret) := sub.console.modemVoiceSetDevice board ((vals.getD [device]).getD 0 0)
    pure { console := c, ret := ret, len := 2 + sub.len }

def voiceState (cmd : VoiceCmd) : Reading Sub :=
  let (c, ret) := c.modemVoiceCommand board cmd
  pure { console := c, ret := ret, len := 2 }

def select {α : Type} (place : Nat) : List (List UInt8 × Reading α) → Reading α → Reading α
  | [], other => other
  | (key, action) :: rest, other => do
      if ← keyword key place then action else select place rest other

def voiceCommands : List (List UInt8 × Reading Sub) :=
  let info := c.voiceInfo
  [(word ['I', 'P'], pure { console := c.modemVoiceInit, ret := 0, len := 2 }),
    (word ['N', 'H'], voiceSetting board c place (text "VNH") [{ val := 0, min := 0, max := 1 }]
      fun _ info => info),
    (word ['G', 'T'], voiceSetting board c place (text "VGT")
      [{ val := info.txGain, min := 0, max := 128 }]
      fun vals info => { info with txGain := vals.getD 0 0 }),
    (word ['G', 'R'], voiceSetting board c place (text "VGR")
      [{ val := info.rxGain, min := 0, max := 128 }]
      fun vals info => { info with rxGain := vals.getD 0 0 }),
    (word ['I', 'T'], voiceSetting board c place (text "VIT")
      [{ val := info.inactivityTimer, min := 0, max := 255 }]
      fun vals info => { info with inactivityTimer := vals.getD 0 0 }),
    (word ['S', 'D'], voiceSetting board c place (text "VSD")
      [{ val := info.silenceDetectSensitivity, min := 0, max := 255 },
        { val := info.silenceDetectPeriod, min := 0, max := 255 }]
      fun vals info =>
        { info with
          silenceDetectSensitivity := vals.getD 0 0
          silenceDetectPeriod := vals.getD 1 0 }),
    (word ['S', 'M'], voiceSetting board c place (text "VSM")
      [{ val := info.compMethod, min := 0, max := 1 },
        { val := info.sampleRate, min := 8000, max := 8000 }]
      fun vals info => { info with compMethod := vals.getD 0 0, sampleRate := vals.getD 1 0 }),
    (word ['L', 'S'], processVLS board c place),
    (word ['T', 'X'], voiceState board c .stateTx),
    (word ['R', 'X'], voiceState board c .stateRx),
    (word ['T', 'R'], voiceState board c .stateDuplex),
    (word ['T', 'S'], processVTS board c place)]

def processVoiceCommand : Reading Sub :=
  select place (voiceCommands board c place) (pure (Sub.failed c))

/-! ### Fax -/

def faxCommand (cmd : FaxCmd) (val len : Nat) : Sub :=
  { console := { c with calls := c.calls + 1 }
    ret := board.faxClass1Command c.calls cmd val
    len := len }

/-- `+FTS=` and `+FRS=`. -/
def faxSilence (cmd : FaxCmd) : Reading Sub := do
  let (val, len) ← number 0 (place + 3)
  if len = 0 then pure (Sub.failed c) else pure (faxCommand board c cmd val (3 + len))

/-- `+FTM=` and `+FRM=`. -/
def faxData (cmd : FaxCmd) : Reading Sub := do
  match ← peek [ch '?'] (place + 3) with
  | some _ =>
      let list := text "24,48,72,73,74,96,97,98,121,122,145,146"
      pure { console := c.sendLine board list, ret := 0, len := 4 }
  | none =>
      let (val, len) ← number 0 (place + 3)
      if len = 0 then pure (Sub.failed c) else pure (faxCommand board c cmd val (4 + len - 1))

/-- `+FRH=` and `+FTH=`. -/
def faxHdlc (cmd : FaxCmd) : Reading Sub := do
  match ← peek (ch '?' :: digits) (place + 3) with
  | none => pure (Sub.failed c)
  | some value =>
      if value = ch '?' then pure { console := c.sendLine board (text "3"), ret := 0, len := 4 }
      else pure (faxCommand board c cmd (value.toNat - (ch '0').toNat) 4)

def faxCommands : List (List UInt8 × Reading Sub) :=
  [(word ['T', 'S', '='], faxSilence board c place .fts),
    (word ['R', 'S', '='], faxSilence board c place .frs),
    (word ['T', 'M', '='], faxData board c place .ftm),
    (word ['R', 'M', '='], faxData board c place .frm),
    (word ['R', 'H', '='], faxHdlc board c place .frh),
    (word ['T', 'H', '='], faxHdlc board c place .fth)]

def processFaxCommand : Reading Sub :=
  select place (faxCommands board c place) (pure (Sub.failed c))

end Parsers

end DModem.At
