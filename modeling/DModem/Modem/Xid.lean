/-
XID frames: `rx_xid` with its two parameter parsers, `tx_xid`, and
`modem_update_config`.

A pointer into the received frame is the list of the bytes from it to the end of
the buffer; a read behind the buffer gives 0.  `len` is the signed length that the
loops count down.  A round of each loop takes at least two off it, so that
`len` rounds are enough.
-/

import DModem.Modem.Status

namespace DModem

def fiGeneral : UInt8 := 0x82
def giParamNegotiation : UInt8 := 0x80
def giPrivateNegotiation : UInt8 := 0xf0
def piHdlcOptfuncs : UInt8 := 0x03
def piTxInfoMaxsize : UInt8 := 0x05
def piRxInfoMaxsize : UInt8 := 0x06
def piTxWindowSize : UInt8 := 0x07
def piRxWindowSize : UInt8 := 0x08
def piParameterSetId : UInt8 := 0x00
def piV42bisRequest : UInt8 := 0x01
def piV42bisCwNumber : UInt8 := 0x02
def piV42bisMaxString : UInt8 := 0x03
def lapmDfltWinSize : Nat := 15
def lapmDfltInfoSize : Nat := 128

/-- `lapm_get_be_val`, in 32 bits. -/
def lapmGetBeVal (buf : List UInt8) (len : Nat) : Nat :=
  (List.range len).foldl (fun val i => (val * 256 + (buf.getD i 0).toNat) % 2 ^ 32) 0

/-- `lapm_get_le_val`, in 32 bits. -/
def lapmGetLeVal (buf : List UInt8) (len : Nat) : Nat :=
  (List.range len).reverse.foldl (fun val i => (val * 256 + (buf.getD i 0).toNat) % 2 ^ 32) 0

/-- `SET_PARAM`. -/
def setParam (param value dflt : Nat) : Nat :=
  if (value < dflt ∧ dflt ≤ param) ∨ (dflt ≤ value ∧ param < dflt) then dflt
  else if (value < dflt ∧ param < value) ∨ (dflt ≤ value ∧ value < param) then value
  else param

namespace Modem

def parseXidParam (l : LapmState) (pid : UInt8) (plen : Nat) (buf : List UInt8) : LapmState :=
  if pid = piTxInfoMaxsize then
    { l with txInfoSize := setParam l.txInfoSize (lapmGetBeVal buf plen >>> 3) lapmDfltInfoSize }
  else if pid = piRxInfoMaxsize then
    { l with rxInfoSize := setParam l.rxInfoSize (lapmGetBeVal buf plen >>> 3) lapmDfltInfoSize }
  else if pid = piTxWindowSize then
    { l with txWinSize := setParam l.txWinSize (lapmGetBeVal buf plen) lapmDfltWinSize }
  else if pid = piRxWindowSize then
    { l with rxWinSize := setParam l.rxWinSize (lapmGetBeVal buf plen) lapmDfltWinSize }
  else l

def parseXidParams : Nat → LapmState → List UInt8 → Int → LapmState
  | 0, l, _, _ => l
  | rounds + 1, l, buf, len =>
      if len ≤ 0 then l
      else
        let plen := (buf.getD 1 0).toNat
        let left := len - (2 + plen)
        if left < 0 then l
        else
          parseXidParams rounds (parseXidParam l (buf.getD 0 0) plen (buf.drop 2))
            (buf.drop (2 + plen)) left

/-- A 32-bit value stored into an `int`. -/
def toInt32 (val : Nat) : Int := (BitVec.ofNat 32 val).toInt

def parseXidPrivateParam (cfg : ModemConfig) (pid : UInt8) (plen : Nat) (buf : List UInt8) :
    ModemConfig :=
  if pid = piV42bisRequest then { cfg with comp := UInt8.ofNat (lapmGetLeVal buf plen) }
  else if pid = piV42bisCwNumber then
    { cfg with compDictSize := toInt32 (lapmGetBeVal buf plen) }
  else if pid = piV42bisMaxString then
    { cfg with compMaxString := toInt32 (lapmGetBeVal buf plen) }
  else cfg

def parseXidPrivateParams : Nat → ModemConfig → List UInt8 → Int → ModemConfig
  | 0, cfg, _, _ => cfg
  | rounds + 1, cfg, buf, len =>
      if len ≤ 0 then cfg
      else
        let plen := (buf.getD 1 0).toNat
        let left := len - (2 + plen)
        if left < 0 then cfg
        else
          parseXidPrivateParams rounds (parseXidPrivateParam cfg (buf.getD 0 0) plen (buf.drop 2))
            (buf.drop (2 + plen)) left

def defaultModemEcConfig : ModemConfig :=
  { ec := true
    ecDetector := true
    ecTxWinSize := 15
    ecRxWinSize := 15
    ecTxInfoSize := 128
    ecRxInfoSize := 128
    comp := 0
    compDictSize := 512
    compMaxString := 6 }

/-- The loop of `rx_xid` over the groups. -/
def parseXidGroups : Nat → LapmState → ModemConfig → List UInt8 → Int → LapmState × ModemConfig
  | 0, l, cfg, _, _ => (l, cfg)
  | rounds + 1, l, cfg, buf, len =>
      if len ≤ 0 then (l, cfg)
      else
        let gid := buf.getD 0 0
        let glen := (buf.getD 1 0).toNat * 256 + (buf.getD 2 0).toNat
        let left := len - (3 + glen)
        if left < 0 then (l, cfg)
        else
          let group := buf.drop 3
          let l := if gid = giParamNegotiation then parseXidParams glen l group glen else l
          let cfg :=
            if gid = giPrivateNegotiation then parseXidPrivateParams glen cfg group glen else cfg
          parseXidGroups rounds l cfg (buf.drop (3 + glen)) left

/-- `comp_config`; `none` is the refusal of the sizes. -/
def compConfig (c : CompSizes) (dictSize maxStr : Int) : Option CompSizes :=
  if dictSize < 512 ∨ maxStr < 6 ∨ 250 < maxStr then none
  else if c.dictSize < dictSize ∨ 34 < maxStr then none
  else some { dictSize := dictSize, maxString := maxStr }

/-- `modem_comp_config`: the encoder keeps its new sizes also when the decoder
refuses them. -/
def modemCompConfig (m : Modem) (dictSize maxStr : Int) : Modem × Bool :=
  match compConfig m.encoder dictSize maxStr with
  | none => (m, false)
  | some encoder =>
      match compConfig m.decoder dictSize maxStr with
      | none => ({ m with encoder := encoder }, false)
      | some decoder => ({ m with encoder := encoder, decoder := decoder }, true)

def modemUpdateConfig (m : Modem) (cfg : ModemConfig) : Modem :=
  if cfg.comp ≠ 0 ∧ m.cfg.comp ≠ 0 then
    let m := { m with cfg := { m.cfg with comp := cfg.comp } }
    let configured := m.modemCompConfig cfg.compDictSize cfg.compMaxString
    if configured.2 then
      { configured.1 with
        cfg :=
          { configured.1.cfg with
            compDictSize := cfg.compDictSize
            compMaxString := cfg.compMaxString } }
    else configured.1
  else { m with cfg := { m.cfg with comp := 0 } }

def rxXid (m : Modem) (f : Hdlc.Frame) : Modem :=
  if f.buf.getD 2 0 ≠ fiGeneral then m
  else
    let len : Int := (f.count : Int) - 3
    let parsed := parseXidGroups len.toNat m.lapm defaultModemEcConfig (f.buf.drop 3) len
    let cfg :=
      { parsed.2 with
        ecTxWinSize := parsed.1.txWinSize % 256
        ecRxWinSize := parsed.1.rxWinSize % 256
        ecTxInfoSize := parsed.1.txInfoSize % 65536
        ecRxInfoSize := parsed.1.rxInfoSize % 65536 }
    modemUpdateConfig { m with lapm := parsed.1 } cfg

def xidPrivateGroup (m : Modem) : List UInt8 :=
  if m.cfg.comp = 0 then []
  else
    [giPrivateNegotiation, 0, 15,
      piParameterSetId, 3, 0x56, 0x34, 0x32,
      piV42bisRequest, 1, m.cfg.comp,
      piV42bisCwNumber, 2, UInt8.ofInt (m.cfg.compDictSize / 256), UInt8.ofInt m.cfg.compDictSize,
      piV42bisMaxString, 1, UInt8.ofInt m.cfg.compMaxString]

def xidFrame (m : Modem) (addr : UInt8) : List UInt8 :=
  let txInfo := m.lapm.txInfoSize <<< 3
  let rxInfo := m.lapm.rxInfoSize <<< 3
  [addr, frameUXid, fiGeneral,
    giParamNegotiation, 0, 19,
    piHdlcOptfuncs, 3, 0x8a, 0x89, 0x00,
    piTxInfoMaxsize, 2, UInt8.ofNat (txInfo >>> 8), UInt8.ofNat txInfo,
    piRxInfoMaxsize, 2, UInt8.ofNat (rxInfo >>> 8), UInt8.ofNat rxInfo,
    piTxWindowSize, 1, UInt8.ofNat m.lapm.txWinSize,
    piRxWindowSize, 1, UInt8.ofNat m.lapm.rxWinSize] ++ m.xidPrivateGroup

def txXid (m : Modem) (addr : UInt8) : Modem := m.putCtrl (m.xidFrame addr)

end Modem

end DModem
