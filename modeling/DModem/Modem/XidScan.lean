/-
The reads of `rx_xid`.

`rx_xid` and its two parsers again, as programs that read the buffer one byte at a time.  A
read of the tag or the length of a parameter, or of its value, carries the place at which the
group ends.  The two bytes of the check sequence behind the contents may be read; a value is
never read beyond its group, nor a group beyond the frame.
-/

import DModem.Lib.Scan
import DModem.Modem.Control
import DModem.Modem.Effects

namespace DModem

open DModem.Lib

/-- What is read: the format identifier or the head of a group, the head of a parameter in a
group that ends at `stop`, or a byte of a value in it. -/
inductive XidRead where
  | frame
  | head (stop : Nat)
  | value (stop : Nat)
  deriving DecidableEq, Repr

abbrev XidScan : Type → Type := Scan (fun _ : XidRead => UInt8)

namespace XidScan

def answer (_ : XidRead) (memory : List UInt8) : Option UInt8 := memory.head?

def read (op : XidRead) (place : Nat) : XidScan UInt8 := .ask place op .done

/-- `lapm_get_be_val`. -/
def lapmGetBeVal (stop : Nat) : Nat → Nat → Nat → XidScan Nat
  | 0, _, val => pure val
  | len + 1, place, val => do
      let byte ← read (.value stop) place
      lapmGetBeVal stop len (place + 1) ((val * 256 + byte.toNat) % 2 ^ 32)

/-- `lapm_get_le_val`. -/
def lapmGetLeVal (stop place : Nat) : Nat → Nat → XidScan Nat
  | 0, val => pure val
  | len + 1, val => do
      let byte ← read (.value stop) (place + len)
      lapmGetLeVal stop place len ((val * 256 + byte.toNat) % 2 ^ 32)

/-- The `switch` of `parse_xid_params`. -/
def parseXidParam (stop : Nat) (l : LapmState) (pid : UInt8) (plen place : Nat) :
    XidScan LapmState :=
  if pid = piHdlcOptfuncs then do
    let _ ← lapmGetLeVal stop place plen 0
    pure l
  else if pid = piTxInfoMaxsize then do
    let pval ← lapmGetBeVal stop plen place 0
    pure { l with txInfoSize := setParam l.txInfoSize (pval >>> 3) lapmDfltInfoSize }
  else if pid = piRxInfoMaxsize then do
    let pval ← lapmGetBeVal stop plen place 0
    pure { l with rxInfoSize := setParam l.rxInfoSize (pval >>> 3) lapmDfltInfoSize }
  else if pid = piTxWindowSize then do
    let pval ← lapmGetBeVal stop plen place 0
    pure { l with txWinSize := setParam l.txWinSize pval lapmDfltWinSize }
  else if pid = piRxWindowSize then do
    let pval ← lapmGetBeVal stop plen place 0
    pure { l with rxWinSize := setParam l.rxWinSize pval lapmDfltWinSize }
  else pure l

/-- The `switch` of `parse_xid_private_params`. -/
def parseXidPrivateParam (stop : Nat) (cfg : ModemConfig) (pid : UInt8) (plen place : Nat) :
    XidScan ModemConfig :=
  if pid = piV42bisRequest then do
    let pval ← lapmGetLeVal stop place plen 0
    pure { cfg with comp := UInt8.ofNat pval }
  else if pid = piV42bisCwNumber then do
    let pval ← lapmGetBeVal stop plen place 0
    pure { cfg with compDictSize := Modem.toInt32 pval }
  else if pid = piV42bisMaxString then do
    let pval ← lapmGetBeVal stop plen place 0
    pure { cfg with compMaxString := Modem.toInt32 pval }
  else pure cfg

/-- The loop that `parse_xid_params` and `parse_xid_private_params` share. -/
def parameters {α : Type} (param : α → UInt8 → Nat → Nat → XidScan α) (stop : Nat) (state : α)
    (place len : Nat) : XidScan α :=
  if len = 0 then pure state
  else do
    let pid ← read (.head stop) place
    let plen ← read (.head stop) (place + 1)
    if len < 2 + plen.toNat then pure state
    else do
      let state ← param state pid plen.toNat (place + 2)
      parameters param stop state (place + 2 + plen.toNat) (len - (2 + plen.toNat))
termination_by len
decreasing_by omega

def parseXidParams (stop : Nat) : LapmState → Nat → Nat → XidScan LapmState :=
  parameters (parseXidParam stop) stop

def parseXidPrivateParams (stop : Nat) : ModemConfig → Nat → Nat → XidScan ModemConfig :=
  parameters (parseXidPrivateParam stop) stop

/-- The `switch` of `rx_xid`. -/
def group (l : LapmState) (cfg : ModemConfig) (gid : UInt8) (glen place : Nat) :
    XidScan (LapmState × ModemConfig) :=
  if gid = giParamNegotiation then do
    let l ← parseXidParams (place + glen) l place glen
    pure (l, cfg)
  else if gid = giPrivateNegotiation then do
    let cfg ← parseXidPrivateParams (place + glen) cfg place glen
    pure (l, cfg)
  else pure (l, cfg)

/-- The loop of `rx_xid`. -/
def groups (l : LapmState) (cfg : ModemConfig) (place len : Nat) :
    XidScan (LapmState × ModemConfig) :=
  if len = 0 then pure (l, cfg)
  else do
    let gid ← read .frame place
    let high ← read .frame (place + 1)
    let low ← read .frame (place + 2)
    if len < 3 + (high.toNat * 256 + low.toNat) then pure (l, cfg)
    else do
      let parsed ← group l cfg gid (high.toNat * 256 + low.toNat) (place + 3)
      groups parsed.1 parsed.2 (place + 3 + (high.toNat * 256 + low.toNat))
        (len - (3 + (high.toNat * 256 + low.toNat)))
termination_by len
decreasing_by omega

/-- `rx_xid` up to `modem_update_config`. -/
def rxXid (l : LapmState) (count : Nat) : XidScan (Option (LapmState × ModemConfig)) := do
  let fid ← read .frame 2
  if fid ≠ fiGeneral then pure none
  else do
    let parsed ← groups l Modem.defaultModemEcConfig 3 (count - 3)
    pure (some parsed)

end XidScan

/-- A read in a frame of `count` bytes: of the frame with the check sequence behind it, of the
head of a parameter that begins in its group, or of a value in its group; a group ends in the
frame. -/
def XidRead.Within (count : Nat) : Nat × XidRead → Prop
  | (place, .frame) => place < count + 2
  | (place, .head stop) => place ≤ stop ∧ stop ≤ count
  | (place, .value stop) => place < stop ∧ stop ≤ count

theorem XidRead.Within.below {count : Nat} {query : Nat × XidRead}
    (within : XidRead.Within count query) : query.1 < count + 2 := by
  obtain ⟨place, op⟩ := query
  cases op with
  | frame => exact within
  | head stop =>
      obtain ⟨begins, ends⟩ := within
      simp only
      omega
  | value stop =>
      obtain ⟨begins, ends⟩ := within
      simp only
      omega

namespace XidScan

section Reads

variable {buf : List UInt8} {count : Nat} {α β : Type}

/-- The program ends with this result, and its reads are within a frame of `count` bytes. -/
def Gives (buf : List UInt8) (count : Nat) (program : XidScan α) (result : α) : Prop :=
  program.Meets answer buf fun given reads =>
    given = result ∧ ∀ query ∈ reads, XidRead.Within count query

theorem Gives.pure (result : α) : Gives buf count (Pure.pure result) result :=
  Scan.Meets.pure ⟨rfl, fun _ none => absurd none (List.not_mem_nil)⟩

theorem Gives.bind {program : XidScan α} {rest : α → XidScan β} {result : α} {last : β}
    (first : Gives buf count program result) (second : Gives buf count (rest result) last) :
    Gives buf count (program >>= rest) last := by
  refine Scan.Meets.bind first ?_
  rintro given reads ⟨rfl, within⟩
  refine second.imp ?_
  rintro other more ⟨rfl, within'⟩
  refine ⟨rfl, fun query member => ?_⟩
  rcases List.mem_append.mp member with early | late
  · exact within query early
  · exact within' query late

theorem Gives.read {op : XidRead} {place : Nat} (inside : place < buf.length)
    (within : XidRead.Within count (place, op)) :
    Gives buf count (read op place) (buf.getD place 0) := by
  have given : answer op (buf.drop place) = some (buf.getD place 0) := by
    unfold answer
    rw [List.head?_drop, List.getD_eq_getElem?_getD, List.getElem?_eq_getElem inside]
    rfl
  refine Scan.Meets.ask given ⟨_, rfl, rfl, fun query member => ?_⟩
  obtain rfl := List.mem_singleton.mp member
  exact within

theorem getD_drop (place i : Nat) : (buf.drop place).getD i 0 = buf.getD (place + i) 0 := by
  rw [List.getD_eq_getElem?_getD, List.getD_eq_getElem?_getD, List.getElem?_drop]

theorem gives_beVal {stop : Nat} (ends : stop ≤ count) (room : count + 2 ≤ buf.length)
    (len place val : Nat) (inside : place + len ≤ stop) :
    Gives buf count (lapmGetBeVal stop len place val)
      ((List.range len).foldl
        (fun val i => (val * 256 + ((buf.drop place).getD i 0).toNat) % 2 ^ 32) val) := by
  induction len generalizing place val with
  | zero => exact Gives.pure val
  | succ len ih =>
      refine Gives.bind (Gives.read (by omega) ⟨by omega, ends⟩) ?_
      have later := ih (place + 1) ((val * 256 + (buf.getD place 0).toNat) % 2 ^ 32) (by omega)
      rw [List.range_succ_eq_map, List.foldl_cons, List.foldl_map]
      simp only [getD_drop, Nat.add_zero] at later ⊢
      have shifted : ∀ i, place + 1 + i = place + i.succ := fun i => by omega
      simp only [shifted] at later
      exact later

theorem gives_leVal {stop : Nat} (ends : stop ≤ count) (room : count + 2 ≤ buf.length)
    (len place val : Nat) (inside : place + len ≤ stop) :
    Gives buf count (lapmGetLeVal stop place len val)
      ((List.range len).reverse.foldl
        (fun val i => (val * 256 + ((buf.drop place).getD i 0).toNat) % 2 ^ 32) val) := by
  induction len generalizing val with
  | zero => exact Gives.pure val
  | succ len ih =>
      refine Gives.bind (Gives.read (by omega) ⟨by omega, ends⟩) ?_
      rw [List.range_succ, List.reverse_append, List.reverse_singleton, List.singleton_append,
        List.foldl_cons, getD_drop]
      exact ih _ (by omega)

theorem gives_param {stop : Nat} (ends : stop ≤ count) (room : count + 2 ≤ buf.length)
    (l : LapmState) (pid : UInt8) (plen place : Nat) (inside : place + plen ≤ stop) :
    Gives buf count (parseXidParam stop l pid plen place)
      (Modem.parseXidParam l pid plen (buf.drop place)) := by
  have value := gives_beVal ends room plen place 0 inside
  unfold parseXidParam Modem.parseXidParam
  by_cases functions : pid = piHdlcOptfuncs
  · rw [if_pos functions, functions]
    exact Gives.bind (gives_leVal ends room plen place 0 inside) (Gives.pure l)
  · rw [if_neg functions]
    split_ifs
    · exact Gives.bind value (Gives.pure _)
    · exact Gives.bind value (Gives.pure _)
    · exact Gives.bind value (Gives.pure _)
    · exact Gives.bind value (Gives.pure _)
    · exact Gives.pure l

theorem gives_privateParam {stop : Nat} (ends : stop ≤ count) (room : count + 2 ≤ buf.length)
    (cfg : ModemConfig) (pid : UInt8) (plen place : Nat) (inside : place + plen ≤ stop) :
    Gives buf count (parseXidPrivateParam stop cfg pid plen place)
      (Modem.parseXidPrivateParam cfg pid plen (buf.drop place)) := by
  have value := gives_beVal ends room plen place 0 inside
  have request := gives_leVal ends room plen place 0 inside
  unfold parseXidPrivateParam Modem.parseXidPrivateParam
  split_ifs
  · exact Gives.bind request (Gives.pure _)
  · exact Gives.bind value (Gives.pure _)
  · exact Gives.bind value (Gives.pure _)
  · exact Gives.pure cfg

/-! ### Loops -/

def paramLoop (param : α → UInt8 → Nat → List UInt8 → α) : Nat → α → List UInt8 → Int → α
  | 0, state, _, _ => state
  | rounds + 1, state, group, len =>
      if len ≤ 0 then state
      else
        let plen := (group.getD 1 0).toNat
        let left := len - (2 + plen)
        if left < 0 then state
        else
          paramLoop param rounds (param state (group.getD 0 0) plen (group.drop 2))
            (group.drop (2 + plen)) left

theorem parseXidParams_loop (rounds : Nat) (l : LapmState) (group : List UInt8) (len : Int) :
    Modem.parseXidParams rounds l group len =
      paramLoop Modem.parseXidParam rounds l group len := by
  induction rounds generalizing l group len with
  | zero => rfl
  | succ rounds ih =>
      unfold Modem.parseXidParams paramLoop
      simp only [ih]

theorem parseXidPrivateParams_loop (rounds : Nat) (cfg : ModemConfig) (group : List UInt8)
    (len : Int) :
    Modem.parseXidPrivateParams rounds cfg group len =
      paramLoop Modem.parseXidPrivateParam rounds cfg group len := by
  induction rounds generalizing cfg group len with
  | zero => rfl
  | succ rounds ih =>
      unfold Modem.parseXidPrivateParams paramLoop
      simp only [ih]

theorem gives_parameters {param : α → UInt8 → Nat → Nat → XidScan α}
    {pure' : α → UInt8 → Nat → List UInt8 → α} {stop : Nat} (ends : stop ≤ count)
    (room : count + 2 ≤ buf.length)
    (each : ∀ state pid plen place, place + plen ≤ stop →
      Gives buf count (param state pid plen place) (pure' state pid plen (buf.drop place)))
    (rounds : Nat) (state : α) (place len : Nat) (enough : len ≤ rounds)
    (inside : place + len = stop) :
    Gives buf count (parameters param stop state place len)
      (paramLoop pure' rounds state (buf.drop place) len) := by
  induction rounds generalizing state place len with
  | zero =>
      obtain rfl : len = 0 := by omega
      unfold parameters
      exact Gives.pure state
  | succ rounds ih =>
      unfold parameters paramLoop
      by_cases empty : len = 0
      · rw [if_pos empty, if_pos (by omega)]
        exact Gives.pure state
      · rw [if_neg empty, if_neg (by omega)]
        simp only [getD_drop, Nat.add_zero, List.drop_drop]
        refine Gives.bind (Gives.read (by omega) ⟨by omega, ends⟩)
          (Gives.bind (Gives.read (by omega) ⟨by omega, ends⟩) ?_)
        generalize (buf.getD (place + 1) 0).toNat = plen
        by_cases beyond : len < 2 + plen
        · rw [if_pos beyond, if_pos (by omega)]
          exact Gives.pure state
        · rw [if_neg beyond, if_neg (by omega)]
          refine Gives.bind (each state _ plen (place + 2) (by omega)) ?_
          have later := ih (pure' state (buf.getD place 0) plen (buf.drop (place + 2)))
            (place + 2 + plen) (len - (2 + plen)) (by omega) (by omega)
          have left : ((len - (2 + plen) : Nat) : Int) = (len : Int) - (2 + (plen : Int)) := by
            omega
          rw [left, Nat.add_assoc] at later
          rw [Nat.add_assoc]
          exact later

theorem gives_group (room : count + 2 ≤ buf.length) (l : LapmState) (cfg : ModemConfig)
    (gid : UInt8) (glen place : Nat) (inside : place + glen ≤ count) :
    Gives buf count (group l cfg gid glen place)
      (if gid = giParamNegotiation then
          Modem.parseXidParams glen l (buf.drop place) glen else l,
        if gid = giPrivateNegotiation then
          Modem.parseXidPrivateParams glen cfg (buf.drop place) glen else cfg) := by
  unfold group
  by_cases params : gid = giParamNegotiation
  · have other : ¬gid = giPrivateNegotiation := by
      rw [params]
      decide
    rw [if_pos params, if_pos params, if_neg other, parseXidParams_loop]
    exact Gives.bind (gives_parameters inside room
      (fun l pid plen place fits => gives_param inside room l pid plen place fits)
      glen l place glen (Nat.le_refl glen) rfl) (Gives.pure _)
  · rw [if_neg params, if_neg params]
    by_cases secret : gid = giPrivateNegotiation
    · rw [if_pos secret, if_pos secret, parseXidPrivateParams_loop]
      exact Gives.bind (gives_parameters inside room
        (fun cfg pid plen place fits => gives_privateParam inside room cfg pid plen place fits)
        glen cfg place glen (Nat.le_refl glen) rfl) (Gives.pure _)
    · rw [if_neg secret, if_neg secret]
      exact Gives.pure _

theorem gives_groups (room : count + 2 ≤ buf.length) (rounds : Nat) (l : LapmState)
    (cfg : ModemConfig) (place len : Nat) (enough : len ≤ rounds)
    (inside : len ≠ 0 → place + len = count) :
    Gives buf count (groups l cfg place len)
      (Modem.parseXidGroups rounds l cfg (buf.drop place) len) := by
  induction rounds generalizing l cfg place len with
  | zero =>
      obtain rfl : len = 0 := by omega
      unfold groups
      exact Gives.pure (l, cfg)
  | succ rounds ih =>
      unfold groups Modem.parseXidGroups
      by_cases empty : len = 0
      · rw [if_pos empty, if_pos (by omega)]
        exact Gives.pure (l, cfg)
      · have ends := inside empty
        have header (i : Nat) (low : i < 3) :
            Gives buf count (read .frame (place + i)) (buf.getD (place + i) 0) :=
          Gives.read (by omega) (show place + i < count + 2 by omega)
        rw [if_neg empty, if_neg (by omega)]
        simp only [getD_drop, Nat.add_zero, List.drop_drop]
        refine Gives.bind (header 0 (by omega)) (Gives.bind (header 1 (by omega))
          (Gives.bind (header 2 (by omega)) ?_))
        generalize (buf.getD (place + 1) 0).toNat * 256 + (buf.getD (place + 2) 0).toNat = glen
        by_cases beyond : len < 3 + glen
        · rw [if_pos beyond, if_pos (by omega)]
          exact Gives.pure (l, cfg)
        · rw [if_neg beyond, if_neg (by omega)]
          refine Gives.bind (gives_group room l cfg _ glen (place + 3) (by omega)) ?_
          have left : ((len - (3 + glen) : Nat) : Int) = (len : Int) - (3 + (glen : Int)) := by
            omega
          have later := fun l cfg => ih l cfg (place + 3 + glen) (len - (3 + glen)) (by omega)
            (by omega)
          simp only [left, Nat.add_assoc] at later ⊢
          exact later _ _

/-- `rx_xid` reads within the frame. -/
theorem gives_rxXid (full : 1 ≤ count) (room : count + 2 ≤ buf.length) (l : LapmState) :
    Gives buf count (rxXid l count)
      (if buf.getD 2 0 ≠ fiGeneral then none
        else some (Modem.parseXidGroups (count - 3) l Modem.defaultModemEcConfig (buf.drop 3)
          (count - 3 : Nat))) := by
  unfold rxXid
  refine Gives.bind (Gives.read (by omega) (show 2 < count + 2 by omega)) ?_
  by_cases other : buf.getD 2 0 ≠ fiGeneral
  · rw [if_pos other, if_pos other]
    exact Gives.pure none
  · rw [if_neg other, if_neg other]
    exact Gives.bind (gives_groups room (count - 3) l Modem.defaultModemEcConfig 3 (count - 3)
      (Nat.le_refl _) (by omega)) (Gives.pure _)

end Reads

end XidScan

/-! ### Limits -/

/-- The sizes of the windows and of the frames are the default ones. -/
structure LapmState.AtLimits (l : LapmState) : Prop where
  txWinSize : l.txWinSize = lapmDfltWinSize
  rxWinSize : l.rxWinSize = lapmDfltWinSize
  txInfoSize : l.txInfoSize = lapmDfltInfoSize
  rxInfoSize : l.rxInfoSize = lapmDfltInfoSize

theorem setParam_dflt (value dflt : Nat) : setParam dflt value dflt = dflt := by
  unfold setParam
  by_cases below : value < dflt
  · rw [if_pos (Or.inl ⟨below, Nat.le_refl dflt⟩)]
  · rw [if_neg (by omega), if_neg (by omega)]

namespace Modem

section Limits

variable {l : LapmState}

theorem atLimits_param (limits : l.AtLimits) (pid : UInt8) (plen : Nat) (buf : List UInt8) :
    (parseXidParam l pid plen buf).AtLimits := by
  unfold parseXidParam
  obtain ⟨txWin, rxWin, txInfo, rxInfo⟩ := limits
  split_ifs
  · refine ⟨txWin, rxWin, ?_, rxInfo⟩
    simp only
    rw [txInfo, setParam_dflt]
  · refine ⟨txWin, rxWin, txInfo, ?_⟩
    simp only
    rw [rxInfo, setParam_dflt]
  · refine ⟨?_, rxWin, txInfo, rxInfo⟩
    simp only
    rw [txWin, setParam_dflt]
  · refine ⟨txWin, ?_, txInfo, rxInfo⟩
    simp only
    rw [rxWin, setParam_dflt]
  · exact ⟨txWin, rxWin, txInfo, rxInfo⟩

theorem atLimits_params (rounds : Nat) (limits : l.AtLimits) (buf : List UInt8) (len : Int) :
    (parseXidParams rounds l buf len).AtLimits := by
  induction rounds generalizing l buf len with
  | zero => exact limits
  | succ rounds ih =>
      unfold parseXidParams
      split_ifs
      · exact limits
      · simp only
        split_ifs
        · exact limits
        · exact ih (atLimits_param limits _ _ _) _ _

theorem atLimits_groups (rounds : Nat) (limits : l.AtLimits) (cfg : ModemConfig)
    (buf : List UInt8) (len : Int) : (parseXidGroups rounds l cfg buf len).1.AtLimits := by
  induction rounds generalizing l cfg buf len with
  | zero => exact limits
  | succ rounds ih =>
      unfold parseXidGroups
      by_cases empty : len ≤ 0
      · rw [if_pos empty]
        exact limits
      · rw [if_neg empty]
        simp only
        split
        · exact limits
        · refine ih ?_ _ _ _
          split
          · exact atLimits_params _ limits _ _
          · exact limits

theorem atLimits_rxXid {m : Modem} (limits : m.lapm.AtLimits) (f : Hdlc.Frame) :
    (m.rxXid f).lapm.AtLimits := by
  unfold rxXid
  split
  · exact limits
  · have parsed := atLimits_groups ((f.count : Int) - 3).toNat limits defaultModemEcConfig
      (f.buf.drop 3) ((f.count : Int) - 3)
    simp only
    generalize parseXidGroups ((f.count : Int) - 3).toNat m.lapm defaultModemEcConfig
      (f.buf.drop 3) ((f.count : Int) - 3) = pair at parsed
    rcases updateConfig_frame { m with lapm := pair.1 }
      { pair.2 with
        ecTxWinSize := pair.1.txWinSize % 256
        ecRxWinSize := pair.1.rxWinSize % 256
        ecTxInfoSize := pair.1.txInfoSize % 65536
        ecRxInfoSize := pair.1.rxInfoSize % 65536 } with
      ⟨comp, dictSize, maxString, encoder, decoder, same⟩
    rw [same]
    exact parsed

theorem atLimits_frames {m : Modem} (limits : m.lapm.AtLimits) (frames : List Hdlc.Frame) :
    (frames.foldl rxXid m).lapm.AtLimits := by
  induction frames generalizing m with
  | nil => exact limits
  | cons f rest ih => exact ih (atLimits_rxXid limits f)

theorem atLimits_lapmInit (m : Modem) : m.modemSetupConfig.lapmInit.lapm.AtLimits :=
  ⟨rfl, rfl, rfl, rfl⟩

/-- The end of `rx_xid` with what was parsed. -/
def updateXid (m : Modem) : Option (LapmState × ModemConfig) → Modem
  | none => m
  | some parsed =>
      modemUpdateConfig { m with lapm := parsed.1 }
        { parsed.2 with
          ecTxWinSize := parsed.1.txWinSize % 256
          ecRxWinSize := parsed.1.rxWinSize % 256
          ecTxInfoSize := parsed.1.txInfoSize % 65536
          ecRxInfoSize := parsed.1.rxInfoSize % 65536 }

end Limits

end Modem

/-! ### Received frames -/

namespace Hdlc

/-- What is behind a pointer that `rx_complete` gets: the contents and the check sequence. -/
structure Frame.Delivered (f : Frame) : Prop where
  full : 1 ≤ f.count
  room : f.count + 2 ≤ f.buf.length

namespace HdlcState

structure Buffered (h : HdlcState) : Prop where
  size : h.rxFrame.size = h.rxFrame.buf.length
  count : h.rxFrame.count ≤ h.rxFrame.size

section Delivered

variable {h : HdlcState}

theorem Buffered.finishedFrame (buffered : Buffered h) (i : Nat) {f : Frame}
    (finished : h.finishedFrame i = some f) : f.Delivered := by
  unfold HdlcState.finishedFrame at finished
  split_ifs at finished with empty error ragged small wrong
  obtain rfl := Option.some.inj finished
  have size := buffered.size
  have count := buffered.count
  constructor
  · simp only
    omega
  · simp only
    omega

theorem Buffered.takeBit (buffered : Buffered h) (input : BitVec 8) :
    Buffered (h.takeBit input) := by
  unfold HdlcState.takeBit
  split_ifs
  · exact ⟨buffered.size, Nat.zero_le _⟩
  · exact ⟨buffered.size, buffered.count⟩
  · exact ⟨buffered.size, buffered.count⟩
  · exact ⟨buffered.size, buffered.count⟩

theorem Buffered.takeChar (buffered : Buffered h) (left : Nat) (out : BitVec 8) :
    Buffered (HdlcState.takeChar left h out).1 ∧
      ∀ f, (HdlcState.takeChar left h out).2 = .flag (some f) → f.Delivered := by
  induction left generalizing h out with
  | zero => exact ⟨buffered, fun f other => by cases other⟩
  | succ left ih =>
      unfold HdlcState.takeChar
      simp only
      split_ifs
      · refine ⟨⟨buffered.size, Nat.zero_le _⟩, fun f flag => ?_⟩
        injection flag with finished
        exact buffered.finishedFrame _ finished
      · have skipped : Buffered { h with unpack := { h.unpack with bit := h.unpack.bit - 1 } } :=
          ⟨buffered.size, buffered.count⟩
        exact ih skipped out
      · exact ih (buffered.takeBit _) _

theorem Buffered.finishChar (buffered : Buffered h) (out : UInt8) :
    Buffered (h.finishChar out) := by
  unfold HdlcState.finishChar
  split_ifs with error short
  · exact buffered
  · refine ⟨?_, ?_⟩
    · simp only [List.length_set]
      exact buffered.size
    · simp only
      omega
  · exact ⟨buffered.size, Nat.zero_le _⟩

theorem Buffered.putSymbol (buffered : Buffered h) (nbits : Nat) (symbol : UInt8) :
    Buffered (h.putSymbol nbits symbol).1 ∧ ∀ f ∈ (h.putSymbol nbits symbol).2, f.Delivered := by
  have pushed : Buffered (h.pushSymbol nbits symbol) := ⟨buffered.size, buffered.count⟩
  unfold HdlcState.putSymbol
  simp only
  split
  · exact ⟨pushed, fun f none => absurd none (List.not_mem_nil)⟩
  · obtain ⟨taken, frames⟩ := pushed.takeChar 8 0
    generalize HdlcState.takeChar 8 (h.pushSymbol nbits symbol) 0 = result at taken frames
    obtain ⟨after, outcome⟩ := result
    cases outcome with
    | flag frame =>
        refine ⟨taken, fun f member => frames f ?_⟩
        cases frame with
        | none => cases member
        | some other =>
            obtain rfl := List.mem_singleton.mp member
            rfl
    | char out => exact ⟨taken.finishChar _, fun f none => absurd none (List.not_mem_nil)⟩

theorem Buffered.putBits (buffered : Buffered h) (nbits : Nat) (symbols : List UInt8) :
    Buffered (modemHdlcPutBits nbits symbols h).1 ∧
      ∀ f ∈ (modemHdlcPutBits nbits symbols h).2, f.Delivered := by
  induction symbols generalizing h with
  | nil => exact ⟨buffered, fun f none => absurd none (List.not_mem_nil)⟩
  | cons symbol rest ih =>
      obtain ⟨next, early⟩ := buffered.putSymbol nbits symbol
      obtain ⟨last, late⟩ := ih next
      refine ⟨last, fun f member => ?_⟩
      rcases List.mem_append.mp member with first | second
      · exact early f first
      · exact late f second

theorem buffered_start : Buffered modemHdlcStart :=
  ⟨(List.length_replicate).symm, Nat.zero_le _⟩

end Delivered

/-- The frames of several calls of `modem_hdlc_put_bits`. -/
def received : HdlcState → List (Nat × List UInt8) → List Frame
  | _, [] => []
  | h, call :: rest =>
      let next := modemHdlcPutBits call.1 call.2 h
      next.2 ++ received next.1 rest

theorem Buffered.received {h : HdlcState} (buffered : Buffered h)
    (calls : List (Nat × List UInt8)) : ∀ f ∈ h.received calls, f.Delivered := by
  induction calls generalizing h with
  | nil => exact fun f none => absurd none (List.not_mem_nil)
  | cons call rest ih =>
      obtain ⟨next, early⟩ := buffered.putBits call.1 call.2
      intro f member
      rcases List.mem_append.mp member with first | second
      · exact early f first
      · exact ih next f second

end HdlcState

end Hdlc

namespace Modem

/-- `rx_xid` is `XidScan.rxXid` and what follows it. -/
theorem rxXid_scanned (m : Modem) {f : Hdlc.Frame} (delivered : f.Delivered) :
    (XidScan.rxXid m.lapm f.count).Meets XidScan.answer f.buf fun parsed reads =>
      m.rxXid f = m.updateXid parsed ∧ ∀ query ∈ reads, XidRead.Within f.count query := by
  refine (XidScan.gives_rxXid delivered.full delivered.room m.lapm).imp ?_
  rintro parsed reads ⟨rfl, within⟩
  refine ⟨?_, within⟩
  have rounds : ((f.count : Int) - 3).toNat = f.count - 3 := by omega
  have groups : parseXidGroups (f.count - 3) m.lapm defaultModemEcConfig (f.buf.drop 3)
      ((f.count : Int) - 3) = parseXidGroups (f.count - 3) m.lapm defaultModemEcConfig
        (f.buf.drop 3) (f.count - 3 : Nat) := by
    by_cases long : 3 ≤ f.count
    · rw [Nat.cast_sub long]
      rfl
    · have none : f.count - 3 = 0 := by omega
      rw [none]
      rfl
  unfold rxXid
  by_cases other : f.buf.getD 2 0 ≠ fiGeneral
  · rw [if_pos other, if_pos other]
    rfl
  · rw [if_neg other, if_neg other]
    simp only
    rw [rounds, groups]
    rfl

/-- Parsing the frames of the receiver ends within each frame, and the sizes stay at their
limits. -/
theorem xid_within_limits (m : Modem) (calls : List (Nat × List UInt8)) :
    (∀ f ∈ Hdlc.modemHdlcStart.received calls, ∀ m : Modem,
      (XidScan.rxXid m.lapm f.count).Meets XidScan.answer f.buf fun parsed reads =>
        m.rxXid f = m.updateXid parsed ∧
          ∀ query ∈ reads, query.1 < f.count + 2 ∧ XidRead.Within f.count query) ∧
      ((Hdlc.modemHdlcStart.received calls).foldl rxXid
        m.modemSetupConfig.lapmInit).lapm.AtLimits := by
  refine ⟨fun f member m => ?_, atLimits_frames (atLimits_lapmInit m) _⟩
  refine (rxXid_scanned m (Hdlc.HdlcState.buffered_start.received calls f member)).imp ?_
  rintro parsed reads ⟨same, within⟩
  exact ⟨same, fun query held => ⟨(within query held).below, within query held⟩⟩

end Modem

end DModem
