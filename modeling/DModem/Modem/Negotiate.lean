/-
The negotiation of compression by XID frames.

An XID frame is a list of groups and a group a list of parameters, each with its
length in front.  `comp_config` refuses both sizes when one of them exceeds the local
one, and both ends read the bits of the request in the same sense.
-/

import DModem.Comp.Config
import DModem.Modem.Connect

namespace DModem

/-! ### The format -/

structure XidParam where
  id : UInt8
  value : List UInt8
  deriving DecidableEq, Repr

structure XidGroup where
  id : UInt8
  params : List XidParam
  deriving DecidableEq, Repr

def XidParam.bytes (p : XidParam) : List UInt8 := p.id :: UInt8.ofNat p.value.length :: p.value

def XidGroup.body (g : XidGroup) : List UInt8 := g.params.flatMap XidParam.bytes

def XidGroup.bytes (g : XidGroup) : List UInt8 :=
  g.id :: UInt8.ofNat (g.body.length / 256) :: UInt8.ofNat g.body.length :: g.body

def xidBytes (groups : List XidGroup) : List UInt8 := groups.flatMap XidGroup.bytes

def XidGroup.Fits (g : XidGroup) : Prop :=
  (∀ p ∈ g.params, p.value.length < 256) ∧ g.body.length < 65536

def XidGroup.request (cfg : ModemConfig) (g : XidGroup) : ModemConfig :=
  if g.id = giPrivateNegotiation then
    g.params.foldl (fun cfg p => Modem.parseXidPrivateParam cfg p.id p.value.length p.value) cfg
  else cfg

def xidRequest (groups : List XidGroup) : ModemConfig :=
  groups.foldl XidGroup.request Modem.defaultModemEcConfig

/-- A received XID frame with these groups. -/
structure XidFrame (f : Hdlc.Frame) (groups : List XidGroup) : Prop where
  fits : ∀ g ∈ groups, g.Fits
  content : ∃ addr ctrl tail, f.buf = addr :: ctrl :: fiGeneral :: (xidBytes groups ++ tail)
  count : f.count = 3 + (xidBytes groups).length

namespace Modem

/-! ### Parsing -/

theorem foldl_value {α : Type} (step : α → UInt8 → α) (start : α) (value rest : List UInt8)
    (indices : List Nat) (inside : ∀ i ∈ indices, i < value.length) :
    indices.foldl (fun acc i => step acc ((value ++ rest).getD i 0)) start =
      indices.foldl (fun acc i => step acc (value.getD i 0)) start := by
  induction indices generalizing start with
  | nil => rfl
  | cons i indices ih =>
      have lt := inside i (List.mem_cons_self ..)
      simp only [List.foldl_cons]
      rw [ih _ (fun j member => inside j (List.mem_cons_of_mem _ member)),
        List.getD_append _ _ _ _ lt]

theorem lapmGetBeVal_append (value rest : List UInt8) :
    lapmGetBeVal (value ++ rest) value.length = lapmGetBeVal value value.length :=
  foldl_value (fun val byte => (val * 256 + byte.toNat) % 2 ^ 32) 0 value rest _
    (fun _ member => List.mem_range.mp member)

theorem lapmGetLeVal_append (value rest : List UInt8) :
    lapmGetLeVal (value ++ rest) value.length = lapmGetLeVal value value.length :=
  foldl_value (fun val byte => (val * 256 + byte.toNat) % 2 ^ 32) 0 value rest _
    (fun _ member => List.mem_range.mp (List.mem_reverse.mp member))

theorem parseXidPrivateParam_append (cfg : ModemConfig) (pid : UInt8) (value rest : List UInt8) :
    parseXidPrivateParam cfg pid value.length (value ++ rest) =
      parseXidPrivateParam cfg pid value.length value := by
  unfold parseXidPrivateParam
  rw [lapmGetBeVal_append, lapmGetLeVal_append]

theorem toNat_ofNat_length {value : List UInt8} (fits : value.length < 256) :
    (UInt8.ofNat value.length).toNat = value.length := by
  rw [UInt8.toNat_ofNat']
  exact Nat.mod_eq_of_lt fits

theorem parseXidPrivateParams_bytes (rounds : Nat) (cfg : ModemConfig) (params : List XidParam)
    (tail : List UInt8) (fits : ∀ p ∈ params, p.value.length < 256)
    (enough : (params.flatMap XidParam.bytes).length ≤ rounds) :
    parseXidPrivateParams rounds cfg (params.flatMap XidParam.bytes ++ tail)
        (params.flatMap XidParam.bytes).length =
      params.foldl (fun cfg p => parseXidPrivateParam cfg p.id p.value.length p.value) cfg := by
  induction params generalizing rounds cfg with
  | nil => cases rounds <;> simp [parseXidPrivateParams]
  | cons p params ih =>
      have short := fits p (List.mem_cons_self ..)
      have later := fun q member => fits q (List.mem_cons_of_mem p member)
      simp only [List.flatMap_cons, XidParam.bytes, List.cons_append, List.append_assoc,
        List.length_cons, List.length_append] at enough ⊢
      cases rounds with
      | zero => omega
      | succ rounds =>
          unfold parseXidPrivateParams
          simp only [List.getD_cons_succ, List.getD_cons_zero, toNat_ofNat_length short,
            List.foldl_cons]
          rw [if_neg (by omega), if_neg (by omega)]
          have dropped : (p.id :: UInt8.ofNat p.value.length :: (p.value ++
              (params.flatMap XidParam.bytes ++ tail))).drop (2 + p.value.length) =
              params.flatMap XidParam.bytes ++ tail := by
            rw [Nat.add_comm 2, List.drop_succ_cons, List.drop_succ_cons, List.drop_left]
          rw [dropped, List.drop_succ_cons, List.drop_succ_cons, List.drop_zero,
            parseXidPrivateParam_append]
          have left : ((p.value.length + (params.flatMap XidParam.bytes).length + 1 + 1 : Nat) : Int) -
              (2 + (p.value.length : Int)) = ((params.flatMap XidParam.bytes).length : Int) := by
            omega
          rw [left]
          exact ih rounds _ later (by omega)

theorem group_length {g : XidGroup} (fits : g.Fits) :
    (UInt8.ofNat (g.body.length / 256)).toNat * 256 + (UInt8.ofNat g.body.length).toNat =
      g.body.length := by
  have short := fits.2
  rw [UInt8.toNat_ofNat', UInt8.toNat_ofNat']
  omega

theorem parseXidGroups_bytes (rounds : Nat) (l : LapmState) (cfg : ModemConfig)
    (groups : List XidGroup) (tail : List UInt8) (fits : ∀ g ∈ groups, g.Fits)
    (enough : (xidBytes groups).length ≤ rounds) :
    (parseXidGroups rounds l cfg (xidBytes groups ++ tail) (xidBytes groups).length).2 =
      groups.foldl XidGroup.request cfg := by
  induction groups generalizing rounds l cfg with
  | nil => cases rounds <;> simp [parseXidGroups, xidBytes]
  | cons g groups ih =>
      have here := fits g (List.mem_cons_self ..)
      have later := fun h member => fits h (List.mem_cons_of_mem g member)
      unfold xidBytes at enough ih ⊢
      simp only [List.flatMap_cons, XidGroup.bytes, List.cons_append, List.append_assoc,
        List.length_cons, List.length_append] at enough ⊢
      cases rounds with
      | zero => omega
      | succ rounds =>
          unfold parseXidGroups
          simp only [List.getD_cons_succ, List.getD_cons_zero, group_length here, List.foldl_cons]
          have left : ((g.body.length + (groups.flatMap XidGroup.bytes).length + 1 + 1 + 1 : Nat) :
              Int) - (3 + (g.body.length : Int)) =
              ((groups.flatMap XidGroup.bytes).length : Int) := by
            omega
          rw [if_neg (by omega), if_neg (by omega), left]
          have dropped : (g.id :: UInt8.ofNat (g.body.length / 256) :: UInt8.ofNat g.body.length ::
              (g.body ++ (groups.flatMap XidGroup.bytes ++ tail))).drop (3 + g.body.length) =
              groups.flatMap XidGroup.bytes ++ tail := by
            rw [Nat.add_comm 3, List.drop_succ_cons, List.drop_succ_cons, List.drop_succ_cons,
              List.drop_left]
          rw [dropped, ih rounds _ _ later (by omega)]
          congr 1
          unfold XidGroup.request
          split
          · rw [List.drop_succ_cons, List.drop_succ_cons, List.drop_succ_cons, List.drop_zero]
            exact parseXidPrivateParams_bytes _ cfg g.params _ here.1 (Nat.le_refl _)
          · rfl

theorem rxXid_groups (m : Modem) {f : Hdlc.Frame} {groups : List XidGroup}
    (xid : XidFrame f groups) :
    ∃ l cfg, SameLink m.lapm l ∧ m.rxXid f = modemUpdateConfig { m with lapm := l } cfg ∧
      cfg.comp = (xidRequest groups).comp ∧
      cfg.compDictSize = (xidRequest groups).compDictSize ∧
      cfg.compMaxString = (xidRequest groups).compMaxString := by
  rcases xid.content with ⟨addr, ctrl, tail, content⟩
  have len : (f.count : Int) - 3 = ((xidBytes groups).length : Int) := by
    rw [xid.count]
    omega
  have request := parseXidGroups_bytes (xidBytes groups).length m.lapm defaultModemEcConfig groups
    tail xid.fits (Nat.le_refl _)
  have link := sameLink_groups (xidBytes groups).length m.lapm defaultModemEcConfig
    (xidBytes groups ++ tail) (xidBytes groups).length
  unfold rxXid
  rw [content, len]
  simp only [List.getD_cons_succ, List.getD_cons_zero, ne_eq, not_true, if_false,
    List.drop_succ_cons, List.drop_zero, Int.toNat_natCast]
  generalize parseXidGroups (xidBytes groups).length m.lapm defaultModemEcConfig
    (xidBytes groups ++ tail) (xidBytes groups).length = parsed at request link
  refine ⟨parsed.1, _, link, rfl, ?_, ?_, ?_⟩
  · exact (congrArg ModemConfig.comp request :)
  · exact (congrArg ModemConfig.compDictSize request :)
  · exact (congrArg ModemConfig.compMaxString request :)

/-! ### The outcome -/

/-- A session with compression in both directions, before any XID. -/
structure FreshComp (m : Modem) : Prop where
  ec : m.cfg.ec = true
  comp : m.cfg.comp = 3
  dictSize : m.cfg.compDictSize = 2048
  maxString : m.cfg.compMaxString = 34
  encoder : m.encoder = { dictSize := 2048, maxString := 34 }
  decoder : m.decoder = { dictSize := 2048, maxString := 34 }
  connecting : m.state ≠ .modemOnline

def compresses (m : Modem) : Bool := (m.modemSetState .modemOnline).getChars == some .comp

def decompresses (m : Modem) : Bool := (m.modemSetState .modemOnline).putChars == some .comp

/-- Compressors, configuration and the XID that is sent carry the smaller sizes and the
request, and in both directions the receiving end decompresses what the other compresses. -/
structure Negotiated (m peer : Modem) (request : UInt8) (dictSize maxString : Int) : Prop where
  encoder : m.encoder = { dictSize := min 2048 dictSize, maxString := min 34 maxString }
  decoder : m.decoder = { dictSize := min 2048 dictSize, maxString := min 34 maxString }
  comp : m.cfg.comp = request
  compDictSize : m.cfg.compDictSize = min 2048 dictSize
  compMaxString : m.cfg.compMaxString = min 34 maxString
  xid : m.xidPrivateGroup =
    [giPrivateNegotiation, 0, 15, piParameterSetId, 3, 0x56, 0x34, 0x32,
      piV42bisRequest, 1, request,
      piV42bisCwNumber, 2, UInt8.ofInt (min 2048 dictSize / 256), UInt8.ofInt (min 2048 dictSize),
      piV42bisMaxString, 1, UInt8.ofInt (min 34 maxString)]
  outgoing : m.compresses = peer.decompresses
  incoming : peer.compresses = m.decompresses

theorem compresses_eq {m : Modem} (ec : m.cfg.ec = true) (offline : m.state ≠ .modemOnline) :
    m.compresses = (m.cfg.comp &&& 0x2 != 0) ∧ m.decompresses = (m.cfg.comp &&& 0x1 != 0) := by
  unfold compresses decompresses modemSetState
  rw [if_neg offline]
  simp only [ec, Bool.true_and]
  constructor
  · split <;> simp_all
  · split <;> simp_all

/-- What `comp_config` leaves of the local sizes. -/
def agreedSizes (dictSize maxString : Int) : Int × Int :=
  if dictSize ≤ 2048 ∧ maxString ≤ 34 then (dictSize, maxString) else (2048, 34)

theorem compConfig_fresh {dictSize maxString : Int} (large : 512 ≤ dictSize)
    (long : 6 ≤ maxString) (legal : maxString ≤ 250) :
    compConfig { dictSize := 2048, maxString := 34 } dictSize maxString =
      if dictSize ≤ 2048 ∧ maxString ≤ 34 then
        some { dictSize := dictSize, maxString := maxString } else none := by
  unfold compConfig
  rw [if_neg (by omega)]
  by_cases fits : dictSize ≤ 2048 ∧ maxString ≤ 34
  · rw [if_neg (by simp only; omega), if_pos fits]
  · rw [if_pos (by simp only; omega), if_neg fits]

structure Holds (m : Modem) (request : UInt8) (sizes : Int × Int) : Prop where
  encoder : m.encoder = { dictSize := sizes.1, maxString := sizes.2 }
  decoder : m.decoder = { dictSize := sizes.1, maxString := sizes.2 }
  comp : m.cfg.comp = request
  dictSize : m.cfg.compDictSize = sizes.1
  maxString : m.cfg.compMaxString = sizes.2
  ec : m.cfg.ec = true
  connecting : m.state ≠ .modemOnline

/-- A request on a fresh session is taken, with the sizes that `comp_config` accepts. -/
theorem holds_updateConfig {m : Modem} (fresh : FreshComp m) {cfg : ModemConfig}
    (some : cfg.comp ≠ 0) (large : 512 ≤ cfg.compDictSize) (long : 6 ≤ cfg.compMaxString)
    (legal : cfg.compMaxString ≤ 250) :
    Holds (m.modemUpdateConfig cfg) cfg.comp
      (agreedSizes cfg.compDictSize cfg.compMaxString) := by
  have configured := compConfig_fresh large long legal
  unfold modemUpdateConfig modemCompConfig agreedSizes
  rw [if_pos ⟨some, by rw [fresh.comp]; decide⟩]
  by_cases fits : cfg.compDictSize ≤ 2048 ∧ cfg.compMaxString ≤ 34
  · rw [if_pos fits] at configured ⊢
    simp only [fresh.encoder, fresh.decoder, configured, if_true]
    exact ⟨rfl, rfl, rfl, rfl, rfl, fresh.ec, fresh.connecting⟩
  · rw [if_neg fits] at configured ⊢
    simp only [fresh.encoder, configured, Bool.false_eq_true, if_false]
    exact ⟨rfl, fresh.decoder, rfl, fresh.dictSize, fresh.maxString, fresh.ec,
      fresh.connecting⟩

theorem agreedSizes_min {dictSize maxString : Int} :
    agreedSizes dictSize maxString = (min 2048 dictSize, min 34 maxString) ↔
      (dictSize ≤ 2048 ∧ maxString ≤ 34) ∨ (2048 ≤ dictSize ∧ 34 ≤ maxString) := by
  unfold agreedSizes
  split
  · simp only [Prod.mk.injEq]
    omega
  · simp only [Prod.mk.injEq]
    omega

theorem sameSense_iff {request : UInt8} (known : request = 1 ∨ request = 2 ∨ request = 3) :
    (request &&& 0x2 != 0) = (request &&& 0x1 != 0) ↔ request = 3 := by
  rcases known with rfl | rfl | rfl <;> decide

/-- What a fresh session holds after an XID frame that asks for compression is what was
negotiated exactly if the request is for both directions and both sizes are at most, or both
at least, the local ones. -/
theorem negotiated_iff (m peer : Modem) (f : Hdlc.Frame) (groups : List XidGroup)
    (request : UInt8) (dictSize maxString : Int) (fresh : FreshComp m) (xid : XidFrame f groups)
    (asked : (xidRequest groups).comp = request)
    (askedSize : (xidRequest groups).compDictSize = dictSize)
    (askedString : (xidRequest groups).compMaxString = maxString)
    (known : request = 1 ∨ request = 2 ∨ request = 3) (large : 512 ≤ dictSize)
    (legal : 6 ≤ maxString ∧ maxString ≤ 250) (peerEc : peer.cfg.ec = true)
    (peerComp : peer.cfg.comp = request) (peerConnecting : peer.state ≠ .modemOnline) :
    Negotiated (m.rxXid f) peer request dictSize maxString ↔
      request = 3 ∧ ((dictSize ≤ 2048 ∧ maxString ≤ 34) ∨ (2048 ≤ dictSize ∧ 34 ≤ maxString)) := by
  rcases rxXid_groups m xid with ⟨l, cfg, _, updated, comp, size, string⟩
  rw [asked] at comp
  rw [askedSize] at size
  rw [askedString] at string
  have some : request ≠ 0 := by
    rcases known with rfl | rfl | rfl <;> decide
  have stillFresh : FreshComp { m with lapm := l } := { fresh with }
  have holds : Holds (m.rxXid f) request (agreedSizes dictSize maxString) := by
    rw [updated, ← comp, ← size, ← string]
    exact holds_updateConfig stillFresh (by rw [comp]; exact some) (by rw [size]; exact large)
      (by rw [string]; exact legal.1) (by rw [string]; exact legal.2)
  generalize m.rxXid f = after at holds
  have ends := compresses_eq holds.ec holds.connecting
  have peerEnds := compresses_eq peerEc peerConnecting
  rw [holds.comp] at ends
  rw [peerComp] at peerEnds
  constructor
  · intro negotiated
    constructor
    · apply (sameSense_iff known).mp
      rw [← ends.1, ← peerEnds.2]
      exact negotiated.outgoing
    · apply agreedSizes_min.mp
      apply Prod.ext
      · exact holds.dictSize.symm.trans negotiated.compDictSize
      · exact holds.maxString.symm.trans negotiated.compMaxString
  · rintro ⟨both, sizes⟩
    have agreed := agreedSizes_min.mpr sizes
    have sense := (sameSense_iff known).mpr both
    rw [agreed] at holds
    exact
      { encoder := holds.encoder
        decoder := holds.decoder
        comp := holds.comp
        compDictSize := holds.dictSize
        compMaxString := holds.maxString
        xid := by
          unfold xidPrivateGroup
          rw [holds.comp, holds.dictSize, holds.maxString, if_neg some]
        outgoing := by rw [ends.1, peerEnds.2, sense]
        incoming := by rw [ends.2, peerEnds.1, sense] }

/-- A session as `modem_start` sets it up, for either role. -/
def freshComp (caller : Bool) : Modem :=
  modemSetState ({ answering with caller := caller }.modemSetupConfig.modemCompInit.lapmInit) .ecEstab

def compGroup (request : UInt8) (dictHigh dictLow maxString : UInt8) : XidGroup :=
  { id := giPrivateNegotiation
    params :=
      [{ id := piV42bisRequest, value := [request] },
        { id := piV42bisCwNumber, value := [dictHigh, dictLow] },
        { id := piV42bisMaxString, value := [maxString] }] }

def compFrame (group : XidGroup) : Hdlc.Frame :=
  { count := 3 + (xidBytes [group]).length
    size := 512
    fcs := Hdlc.goodFcs
    buf := 3 :: frameUXid :: fiGeneral :: (xidBytes [group] ++ []) }

theorem freshComp_fresh (caller : Bool) : FreshComp (freshComp caller) := by
  cases caller <;> exact ⟨by decide, by decide, by decide, by decide, by decide, by decide, by decide⟩

theorem xidFrame_compFrame (request dictHigh dictLow maxString : UInt8) :
    XidFrame (compFrame (compGroup request dictHigh dictLow maxString))
      [compGroup request dictHigh dictLow maxString] := by
  refine ⟨?_, ⟨_, _, _, rfl⟩, rfl⟩
  intro g member
  rw [List.mem_singleton] at member
  subst member
  constructor
  · intro p inside
    simp only [compGroup, List.mem_cons, List.not_mem_nil, or_false] at inside
    rcases inside with rfl | rfl | rfl <;> simp
  · simp [XidGroup.body, compGroup, XidParam.bytes]

/-- Compression in both directions with 1024 codewords and strings of 20. -/
theorem negotiated_of_both_directions :
    Negotiated ((freshComp false).rxXid (compFrame (compGroup 3 4 0 20))) (freshComp true)
      3 1024 20 := by
  apply (negotiated_iff (freshComp false) (freshComp true) _ _ 3 1024 20 (freshComp_fresh false)
    (xidFrame_compFrame 3 4 0 20) (by decide) (by decide) (by decide) (by decide) (by decide)
    (by decide) (by decide) (by decide) (by decide)).mpr
  exact ⟨rfl, Or.inl ⟨by decide, by decide⟩⟩

/-- With strings of 250 the 1024 codewords are refused as well. -/
theorem not_negotiated_long_string :
    ((freshComp false).rxXid (compFrame (compGroup 3 4 0 250))).encoder =
        { dictSize := 2048, maxString := 34 } ∧
      ¬ Negotiated ((freshComp false).rxXid (compFrame (compGroup 3 4 0 250))) (freshComp true)
        3 1024 250 := by
  refine ⟨by decide, ?_⟩
  intro negotiated
  exact absurd negotiated.encoder (by decide)

end Modem

end DModem
