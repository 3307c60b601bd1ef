/-
The modulation settings of `+MS`.

Up to four numbers are read, each of which may be left out; the settings are checked before
any of them is stored.
-/

import DModem.At.Sregs

namespace DModem.At

open DModem.Lib DModem.Lib.Reading DModem.Modem

/-! ### The settings -/

structure MsSettings where
  dp : Nat
  autoMode : Nat
  minRate : Nat
  maxRate : Nat
  deriving DecidableEq, Repr

def Console.msSettings (c : Console) : MsSettings :=
  { dp := (c.modem.sregs sregDp).toNat
    autoMode := (c.modem.sregs sregAutomode).toNat
    minRate := c.minRate
    maxRate := c.maxRate }

def MsSettings.Valid (s : MsSettings) : Prop :=
  (s.autoMode = 0 ∨ s.autoMode = 1) ∧ modemMinRate ≤ s.minRate ∧ s.minRate ≤ s.maxRate ∧
    s.maxRate ≤ modemMaxRate

/-- What `AT+MS?` prints. -/
def MsSettings.text (s : MsSettings) : List UInt8 :=
  decimalText s.dp ++ At.text "," ++ decimalText s.autoMode ++ At.text "," ++
    decimalText s.minRate ++ At.text "," ++ decimalText s.maxRate

/-- The `id` of each driver of `modem_dp_drivers`, and whether it has a `code`. -/
def dpDrivers : List (Nat × Bool) :=
  [(2, false), (3, false), (4, false), (8, false), (17, false), (21, true), (22, true),
    (23, true), (122, true), (32, true), (132, true), (34, true), (103, true), (212, true),
    (100, false), (56, true), (108, false), (90, true), (92, true), (127, false)]

/-- `modem_dp_drivers`, with the drivers that have been registered. -/
def registered (board : Board) (isRegistered : Nat → Bool) : Board :=
  { board with
    modemDpDrivers :=
      dpDrivers.map fun driver =>
        { id := driver.1, code := driver.2, op := isRegistered driver.1 } }

/-! ### The items of the argument -/

/-- The item `k` of the argument; each but the first begins behind a comma that ends the number
before. -/
def itemText : Nat → List UInt8 → Option (List UInt8)
  | 0, memory => some memory
  | k + 1, memory => do
      let (_, len) ← strtoul 0 memory
      if (memory.drop len).head? = some (ch ',') then itemText k (memory.drop (len + 1)) else none

/-- The value of the item `k`, if it is not left out. -/
def itemGiven (k : Nat) (memory : List UInt8) : Option Nat := do
  let item ← itemText k memory
  let (value, len) ← strtoul 0 item
  if len = 0 then none else some value

section Items

variable {text memory : List UInt8} {place k value len : Nat}

theorem itemGiven_succ (read : strtoul 0 memory = some (value, len)) :
    itemGiven (k + 1) memory =
      if (memory.drop len).head? = some (ch ',') then itemGiven k (memory.drop (len + 1))
      else none := by
  unfold itemGiven
  rw [itemText, read]
  simp only [Option.bind_eq_bind, Option.bind_some]
  split
  · rfl
  · rfl

theorem itemGiven_zero (read : strtoul 0 memory = some (value, len)) :
    itemGiven 0 memory = if len = 0 then none else some value := by
  simp [itemGiven, itemText, read]

theorem ulongValue_le (base : Nat) (values : List Nat) (negative : Bool) :
    ulongValue base values negative ≤ ulongMax := by
  unfold ulongValue ulongMax
  grind

theorem strtoul_le {base : Nat} (read : strtoul base memory = some (value, len)) :
    value ≤ ulongMax := by
  simp only [strtoul, Option.bind_eq_bind, Option.bind_eq_some_iff] at read
  obtain ⟨blanks, -, sign, -, used, -, values, -, result⟩ := read
  split at result
  · cases result
    exact Nat.zero_le _
  · cases result
    exact ulongValue_le _ _ _

theorem itemGiven_le (given : itemGiven k memory = some value) : value ≤ ulongMax := by
  simp only [itemGiven, Option.bind_eq_bind, Option.bind_eq_some_iff] at given
  obtain ⟨item, -, ⟨number, len⟩, read, result⟩ := given
  have bound := strtoul_le read
  split at result
  · cases result
  · cases result
    exact bound

theorem itemGiven_word (k : Nat) (memory : List UInt8) (before : Nat) :
    (itemGiven k memory).getD before % 2 ^ 32 = (itemGiven k memory).getD (before % 2 ^ 32) := by
  cases given : itemGiven k memory with
  | none => rfl
  | some value =>
      have bound := itemGiven_le given
      unfold ulongMax at bound
      exact Nat.mod_eq_of_lt (by omega : value < 2 ^ 32)

theorem msItems_exec (items : List Nat) (inside : place ≤ text.length) :
    ∃ len, place + len ≤ text.length ∧
      (msItems items place).exec Query.answer (text ++ [0]) =
        some (items.mapIdx fun k item =>
          (itemGiven k ((text ++ [0]).drop place)).getD item, len) := by
  induction items generalizing place with
  | nil => exact ⟨0, inside, rfl⟩
  | cons item items ih =>
      obtain ⟨value, len, within, reads⟩ := strtoul_zero 0 (text.drop place)
      have read : strtoul 0 ((text ++ [0]).drop place) = some (value, len) := by
        rw [drop_zero inside]
        exact reads []
      rw [List.length_drop] at within
      have first : (itemGiven 0 ((text ++ [0]).drop place)).getD item =
          if len = 0 then item else value := by
        rw [itemGiven_zero read]
        split
        · rfl
        · rfl
      rw [msItems, exec_number read, List.mapIdx_cons, first]
      simp only [itemGiven_succ read, List.drop_drop]
      by_cases comma : ((text ++ [0]).drop (place + len)).head? = some (ch ',')
      · have short : place + len + 1 ≤ text.length := by
          by_contra long
          rw [drop_zero (by omega), List.drop_eq_nil_of_le (by omega)] at comma
          revert comma
          decide
        obtain ⟨more, stays, ran⟩ := ih short
        refine ⟨len + 1 + more, by omega, ?_⟩
        simp only [if_pos comma]
        rw [exec_peek comma (by decide), ← Nat.add_assoc]
        exact (Scan.exec_bind ran _).1
      · refine ⟨len, by omega, ?_⟩
        have same : items.mapIdx (fun _ item => item) = items :=
          List.mapIdx_eq_iff.mpr fun i => by simp
        simp only [if_neg comma, Option.getD_none, same]
        have stands : ((text ++ [0]).drop (place + len)).head? =
            some ((text.drop (place + len)).headD 0) := by
          rw [drop_zero (by omega)]
          exact head_zero _ []
        rw [exec_peek_none stands]
        · rfl
        · intro present
          rw [stands, List.mem_singleton.mp present] at comma
          exact comma rfl

end Items

/-! ### The settings are checked and stored -/

/-- The settings after an argument, if they are accepted. -/
def MsSettings.given (s : MsSettings) (arg : List UInt8) : MsSettings :=
  { dp := (itemGiven 0 (arg ++ [0])).getD s.dp
    autoMode := (itemGiven 1 (arg ++ [0])).getD s.autoMode
    minRate := (itemGiven 2 (arg ++ [0])).getD (s.minRate % 2 ^ 32)
    maxRate := (itemGiven 3 (arg ++ [0])).getD (s.maxRate % 2 ^ 32) }

/-- The driver is in the table, is registered and has a code. -/
def Coded (isRegistered : Nat → Bool) (dp : Nat) : Prop :=
  (dp, true) ∈ dpDrivers ∧ isRegistered dp = true

section Settings

variable {board : Board} {c : Console} {isRegistered : Nat → Bool} {items : List Nat}
  {dp autoMode minRate maxRate len : Nat}

theorem coded_of_any
    (found : (msDrivers (registered board isRegistered)).any (fun driver => driver.id = dp)) :
    Coded isRegistered dp := by
  simp only [msDrivers, registered, List.any_eq_true, List.mem_filter, List.mem_map,
    Bool.and_eq_true, decide_eq_true_eq] at found
  obtain ⟨_, ⟨⟨entry, member, rfl⟩, code, op⟩, rfl⟩ := found
  constructor
  · rw [← code]
    exact member
  · exact op

theorem coded_small (coded : Coded isRegistered dp) : dp < 256 := by
  have all : ∀ entry ∈ dpDrivers, entry.1 < 256 := by decide
  exact all _ coded.1

/-- An `int` that is not negative is what the `unsigned long` was. -/
theorem asInt_toNat {value : Nat} (positive : 0 ≤ asInt value) :
    (asInt value).toNat = value % 2 ^ 32 := by
  unfold asInt at positive ⊢
  rw [BitVec.toInt_eq_toNat_cond, BitVec.toNat_ofNat] at positive ⊢
  split at positive
  · next low =>
    rw [if_pos low]
    exact Int.toNat_natCast _
  · omega

theorem msSettings_stored (dp autoMode minRate maxRate : Nat) :
    ({ (c.modemSetSreg board sregDp dp).modemSetSreg board sregAutomode autoMode with
        minRate := minRate, maxRate := maxRate }).msSettings =
      { dp := (UInt8.ofNat dp).toNat
        autoMode := (UInt8.ofNat autoMode).toNat
        minRate := minRate
        maxRate := maxRate } := rfl

theorem setupMs_cases {sub : Sub}
    (result : setupMs (registered board isRegistered) c [dp, autoMode, minRate, maxRate] len =
      sub) :
    sub = Sub.failed c ∨
      sub.ret = 0 ∧
        sub.console.msSettings =
          { dp := dp
            autoMode := autoMode % 2 ^ 32
            minRate := minRate % 2 ^ 32
            maxRate := maxRate % 2 ^ 32 } ∧
        sub.console.msSettings.Valid ∧ (dp = c.msSettings.dp ∨ Coded isRegistered dp) := by
  subst result
  unfold setupMs
  simp only [List.getD_cons_zero, List.getD_cons_succ]
  split
  · exact Or.inl rfl
  · next known =>
    split
    · exact Or.inl rfl
    · next fits =>
      right
      simp only [not_or, not_and, not_not, Int.not_lt] at fits known
      obtain ⟨mode, ordered, low, high⟩ := fits
      have driver : dp = c.msSettings.dp ∨ Coded isRegistered dp := by
        by_cases same : dp = c.msSettings.dp
        · exact Or.inl same
        · exact Or.inr (coded_of_any (known same))
      have small : (UInt8.ofNat dp).toNat = dp := by
        have bound : dp < 256 := by
          rcases driver with same | coded
          · rw [same]
            exact UInt8.toNat_lt _
          · exact coded_small coded
        rw [UInt8.toNat_ofNat']
        exact Nat.mod_eq_of_lt bound
      unfold modemMinRate at low
      unfold modemMaxRate at high
      have modeValue : (asInt autoMode).toNat = autoMode % 2 ^ 32 := asInt_toNat (by omega)
      have minValue : (asInt minRate).toNat = minRate % 2 ^ 32 := asInt_toNat (by omega)
      have maxValue : (asInt maxRate).toNat = maxRate % 2 ^ 32 := asInt_toNat (by omega)
      have flag : (UInt8.ofNat (asInt autoMode).toNat).toNat = (asInt autoMode).toNat := by
        rw [UInt8.toNat_ofNat']
        omega
      rw [msSettings_stored, small, flag, modeValue, minValue, maxValue]
      refine ⟨rfl, rfl, ⟨?_, ?_, ?_, ?_⟩, driver⟩
      · dsimp only
        omega
      · unfold modemMinRate
        dsimp only
        omega
      · dsimp only
        omega
      · unfold modemMaxRate
        dsimp only
        omega

theorem plusMS_exec {arg : List UInt8} (noQuery : arg.head? ≠ some (ch '?')) :
    ∃ len ≤ arg.length,
      (processPlusMS board c 0).exec Query.answer (ch '=' :: (arg ++ [0])) =
        some (setupMs board c
          [(itemGiven 0 (arg ++ [0])).getD c.msSettings.dp,
            (itemGiven 1 (arg ++ [0])).getD c.msSettings.autoMode,
            (itemGiven 2 (arg ++ [0])).getD c.minRate,
            (itemGiven 3 (arg ++ [0])).getD c.maxRate] (1 + len)) := by
  have equals : ((ch '=' :: (arg ++ [0])).drop 0).head? = some (ch '=') := rfl
  have stands : ((ch '=' :: (arg ++ [0])).drop 1).head? = some (arg.headD 0) := head_zero arg []
  have absent : arg.headD 0 ∉ [ch '?'] := by
    intro present
    cases arg with
    | nil =>
        revert present
        decide
    | cons first rest => exact noQuery (congrArg some (List.mem_singleton.mp present))
  have inside : 1 ≤ (ch '=' :: arg).length := Nat.le_add_left 1 _
  obtain ⟨len, within, ran⟩ := msItems_exec
    [c.msSettings.dp, c.msSettings.autoMode, c.minRate, c.maxRate] inside
  rw [List.length_cons] at within
  refine ⟨len, by omega, ?_⟩
  unfold processPlusMS question
  rw [exec_peek equals (by decide)]
  apply (exec_peek_none stands absent).trans
  exact (Scan.exec_bind ran _).1

/-- `AT+MS?` prints the settings. -/
theorem plusMS_query (rest : List UInt8) :
    (processPlusMS board c 0).exec Query.answer (ch '?' :: rest) =
      some { console := c.sendLine board c.msSettings.text, ret := 0, len := 1 } := by
  have mark : ((ch '?' :: rest).drop 0).head? = some (ch '?') := rfl
  unfold processPlusMS question
  rw [exec_peek mark (by decide)]
  rfl

theorem read_item {num : Nat} (small : num ≤ ulongMax) {mark : UInt8}
    (ends : mark = ch ',' ∨ mark = 0) (rest : List UInt8) :
    strtoul 0 (decimalText num ++ mark :: rest) = some (num, (decimalText num).length) := by
  rcases ends with rfl | rfl
  · exact strtoul_decimalText small ⟨rfl, rfl⟩ (by decide) rest
  · exact strtoul_decimalText small ⟨rfl, rfl⟩ (by decide) rest

theorem decimalText_pos (num : Nat) : (decimalText num).length ≠ 0 := by
  intro empty
  exact (decimalText_numeral num).2.1 (List.eq_nil_of_length_eq_zero empty)

theorem msItems_comma {memory rest : List UInt8} {items read : List Nat} {place num item more : Nat}
    (small : num ≤ ulongMax)
    (stands : memory.drop place = decimalText num ++ ch ',' :: rest)
    (ran : (msItems items (place + (decimalText num).length + 1)).exec Query.answer memory =
      some (read, more)) :
    (msItems (item :: items) place).exec Query.answer memory =
      some (num :: read, (decimalText num).length + 1 + more) := by
  have given : strtoul 0 (memory.drop place) = some (num, (decimalText num).length) := by
    rw [stands]
    exact read_item small (Or.inl rfl) rest
  have comma : (memory.drop (place + (decimalText num).length)).head? = some (ch ',') := by
    rw [← List.drop_drop, stands, List.drop_left]
    rfl
  rw [msItems, exec_number given]
  simp only [if_neg (decimalText_pos num)]
  rw [exec_peek comma (by decide)]
  exact (Scan.exec_bind ran _).1

theorem msItems_last {memory rest : List UInt8} {items : List Nat} {place num item : Nat}
    (small : num ≤ ulongMax) (stands : memory.drop place = decimalText num ++ 0 :: rest) :
    (msItems (item :: items) place).exec Query.answer memory =
      some (num :: items, (decimalText num).length) := by
  have given : strtoul 0 (memory.drop place) = some (num, (decimalText num).length) := by
    rw [stands]
    exact read_item small (Or.inr rfl) rest
  have zero : (memory.drop (place + (decimalText num).length)).head? = some 0 := by
    rw [← List.drop_drop, stands, List.drop_left]
    rfl
  rw [msItems, exec_number given]
  simp only [if_neg (decimalText_pos num)]
  rw [exec_peek_none zero (by decide)]
  rfl

theorem drop_item {memory rest : List UInt8} {place num : Nat}
    (stands : memory.drop place = decimalText num ++ ch ',' :: rest) :
    memory.drop (place + (decimalText num).length + 1) = rest := by
  rw [Nat.add_assoc, ← List.drop_drop, stands, ← List.drop_drop, List.drop_left]
  rfl

/-- The text that `AT+MS?` prints is read as the settings, to its end. -/
theorem msItems_text {s : MsSettings} (valid : s.Valid) (small : s.dp < 256) (items : List Nat)
    (four : items.length = 4) :
    (msItems items 1).exec Query.answer (ch '=' :: (s.text ++ [0])) =
      some ([s.dp, s.autoMode, s.minRate, s.maxRate], s.text.length) := by
  obtain ⟨mode, low, ordered, high⟩ := valid
  unfold modemMaxRate at high
  have dpFits : s.dp ≤ ulongMax := by unfold ulongMax; omega
  have modeFits : s.autoMode ≤ ulongMax := by unfold ulongMax; omega
  have minFits : s.minRate ≤ ulongMax := by unfold ulongMax; omega
  have maxFits : s.maxRate ≤ ulongMax := by unfold ulongMax; omega
  have dpStands : (ch '=' :: (s.text ++ [0])).drop 1 = decimalText s.dp ++ ch ',' ::
      (decimalText s.autoMode ++ ch ',' :: (decimalText s.minRate ++
        ch ',' :: (decimalText s.maxRate ++ [0]))) := by
    simp [MsSettings.text, text]
  have modeStands := drop_item dpStands
  have minStands := drop_item modeStands
  have maxStands := drop_item minStands
  have total : s.text.length = (decimalText s.dp).length + 1 + ((decimalText s.autoMode).length +
      1 + ((decimalText s.minRate).length + 1 + (decimalText s.maxRate).length)) := by
    simp [MsSettings.text, text]
    omega
  obtain ⟨i, j, k, l, rfl⟩ := List.length_eq_four.mp four
  rw [total]
  apply msItems_comma dpFits dpStands
  apply msItems_comma modeFits modeStands
  apply msItems_comma minFits minStands
  exact msItems_last maxFits maxStands

theorem plusMS_read {s : MsSettings} (valid : s.Valid) (small : s.dp < 256) :
    (processPlusMS board c 0).exec Query.answer (ch '=' :: (s.text ++ [0])) =
      some (setupMs board c [s.dp, s.autoMode, s.minRate, s.maxRate] (1 + s.text.length)) := by
  obtain ⟨first, rest, split⟩ := List.exists_cons_of_ne_nil (decimalText_numeral s.dp).2.1
  have digit := (decimalText_numeral s.dp).1 first (by rw [split]; exact List.mem_cons_self)
  have equals : ((ch '=' :: (s.text ++ [0])).drop 0).head? = some (ch '=') := rfl
  have stands : ((ch '=' :: (s.text ++ [0])).drop 1).head? = some first := by
    simp [MsSettings.text, split]
  have absent : first ∉ [ch '?'] := by
    intro present
    rw [List.mem_singleton.mp present] at digit
    revert digit
    decide
  unfold processPlusMS question
  rw [exec_peek equals (by decide)]
  apply (exec_peek_none stands absent).trans
  exact (Scan.exec_bind (msItems_text valid small _ rfl) _).1

theorem asInt_small {value : Nat} (small : value < 2 ^ 31) : asInt value = value := by
  unfold asInt
  rw [BitVec.toInt_eq_toNat_cond, BitVec.toNat_ofNat, Nat.mod_eq_of_lt (by omega),
    if_pos (by omega)]

theorem modemSetSreg_same (num : Nat) :
    c.modemSetSreg board num (c.modem.sregs num).toNat = { c with calls := c.calls + 1 } := by
  have kept : Function.update c.modem.sregs num (UInt8.ofNat (c.modem.sregs num).toNat) =
      c.modem.sregs := by
    rw [UInt8.ofNat_toNat, Function.update_eq_self]
  have same : { c.modem with
      sregs := Function.update c.modem.sregs num (UInt8.ofNat (c.modem.sregs num).toNat) } =
      c.modem := by rw [kept]
  unfold Console.modemSetSreg Console.call
  exact congrArg (fun m => { c with modem := m, calls := c.calls + 1 }) same

theorem setupMs_same (valid : c.msSettings.Valid) (len : Nat) :
    setupMs board c [c.msSettings.dp, c.msSettings.autoMode, c.msSettings.minRate,
        c.msSettings.maxRate] len =
      { console := { c with calls := c.calls + 2 }, ret := 0, len := len } := by
  obtain ⟨mode, low, ordered, high⟩ := valid
  have modeSmall : c.msSettings.autoMode < 2 ^ 31 := by omega
  have maxSmall : c.msSettings.maxRate < 2 ^ 31 := by
    unfold modemMaxRate at high
    omega
  have minSmall : c.msSettings.minRate < 2 ^ 31 := by omega
  have fits : ¬ ((c.msSettings.autoMode : Int) ≠ 0 ∧ (c.msSettings.autoMode : Int) ≠ 1 ∨
      (c.msSettings.maxRate : Int) < c.msSettings.minRate ∨
      (c.msSettings.minRate : Int) < modemMinRate ∨
      (modemMaxRate : Int) < c.msSettings.maxRate) := by omega
  unfold setupMs
  simp only [List.getD_cons_zero, List.getD_cons_succ, asInt_small modeSmall,
    asInt_small maxSmall, asInt_small minSmall, if_neg fits, Int.toNat_natCast]
  rw [if_neg (fun differs => differs.1 rfl)]
  have dp : c.modemSetSreg board sregDp c.msSettings.dp = { c with calls := c.calls + 1 } :=
    modemSetSreg_same sregDp
  have automode : ({ c with calls := c.calls + 1 } : Console).modemSetSreg board sregAutomode
      c.msSettings.autoMode = { c with calls := c.calls + 1 + 1 } := modemSetSreg_same sregAutomode
  rw [dp, automode]
  rfl

end Settings

/-- `AT+MS=` with an argument other than `?` is rejected and changes nothing, or it is accepted
with valid settings, of which those that are not given are as before.  The text that `AT+MS?`
prints in a state with such settings is accepted to its end and changes nothing. -/
theorem plus_ms_atomic (board : Board) (isRegistered : Nat → Bool) (c : Console)
    (arg : List UInt8) (noQuery : arg.head? ≠ some (ch '?')) :
    ∃ sub,
      (processPlusMS (registered board isRegistered) c 0).exec Query.answer
          (ch '=' :: (arg ++ [0])) = some sub ∧
        (sub.ret = -1 ∧ sub.console = c ∨
          sub.ret = 0 ∧ sub.console.msSettings = c.msSettings.given arg ∧
            sub.console.msSettings.Valid ∧
            (sub.console.msSettings.dp = c.msSettings.dp ∨
              Coded isRegistered sub.console.msSettings.dp) ∧
            ∀ d : Console, d.msSettings = sub.console.msSettings →
              (∀ rest, (processPlusMS (registered board isRegistered) d 0).exec Query.answer
                  (ch '?' :: rest) =
                some { console := d.sendLine (registered board isRegistered) d.msSettings.text,
                       ret := 0, len := 1 }) ∧
              (processPlusMS (registered board isRegistered) d 0).exec Query.answer
                  (ch '=' :: (d.msSettings.text ++ [0])) =
                some { console := { d with calls := d.calls + 2 }, ret := 0,
                       len := 1 + d.msSettings.text.length }) := by
  obtain ⟨len, -, ran⟩ : ∃ len ≤ arg.length, _ := plusMS_exec noQuery
  refine ⟨_, ran, ?_⟩
  generalize result : setupMs (registered board isRegistered) c _ (1 + len) = sub
  rcases setupMs_cases result with failed | ⟨accepted, stored, valid, driver⟩
  · left
    rw [failed]
    exact ⟨rfl, rfl⟩
  · right
    have dp : sub.console.msSettings.dp = (itemGiven 0 (arg ++ [0])).getD c.msSettings.dp := by
      rw [stored]
    refine ⟨accepted, ?_, valid, ?_, ?_⟩
    · have byte : c.msSettings.autoMode % 2 ^ 32 = c.msSettings.autoMode :=
        Nat.mod_eq_of_lt ((UInt8.toNat_lt _).trans (by decide))
      rw [stored]
      simp only [itemGiven_word, byte]
      rfl
    · rw [dp]
      exact driver
    · intro d same
      rw [← same] at valid
      refine ⟨plusMS_query, ?_⟩
      rw [plusMS_read valid (UInt8.toNat_lt _)]
      exact congrArg some (setupMs_same valid _)

theorem plus_ms_atomic_of_rate :
    ∃ sub,
      (processPlusMS (registered plainBoard fun _ => true) freshConsole 0).exec Query.answer
          (ch '=' :: (word ['3', '4', ',', ',', '1', '2', '0', '0'] ++ [0])) = some sub ∧
        sub.ret = 0 ∧ sub.console.msSettings.Valid ∧
        sub.console.msSettings =
          { dp := 34, autoMode := 1, minRate := 1200, maxRate := 56000 } := by
  have computed :
      ((processPlusMS (registered plainBoard fun _ => true) freshConsole 0).exec Query.answer
          (ch '=' :: (word ['3', '4', ',', ',', '1', '2', '0', '0'] ++ [0]))).map
            (fun sub => (sub.ret, sub.console.msSettings)) =
        some (0, { dp := 34, autoMode := 1, minRate := 1200, maxRate := 56000 }) := by
    decide +kernel
  obtain ⟨sub, ran, outcome⟩ := plus_ms_atomic plainBoard (fun _ => true) freshConsole
    (word ['3', '4', ',', ',', '1', '2', '0', '0']) (by decide)
  rw [ran] at computed
  obtain ⟨ret, settings⟩ := Prod.mk.inj (Option.some.inj computed)
  rcases outcome with ⟨rejected, -⟩ | ⟨-, -, valid, -, -⟩
  · rw [ret] at rejected
    cases rejected
  · exact ⟨sub, ran, ret, valid, settings⟩

end DModem.At
