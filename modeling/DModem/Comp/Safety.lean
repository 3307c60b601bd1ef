/-
The decoder on arbitrary input.

The peer controls every bit.  A byte either completes no codeword, or it completes
one that the decoder refuses, or it completes one that it follows.  The checks of
`comp_decode` leave two holes: `CCW_STEPUP` is only refused when the width passes
an eighth of the dictionary size, and of the codewords that name no string only
`next_free` is refused.  Streams that stay out of the holes are safe.
-/

import DModem.Comp.RoundTrip

namespace DModem.Comp

open View Dict

def obufSize : Nat := 1024

def codewordBits (d : Dict) : Nat := Nat.size (d.dictSize - 1)

namespace CompState

def codeword (c : CompState) (b : UInt8) : Option Nat :=
  if c.mode = .compressed ∧ c.cwSize ≤ c.bitLen + 8 then
    some ((c.pushByte b).bitData % 2 ^ c.cwSize % 2 ^ 16)
  else none

/-- Feeding single bytes to `comp_decode` and taking the output after each. -/
def feed : CompState → List UInt8 → Except Fault CompState
  | c, [] => .ok c
  | c, b :: rest => do
      let c ← c.compDecode [b]
      c.drain.feed rest

def Assigned (c : CompState) (cw : Nat) : Prop :=
  cw < c.dict.dictSize ∧ (cw < firstFree ∨ (c.dict.entry cw).parent ≠ 0)

structure Tidy (c : CompState) : Prop where
  width : c.cwSize ≤ codewordBits c.dict
  short : c.strData.length ≤ c.maxString

/-- What is asked of the decoder when byte `b` arrives in state `c`. -/
structure SafeByte (c : CompState) (b : UInt8) : Prop where
  tidy : c.Tidy
  expands : ∀ cw, c.codeword b = some cw → firstEntry ≤ cw → cw ≠ c.dict.nextFree → c.Assigned cw
  refuses : ∀ cw, c.codeword b = some cw → firstEntry ≤ cw →
    (cw = c.dict.nextFree ∨ ¬c.Assigned cw) → c.compDecode [b] = .error .fatal
  stores : ∀ cw c', c.codeword b = some cw → firstEntry ≤ cw → cw ≠ c.dict.nextFree →
    c.recvData cw = .ok c' → c'.strData.length ≤ c.maxString
  inRange : ∀ fault, c.compDecode [b] = .error fault → fault = .fatal
  after : ∀ c', c.compDecode [b] = .ok c' → c'.Tidy ∧ c'.obuf.length ≤ obufSize

/-- The byte does not reach a hole: it completes no `CCW_STEPUP` at full width, and
no codeword that is expanded although it names no string. -/
def Guarded (c : CompState) (b : UInt8) : Prop :=
  ∀ cw, c.codeword b = some cw →
    (cw = ccwStepup → c.cwSize < codewordBits c.dict) ∧
      (firstEntry ≤ cw → cw ≠ c.dict.nextFree → c.Assigned cw)

end CompState

/-! ### The invariant -/

/-- The states of a decoder that has been fed guarded bytes, with codewords of at most
`width` bits. -/
structure View.Safe (width : Nat) (v : View) : Prop where
  ok : v.matcher.Ok
  fits : v.matcher.maxString ≤ compMaxString
  size : v.matcher.dict.dictSize ≤ 2048
  sizeLow : 512 ≤ v.matcher.dict.dictSize
  wide : 9 ≤ v.cwSize
  narrow : v.cwSize ≤ width
  bits : codewordBits v.matcher.dict ≤ width
  limit : width ≤ 11
  room : v.bitLen < v.cwSize
  aligned : v.mode = .transparent → v.bitLen = 0
  closed : v.mode = .compressed → v.matcher.lastMatched = 0 ∧ v.matcher.total = 0

theorem codewordBits_le {d : Dict} (size : d.dictSize ≤ 2048) : codewordBits d ≤ 11 := by
  unfold codewordBits
  rw [Nat.size_le]
  omega

theorem codewordBits_congr {d d' : Dict} (sizeEq : d'.dictSize = d.dictSize) :
    codewordBits d' = codewordBits d := by
  unfold codewordBits
  rw [sizeEq]

theorem codewordBits_ge {d : Dict} (size : 512 ≤ d.dictSize) : 9 ≤ codewordBits d := by
  unfold codewordBits
  rw [Nat.succ_le_iff, Nat.lt_size]
  omega

namespace CompState

variable {c : CompState} {width : Nat}

inductive Outcome (width : Nat) (c : CompState) (b : UInt8) : Prop where
  | refused (answer : c.compDecode [b] = .error .fatal)
  | followed (c' : CompState) (answer : c.compDecode [b] = .ok c')
      (safe : (c'.view []).Safe width) (sizeEq : c'.dict.dictSize = c.dict.dictSize)
      (chars : List UInt8) (text : (c'.view []).text = (c.view []).text ++ chars)
      (short : chars.length ≤ compMaxString)

theorem safe_clear (safe : (c.view []).Safe width) (mode : c.mode = .transparent) :
    (c.view []).Clear :=
  { mode := mode
    ok := safe.ok
    fits := safe.fits
    width := safe.wide
    aligned := safe.aligned mode }

theorem safe_typed {v : View} (safe : v.Safe width) (mode : v.mode = .transparent) (ch : UInt8)
    (escapeChar : UInt8) {m : Matcher} (stepped : v.matcher.step ch = .ok m) (ok : m.Ok) :
    ({ v.typed m [ch] with escape := false, escapeChar := escapeChar } : View).Safe width := by
  obtain ⟨maxEq, sizeEq⟩ := safe.ok.step_sizes stepped
  constructor
  · exact ok
  · simp only [typed, maxEq]
    exact safe.fits
  · simp only [typed, sizeEq]
    exact safe.size
  · simp only [typed, sizeEq]
    exact safe.sizeLow
  · exact safe.wide
  · exact safe.narrow
  · exact Nat.le_trans (Nat.le_of_eq (codewordBits_congr sizeEq)) safe.bits
  · exact safe.limit
  · exact safe.room
  · exact fun _ => safe.aligned mode
  · intro compressed
    exact absurd (mode.symm.trans compressed) (by decide)

/-- `dict_init` on a dictionary whose single characters are in place. -/
theorem safe_dictInit {c₀ : CompState} (safe : (c.view []).Safe width) (dictEq : c₀.dict = c.dict)
    (maxEq : c₀.maxString = c.maxString) : ((dictInit c₀).view []).Safe width := by
  obtain ⟨kids, wf⟩ := safe.ok.wf
  have gt : 1 < c₀.maxString := by
    rw [maxEq]
    exact safe.ok.maxString_gt
  have wf₀ : Wf c₀.dict c₀.maxString kids := by
    rw [dictEq, maxEq]
    exact wf
  have wf' : Wf (dictInit c₀).dict c₀.maxString (fun _ => []) := by
    have room := wf₀.room
    apply @Wf.initial (dictInit c₀).dict c₀.maxString room wf₀.allocated rfl (Nat.le_of_lt gt)
    · intro e low high
      have inDict : e < c₀.dict.dictSize := by omega
      simp only [dictInit, if_pos inDict]
      exact (wf₀.chars e low high).2
    · intro e inDict
      change e < c₀.dict.dictSize at inDict
      simp only [dictInit, if_pos inDict]
      exact ⟨trivial, trivial⟩
  have sizeEq : (dictInit c₀).dict.dictSize = c.dict.dictSize := by
    change c₀.dict.dictSize = c.dict.dictSize
    rw [dictEq]
  constructor
  · exact ⟨gt, ⟨_, wf'⟩, Or.inl rfl, Or.inl ⟨rfl, rfl⟩, Or.inl rfl⟩
  · exact Nat.le_trans (Nat.le_of_eq maxEq) safe.fits
  · exact Nat.le_trans (Nat.le_of_eq sizeEq) safe.size
  · exact Nat.le_trans safe.sizeLow (Nat.le_of_eq sizeEq.symm)
  · exact Nat.le_refl 9
  · exact Nat.le_trans (codewordBits_ge safe.sizeLow) safe.bits
  · exact Nat.le_trans (Nat.le_of_eq (codewordBits_congr sizeEq)) safe.bits
  · exact safe.limit
  · exact Nat.zero_lt_succ 8
  · exact fun _ => rfl
  · intro compressed
    cases compressed

theorem safe_transparent (safe : (c.view []).Safe width) (mode : c.mode = .transparent) (b : UInt8) :
    Outcome width c b := by
  have clear := safe_clear safe mode
  -- a byte that leads to a known view
  have follow : ∀ (v' : View) (chars : List UInt8), Byte (c.view []) b v' → v'.Safe width →
      v'.matcher.dict.dictSize = c.dict.dictSize → v'.text = (c.view []).text ++ chars →
      chars.length ≤ compMaxString → Outcome width c b := by
    intro v' chars byte safe' sizeEq text short
    obtain ⟨c', answer, shape⟩ := byte.decodes c [] rfl
    rw [← shape] at safe' text sizeEq
    exact .followed c' answer safe' sizeEq chars text short
  by_cases raised : c.escape = true
  · by_cases ecm : b = ccEcm
    · subst ecm
      refine follow _ [] (clear.byte_ecm raised) ?_ rfl (List.append_nil _).symm (by decide)
      exact
        { ok := safe.ok.restart
          fits := safe.fits
          size := safe.size
          sizeLow := safe.sizeLow
          wide := safe.wide
          narrow := safe.narrow
          bits := safe.bits
          limit := safe.limit
          room := safe.room
          aligned := fun impossible => CompMode.noConfusion impossible
          closed := fun _ => ⟨rfl, rfl⟩ }
    · by_cases eid : b = ccEid
      · subst eid
        obtain ⟨m, stepped, ok, _⟩ := safe.ok.step_spec c.escapeChar
        exact follow _ [c.escapeChar] (clear.byte_eid raised m stepped)
          (safe_typed safe mode _ _ stepped ok) (safe.ok.step_sizes stepped).2 rfl
          (show 1 ≤ compMaxString by decide)
      · have decoded : c.compDecode [b] =
            c.decodeTransparent b [] >>= fun read => decodeLoop 1 read.1 read.2 := by
          change decodeLoop 2 c [b] = _
          rw [decodeLoop, decodePass_transparent mode]
        unfold decodeTransparent at decoded
        rw [raised, if_pos rfl, if_neg ecm, if_neg eid] at decoded
        by_cases reset : b = ccReset
        · rw [if_pos reset, ok_bind] at decoded
          refine .followed _ (decoded.trans (decodeLoop_nil _ _)) (safe_dictInit safe rfl rfl) rfl
            [] ?_ (by decide)
          simp [view, dictInit, sendString]
        · rw [if_neg reset] at decoded
          exact .refused decoded
  · have idle : c.escape = false := by simpa using raised
    by_cases escaped : b = c.escapeChar
    · subst escaped
      refine follow _ [] (clear.byte_escape idle) ?_ rfl (List.append_nil _).symm (by decide)
      exact
        { ok := safe.ok
          fits := safe.fits
          size := safe.size
          sizeLow := safe.sizeLow
          wide := safe.wide
          narrow := safe.narrow
          bits := safe.bits
          limit := safe.limit
          room := safe.room
          aligned := safe.aligned
          closed := safe.closed }
    · obtain ⟨m, stepped, ok, _⟩ := safe.ok.step_spec b
      have safe' := safe_typed safe mode b c.escapeChar stepped ok
      refine follow _ [b] (clear.byte_data idle b escaped m stepped) ?_
        (safe.ok.step_sizes stepped).2 rfl (show 1 ≤ compMaxString by decide)
      have same : ({ (c.view []).typed m [b] with
          escape := false, escapeChar := c.escapeChar } : View) = (c.view []).typed m [b] := by
        rw [← idle]
        rfl
      rwa [same] at safe'

theorem codeword_full (b : UInt8) (mode : c.mode = .compressed)
    (full : c.cwSize ≤ c.bitLen + 8) :
    c.codeword b = some ((c.pushByte b).bitData % 2 ^ c.cwSize % 2 ^ 16) :=
  if_pos ⟨mode, full⟩

def shifted (c : CompState) (b : UInt8) : CompState :=
  { c.pushByte b with
    bitData := (c.pushByte b).bitData >>> c.cwSize
    bitLen := c.bitLen + 8 - c.cwSize }

theorem shifted_view (c : CompState) (b : UInt8) :
    (c.shifted b).view [] =
      ((c.view []).holding 0 0).holding (c.bitLen + 8 - c.cwSize)
        ((c.pushByte b).bitData >>> c.cwSize) := rfl

theorem compDecode_codeword (safe : (c.view []).Safe width) (mode : c.mode = .compressed) {b : UInt8}
    {cw : Nat} (completed : c.codeword b = some cw) :
    c.compDecode [b] = (c.shifted b).decodeCodeword cw := by
  have narrow := Nat.le_trans safe.narrow safe.limit
  have full : c.cwSize ≤ c.bitLen + 8 := by
    by_contra short
    unfold codeword at completed
    rw [if_neg (fun both => short both.2)] at completed
    cases completed
  rw [codeword_full b mode full] at completed
  rw [compDecode_full b mode narrow safe.room full, ← Option.some.inj completed]
  rfl

theorem decodeUpdate_refused {after : Dict} {cw : Nat} (pending : c.updateAt ≠ 0)
    (answer : c.dict.matchChar c.updateAt (c.strData.headD 0) = .ok 0)
    (added : c.dict.addChar c.updateAt (c.strData.headD 0) = .ok (after, c.dict.nextFree))
    (free : cw = after.nextFree) : c.decodeUpdate cw = .error .fatal := by
  unfold decodeUpdate
  rw [if_pos pending]
  simp only [answer, ok_bind, if_true, added, if_pos free]

theorem decodeCodeword_regular {cw : Nat} (regular : firstEntry ≤ cw) :
    c.decodeCodeword cw = c.decodeString cw := by
  simp only [firstEntry] at regular
  unfold decodeCodeword
  rw [if_neg (by simp only [ccwEtm]; omega), if_neg (by simp only [ccwFlush]; omega),
    if_neg (by simp only [ccwStepup]; omega)]

theorem assigned_live {cw : Nat} (regular : firstEntry ≤ cw) (notFree : cw ≠ c.dict.nextFree)
    (assigned : c.Assigned cw) : c.dict.Live cw := by
  obtain ⟨high, single | linked⟩ := assigned
  · exact Or.inl ⟨regular, single⟩
  · rcases Nat.lt_or_ge cw firstFree with single | low
    · exact Or.inl ⟨regular, single⟩
    · exact Or.inr ⟨low, high, notFree, linked⟩

theorem safe_string (safe : (c.view []).Safe width) (mode : c.mode = .compressed) {b : UInt8} {cw : Nat}
    (completed : c.codeword b = some cw) (regular : firstEntry ≤ cw)
    (live : c.dict.Live cw) : Outcome width c b := by
  have decoded := compDecode_codeword safe mode completed
  obtain ⟨kids, wf⟩ := safe.ok.wf
  obtain ⟨idle, closed⟩ := safe.closed mode
  obtain ⟨text, spells, short⟩ := wf.spelled cw live
  have notFree := wf.live_ne_free live
  obtain ⟨after, new, grown, _, ok₁, outcome⟩ := safe.ok.update_spec (text.headD 0)
  have enough : c.maxString ≤ c.dict.alloc := by
    have room := wf.room
    have allocated := wf.allocated
    change firstFree + c.maxString + 1 < c.dict.dictSize at room
    change c.dict.dictSize ≤ c.dict.alloc at allocated
    omega
  by_cases used : cw = after.nextFree
  · -- only a fresh entry moves the free one
    cases outcome with
    | idle => exact absurd used notFree
    | known => exact absurd used notFree
    | fresh after pending answer positive added spec =>
        have strEmpty := compressed_strData (shifted_view c b) closed
        have received : (c.shifted b).recvData cw =
            .ok { c.shifted b with strData := text } := by
          have held : (c.shifted b).strData.length + text.length ≤ compMaxString := by
            rw [strEmpty.1, List.length_nil, Nat.zero_add]
            exact short.trans safe.fits
          have spelled : Spells (c.shifted b).dict cw text := spells
          rw [recvData_spells spelled (short.trans enough) held, strEmpty.1, List.nil_append]
        refine .refused ?_
        rw [decoded, decodeCodeword_regular regular]
        unfold decodeString
        have freeNe : cw ≠ (c.shifted b).dict.nextFree := notFree
        rw [if_neg freeNe, received, ok_bind]
        rw [@decodeUpdate_refused { c.shifted b with strData := text } after cw pending answer
          added used]
        rfl
  · have takes := @takes_string ((c.view []).holding 0 0) cw text after new mode ⟨rfl, rfl⟩ closed
      safe.fits enough live notFree spells short grown used
    obtain ⟨c', answer, shape⟩ := takes.decodes (c.shifted b) [] _ _ (shifted_view c b)
    rw [← decoded] at answer
    have sizeEq : after.dictSize = c.dict.dictSize := by
      cases outcome with
      | idle => rfl
      | known => rfl
      | fresh _ _ _ _ _ spec => exact spec.size_eq
    refine .followed c' answer ?_ ?_ text ?_ (short.trans safe.fits)
    · rw [shape]
      have room := safe.room
      constructor
      · refine ⟨safe.ok.maxString_gt, ok₁.wf, ?_, Or.inl ⟨idle, closed⟩, safe.ok.added_ge⟩
        by_cases full : text.length = c.maxString
        · exact Or.inl (if_pos full)
        · have liveAfter : after.Live cw ∧ Spells after cw text := by
            cases outcome with
            | idle => exact ⟨live, spells⟩
            | known => exact ⟨live, spells⟩
            | fresh _ _ _ _ _ spec =>
                refine ⟨(spec.live_iff cw).mpr (Or.inr ⟨live, used⟩), ?_⟩
                exact wf.spells_congr spells live spec.alloc_eq
                  (fun i liveI => spec.kept i (wf.live_ne_free liveI))
          have point : (if text.length = c.maxString then 0 else cw) = cw := if_neg full
          change after.Growable c.maxString (if text.length = c.maxString then 0 else cw)
          rw [point]
          refine Or.inr ⟨liveAfter.1, text, liveAfter.2, ?_⟩
          have bounded : text.length ≤ c.maxString := short
          omega
      · exact safe.fits
      · exact Nat.le_trans (Nat.le_of_eq sizeEq) safe.size
      · exact Nat.le_trans safe.sizeLow (Nat.le_of_eq sizeEq.symm)
      · exact safe.wide
      · exact safe.narrow
      · exact Nat.le_trans (Nat.le_of_eq (codewordBits_congr sizeEq)) safe.bits
      · exact safe.limit
      · change c.bitLen + 8 - c.cwSize < c.cwSize
        have wide : 9 ≤ c.cwSize := safe.wide
        change c.bitLen < c.cwSize at room
        omega
      · intro transparent
        exact absurd (mode.symm.trans transparent) (by decide)
      · exact fun _ => ⟨idle, closed⟩
    · exact (congrArg (fun v : View => v.matcher.dict.dictSize) shape).trans sizeEq
    · rw [shape]
      rfl

theorem safe_control (safe : (c.view []).Safe width) (mode : c.mode = .compressed) {b : UInt8} {cw : Nat}
    (completed : c.codeword b = some cw) (control : cw < firstEntry)
    (narrower : cw = ccwStepup → c.cwSize < codewordBits c.dict) : Outcome width c b := by
  have decoded := compDecode_codeword safe mode completed
  obtain ⟨idle, closed⟩ := safe.closed mode
  have left : c.bitLen + 8 - c.cwSize < 9 := by
    have room : c.bitLen < c.cwSize := safe.room
    omega
  have wide : 9 ≤ c.cwSize := safe.wide
  have cases : cw = ccwEtm ∨ cw = ccwFlush ∨ cw = ccwStepup := by
    simp only [firstEntry, ccwEtm, ccwFlush, ccwStepup] at control ⊢
    omega
  rcases cases with rfl | rfl | rfl
  · have aligns := @aligns_etm ((c.view []).holding 0 0) mode ⟨rfl, rfl⟩ idle
    obtain ⟨c', answer, shape⟩ := aligns.decodes (c.shifted b) [] _ _ (shifted_view c b)
    rw [← decoded] at answer
    refine .followed c' answer ?_ (congrArg (fun v : View => v.matcher.dict.dictSize) shape) []
      ?_ (by decide)
    · rw [shape]
      constructor
      · exact ⟨safe.ok.maxString_gt, safe.ok.wf, safe.ok.growable, safe.ok.matched, Or.inl rfl⟩
      · exact safe.fits
      · exact safe.size
      · exact safe.sizeLow
      · exact safe.wide
      · exact safe.narrow
      · exact safe.bits
      · exact safe.limit
      · exact Nat.lt_of_lt_of_le (Nat.zero_lt_succ 8) wide
      · exact fun _ => rfl
      · exact fun impossible => CompMode.noConfusion impossible
    · rw [shape]
      exact (List.append_nil _).symm
  · have aligns := @aligns_flush ((c.view []).holding 0 0) mode ⟨rfl, rfl⟩
    obtain ⟨c', answer, shape⟩ := aligns.decodes (c.shifted b) [] _ _ (shifted_view c b)
    rw [← decoded] at answer
    refine .followed c' answer ?_ (congrArg (fun v : View => v.matcher.dict.dictSize) shape) []
      ?_ (by decide)
    · rw [shape]
      exact
        { ok := safe.ok
          fits := safe.fits
          size := safe.size
          sizeLow := safe.sizeLow
          wide := safe.wide
          narrow := safe.narrow
          bits := safe.bits
          limit := safe.limit
          room := Nat.lt_of_lt_of_le (Nat.zero_lt_succ 8) wide
          aligned := fun _ => rfl
          closed := safe.closed }
    · rw [shape]
      exact (List.append_nil _).symm
  · have allowed : c.cwSize + 1 ≤ c.dict.dictSize / 8 := by
      have below := narrower rfl
      have bits := codewordBits_le safe.size
      have size : 512 ≤ c.dict.dictSize := safe.sizeLow
      change codewordBits c.dict ≤ 11 at bits
      omega
    have takes := @takes_stepup ((c.view []).holding 0 0) mode ⟨rfl, rfl⟩ allowed
    obtain ⟨c', answer, shape⟩ := takes.decodes (c.shifted b) [] _ _ (shifted_view c b)
    rw [← decoded] at answer
    refine .followed c' answer ?_ (congrArg (fun v : View => v.matcher.dict.dictSize) shape) []
      ?_ (by decide)
    · rw [shape]
      constructor
      · exact safe.ok
      · exact safe.fits
      · exact safe.size
      · exact safe.sizeLow
      · exact Nat.le_succ_of_le safe.wide
      · exact Nat.le_trans (narrower rfl) safe.bits
      · exact safe.bits
      · exact safe.limit
      · change c.bitLen + 8 - c.cwSize < c.cwSize + 1
        omega
      · intro transparent
        exact absurd (mode.symm.trans transparent) (by decide)
      · exact safe.closed
    · rw [shape]
      exact (List.append_nil _).symm

theorem codeword_compressed {b : UInt8} {cw : Nat} (completed : c.codeword b = some cw) :
    c.mode = .compressed := by
  by_contra transparent
  unfold codeword at completed
  rw [if_neg (fun both => transparent both.1)] at completed
  cases completed

theorem refused_free (safe : (c.view []).Safe width) {b : UInt8} (regular : firstEntry ≤ c.dict.nextFree)
    (completed : c.codeword b = some c.dict.nextFree) : c.compDecode [b] = .error .fatal := by
  rw [compDecode_codeword safe (codeword_compressed completed) completed,
    decodeCodeword_regular regular]
  unfold decodeString
  exact if_pos rfl

theorem safe_byte (safe : (c.view []).Safe width) (b : UInt8) (guarded : c.Guarded b) :
    Outcome width c b := by
  rcases c.mode_cases with mode | mode
  · exact safe_transparent safe mode b
  · cases completed : c.codeword b with
    | none =>
        have narrow := Nat.le_trans safe.narrow safe.limit
        have short : c.bitLen + 8 < c.cwSize := by
          by_contra full
          rw [codeword_full b mode (by omega)] at completed
          cases completed
        refine .followed _ (compDecode_short b mode narrow short) ?_ rfl [] ?_ (by decide)
        · exact
            { ok := safe.ok
              fits := safe.fits
              size := safe.size
              sizeLow := safe.sizeLow
              wide := safe.wide
              narrow := safe.narrow
              bits := safe.bits
              limit := safe.limit
              room := short
              aligned := fun transparent => absurd (mode.symm.trans transparent) (by decide)
              closed := safe.closed }
        · exact (List.append_nil _).symm
    | some cw =>
        obtain ⟨narrower, assigned⟩ := guarded cw completed
        rcases Nat.lt_or_ge cw firstEntry with control | regular
        · exact safe_control safe mode completed control narrower
        · by_cases free : cw = c.dict.nextFree
          · subst free
            exact .refused (refused_free safe regular completed)
          · exact safe_string safe mode completed regular
              (assigned_live regular free (assigned regular free))

/-! ### Runs -/

theorem safe_drain (safe : (c.view []).Safe width) : (c.drain.view []).Safe width :=
  { ok := safe.ok
    fits := safe.fits
    size := safe.size
    sizeLow := safe.sizeLow
    wide := safe.wide
    narrow := safe.narrow
    bits := safe.bits
    limit := safe.limit
    room := safe.room
    aligned := safe.aligned
    closed := safe.closed }

theorem feed_safe (bytes : List UInt8) (safe : (c.view []).Safe width) (drained : c.obuf = [])
    (guarded : ∀ before b c', before ++ [b] <+: bytes → c.feed before = .ok c' → c'.Guarded b)
    {c' : CompState} (ran : c.feed bytes = .ok c') :
    (c'.view []).Safe width ∧ c'.obuf = [] ∧ c'.dict.dictSize = c.dict.dictSize := by
  induction bytes generalizing c with
  | nil =>
      obtain rfl := Except.ok.inj ran
      exact ⟨safe, drained, rfl⟩
  | cons b rest ih =>
      have first : c.Guarded b := guarded [] b c ⟨rest, rfl⟩ rfl
      cases safe_byte safe b first with
      | refused answer =>
          rw [feed, answer] at ran
          cases ran
      | followed c₁ answer safe₁ sizeEq chars text short =>
          rw [feed, answer, ok_bind] at ran
          have later : ∀ before b' c₂, before ++ [b'] <+: rest → c₁.drain.feed before = .ok c₂ →
              c₂.Guarded b' := by
            intro before b' c₂ cut reached
            apply guarded (b :: before) b' c₂
            · obtain ⟨after, whole⟩ := cut
              exact ⟨after, by rw [← whole]; rfl⟩
            · rw [feed, answer, ok_bind]
              exact reached
          obtain ⟨safe', drained', sizeEq'⟩ := ih (safe_drain safe₁) rfl later ran
          exact ⟨safe', drained', sizeEq'.trans sizeEq⟩

theorem safe_tidy (safe : (c.view []).Safe (codewordBits c.dict)) : c.Tidy := by
  refine ⟨safe.narrow, ?_⟩
  have short : c.flushedLen + c.strData.length < c.maxString := safe.ok.total_lt
  omega

theorem safeByte_iff (safe : (c.view []).Safe (codewordBits c.dict)) (drained : c.obuf = []) (b : UInt8) :
    c.SafeByte b ↔ c.Guarded b := by
  constructor
  · intro safeByte cw completed
    refine ⟨?_, safeByte.expands cw completed⟩
    rintro rfl
    have mode := codeword_compressed completed
    have bits := codewordBits_le safe.size
    have narrow : c.cwSize ≤ codewordBits c.dict := safe.narrow
    have size : 512 ≤ c.dict.dictSize := safe.sizeLow
    have allowed : c.cwSize + 1 ≤ c.dict.dictSize / 8 := by
      change codewordBits c.dict ≤ 11 at bits
      omega
    have takes := @takes_stepup ((c.view []).holding 0 0) mode ⟨rfl, rfl⟩ allowed
    obtain ⟨c', answer, shape⟩ := takes.decodes (c.shifted b) [] _ _ (shifted_view c b)
    rw [← compDecode_codeword safe mode completed] at answer
    have width := (safeByte.after c' answer).1.width
    have cwSizeEq : c'.cwSize = c.cwSize + 1 := congrArg View.cwSize shape
    have dictEq : c'.dict = c.dict := congrArg (fun v : View => v.matcher.dict) shape
    rw [cwSizeEq, dictEq] at width
    exact width
  · intro guarded
    have outcome := safe_byte safe b guarded
    constructor
    · exact safe_tidy safe
    · intro cw completed regular notFree
      exact (guarded cw completed).2 regular notFree
    · intro cw completed regular bad
      by_cases free : cw = c.dict.nextFree
      · subst free
        exact refused_free safe regular completed
      · exact absurd ((guarded cw completed).2 regular free) (bad.resolve_left free)
    · intro cw c' completed regular notFree received
      obtain ⟨kids, wf⟩ := safe.ok.wf
      obtain ⟨_, closed⟩ := safe.closed (codeword_compressed completed)
      have live := assigned_live regular notFree ((guarded cw completed).2 regular notFree)
      obtain ⟨text, spells, short⟩ := wf.spelled cw live
      have sum : c.flushedLen + c.strData.length = 0 := closed
      have empty : c.strData = [] := List.eq_nil_of_length_eq_zero (by omega)
      unfold recvData at received
      obtain ⟨chars, read, received⟩ := bind_eq_ok.mp received
      have charsEq : chars = text := by
        have room := wf.room
        have allocated := wf.allocated
        have enough : text.length ≤ c.dict.alloc := by
          change c.dict.dictSize ≤ c.dict.alloc at allocated
          change firstFree + c.maxString + 1 < c.dict.dictSize at room
          change text.length ≤ c.maxString at short
          omega
        have spelled : Spells c.dict cw text := spells
        rw [stringChars_spells spelled c.dict.alloc enough] at read
        exact (Except.ok.inj read).symm
      split at received
      · rw [← Except.ok.inj received, charsEq, empty]
        exact short
      · cases received
    · intro fault failed
      cases outcome with
      | refused answer =>
          rw [answer] at failed
          exact (Except.error.inj failed).symm
      | followed c' answer =>
          rw [answer] at failed
          cases failed
    · intro c' done
      cases outcome with
      | refused answer =>
          rw [answer] at done
          cases done
      | followed c₁ answer safe₁ sizeEq chars text short =>
          rw [answer] at done
          obtain rfl := Except.ok.inj done
          rw [← codewordBits_congr sizeEq] at safe₁
          refine ⟨safe_tidy safe₁, ?_⟩
          have lengths := congrArg List.length text
          simp only [view, drained, List.nil_append, List.length_append] at lengths
          have held := (safe_tidy safe).short
          have fits : c.maxString ≤ compMaxString := safe.fits
          simp only [compMaxString, obufSize] at *
          omega

end CompState

theorem compInit_safe {dictSize maxStr : Int} {c : CompState} (sizeLow : 512 ≤ dictSize)
    (sizeHigh : dictSize ≤ 2048) (strLow : 6 ≤ maxStr) (strHigh : maxStr ≤ 34)
    (initialised : compInit dictSize maxStr = some c) :
    (c.view []).Safe (codewordBits c.dict) ∧ c.obuf = [] := by
  have accepted : ¬(dictSize < minDictSize ∨ maxStr < minStrSize ∨ maxStr > maxStrSize) := by
    simp only [minDictSize, minStrSize, maxStrSize]
    omega
  unfold compInit at initialised
  rw [if_neg accepted] at initialised
  obtain rfl := Option.some.inj initialised
  have room : firstFree + maxStr.toNat + 1 < dictSize.toNat := by
    simp only [firstFree, totalChars, firstEntry]
    omega
  refine ⟨⟨dictInit_ok _ _ room (by omega), ?_, ?_, ?_, Nat.le_refl 9, ?_, Nat.le_refl _, ?_,
    Nat.zero_lt_succ 8, fun _ => rfl, fun impossible => CompMode.noConfusion impossible⟩, rfl⟩
  · change maxStr.toNat ≤ compMaxString
    simp only [compMaxString]
    omega
  · change dictSize.toNat ≤ 2048
    omega
  · change 512 ≤ dictSize.toNat
    omega
  · refine codewordBits_ge ?_
    change 512 ≤ dictSize.toNat
    omega
  · refine codewordBits_le ?_
    change dictSize.toNat ≤ 2048
    omega

/-- Every byte of a run is safe exactly when every byte of it is guarded. -/
theorem feed_safe_iff_guarded (dictSize maxStr : Int) (c : CompState) (sizeLow : 512 ≤ dictSize)
    (sizeHigh : dictSize ≤ 2048) (strLow : 6 ≤ maxStr) (strHigh : maxStr ≤ 34)
    (initialised : compInit dictSize maxStr = some c) (bytes : List UInt8) :
    (∀ before b c', before ++ [b] <+: bytes → c.feed before = .ok c' → c'.SafeByte b) ↔
      ∀ before b c', before ++ [b] <+: bytes → c.feed before = .ok c' → c'.Guarded b := by
  obtain ⟨safe, drained⟩ := compInit_safe sizeLow sizeHigh strLow strHigh initialised
  -- a run all of whose bytes so far are guarded is in the invariant
  have reach : ∀ before b c', before ++ [b] <+: bytes → c.feed before = .ok c' →
      (∀ before' b' c₁, before' ++ [b'] <+: before → c.feed before' = .ok c₁ → c₁.Guarded b') →
      (c'.SafeByte b ↔ c'.Guarded b) := by
    intro before b c' _ ran earlier
    obtain ⟨safe', drained', sizeEq⟩ := CompState.feed_safe before safe drained earlier ran
    rw [← codewordBits_congr sizeEq] at safe'
    exact CompState.safeByte_iff safe' drained' b
  constructor
  · intro allSafe before
    induction lengthEq : before.length using Nat.strong_induction_on generalizing before with
    | _ length ih =>
        intro b c' cut ran
        refine (reach before b c' cut ran ?_).mp (allSafe before b c' cut ran)
        intro before' b' c₁ inner reached
        have shorter := inner.length_le
        rw [List.length_append, List.length_singleton] at shorter
        refine ih before'.length (by omega) before' rfl b' c₁ (inner.trans ?_) reached
        exact (List.prefix_append before [b]).trans cut
  · intro allGuarded before b c' cut ran
    refine (reach before b c' cut ran ?_).mpr (allGuarded before b c' cut ran)
    intro before' b' c₁ inner reached
    apply allGuarded before' b' c₁ (inner.trans ?_) reached
    exact (List.prefix_append before [b]).trans cut

/-- A run that stays out of the holes: `CCW_FLUSH` in compressed mode. -/
theorem feed_safe_of_flush :
    compInit 512 6 = some (dictInit (compAlloc 512 6)) ∧
      ∀ before b c', before ++ [b] <+: [0, 0, 1, 0] →
        (dictInit (compAlloc 512 6)).feed before = .ok c' → c'.SafeByte b := by
  refine ⟨rfl, ?_⟩
  refine (feed_safe_iff_guarded 512 6 _ (by decide) (by decide) (by decide) (by decide) rfl
    [0, 0, 1, 0]).mpr ?_
  have completes : ∀ before b c' answer,
      ((dictInit (compAlloc 512 6)).feed before).map (·.codeword b) = .ok answer →
      (dictInit (compAlloc 512 6)).feed before = .ok c' → c'.codeword b = answer := by
    intro before b c' answer evaluated ran
    rw [ran] at evaluated
    exact Except.ok.inj evaluated
  intro before b c' cut ran cw completed
  have inputs : (before = [] ∧ b = 0) ∨ (before = [0] ∧ b = 0) ∨ (before = [0, 0] ∧ b = 1) ∨
      (before = [0, 0, 1] ∧ b = 0) := by
    obtain ⟨after, whole⟩ := cut
    rcases before with _ | ⟨x, _ | ⟨y, _ | ⟨z, _ | ⟨w, rest⟩⟩⟩⟩ <;> simp_all
  rcases inputs with ⟨rfl, rfl⟩ | ⟨rfl, rfl⟩ | ⟨rfl, rfl⟩ | ⟨rfl, rfl⟩
  · rw [completes [] 0 c' none rfl ran] at completed
    cases completed
  · rw [completes [0] 0 c' none rfl ran] at completed
    cases completed
  · rw [completes [0, 0] 1 c' none rfl ran] at completed
    cases completed
  · rw [completes [0, 0, 1] 0 c' (some 1) rfl ran] at completed
    obtain rfl := Option.some.inj completed
    exact ⟨fun stepup => absurd stepup (by decide), fun regular => absurd regular (by decide)⟩

/-- One `CCW_STEPUP` takes the smallest dictionary past its codeword size. -/
theorem stepup_not_safe :
    ¬∀ (dictSize maxStr : Int) (c : CompState), 512 ≤ dictSize → dictSize ≤ 2048 → 6 ≤ maxStr →
      maxStr ≤ 34 → compInit dictSize maxStr = some c →
      ∀ before b c', c.feed before = .ok c' → c'.SafeByte b := by
  intro all
  have safeByte := all 512 6 (dictInit (compAlloc 512 6)) (by decide) (by decide) (by decide)
    (by decide) rfl [0, 0, 2] 0 _ rfl
  have tidy := (safeByte.after _ rfl).1
  exact absurd tidy.width (by decide)

end DModem.Comp
