/-
Well-formed dictionaries.

`Wf` is the representation invariant of the linked dictionary: the child list of
every entry is a duplicate-free chain of entries that name it as their parent,
siblings carry distinct characters, and every entry in use spells a string of at
most `maxString` characters.  `match_char` then decides membership in a child
list, and `add_char` keeps the invariant, changes parents and characters of the
new entry only, and retires exactly the entry it makes the next free one.
-/

import DModem.Lib.Chain
import DModem.Comp.Dict

namespace DModem.Comp

open DModem.Lib

/-! ### Calls that may fail -/

@[simp] theorem ok_bind {α β : Type} (value : α) (next : α → Except Fault β) :
    (Except.ok value >>= next) = next value := rfl

theorem bind_eq_ok {α β : Type} {value : Except Fault α} {next : α → Except Fault β}
    {result : β} :
    (value >>= next) = .ok result ↔ ∃ mid, value = .ok mid ∧ next mid = .ok result := by
  cases value with
  | error fault =>
      constructor
      · intro impossible
        cases impossible
      · rintro ⟨mid, impossible, _⟩
        cases impossible
  | ok mid => simp

section Along

variable {σ κ : Type} (step : σ → κ → Except Fault σ) (meets : σ → κ → Prop)
  [∀ s call, Decidable (meets s call)]

/-- Each call meets the condition in the state in which it is made. -/
def metAlong (s : σ) : List κ → Bool
  | [] => true
  | call :: rest =>
      decide (meets s call) &&
        match step s call with
        | .ok s' => metAlong s' rest
        | .error _ => true

variable {step meets} {run : σ → List κ → Except Fault σ}

theorem met_along (stops : ∀ s, run s [] = .ok s)
    (goesOn : ∀ s call rest, run s (call :: rest) = step s call >>= fun s' => run s' rest)
    {s : σ} {calls : List κ} (met : metAlong step meets s calls = true) :
    ∀ before call after s', calls = before ++ call :: after → run s before = .ok s' →
      meets s' call := by
  induction calls generalizing s with
  | nil =>
      intro before call after s' whole
      simp at whole
  | cons first rest ih =>
      intro before call after s' whole ran
      unfold metAlong at met
      obtain ⟨now, later⟩ := Bool.and_eq_true_iff.mp met
      cases before with
      | nil =>
          obtain ⟨rfl, -⟩ := List.cons.inj whole
          obtain rfl := Except.ok.inj ((stops s).symm.trans ran)
          exact of_decide_eq_true now
      | cons same before =>
          obtain ⟨rfl, shorter⟩ := List.cons.inj whole
          obtain ⟨s₁, stepped, reached⟩ := bind_eq_ok.mp ((goesOn s first before).symm.trans ran)
          rw [stepped] at later
          exact ih later before call after s' shorter reached

end Along

namespace Dict

/-- An entry that a codeword may denote: a single character, or an entry that
hangs under a parent. -/
def Live (d : Dict) (e : Nat) : Prop :=
  (firstEntry ≤ e ∧ e < firstFree) ∨
    (firstFree ≤ e ∧ e < d.dictSize ∧ e ≠ d.nextFree ∧ (d.entry e).parent ≠ 0)

/-- The string met on the way from an entry up to its single character, in
reading order. -/
inductive Spells (d : Dict) : Nat → List UInt8 → Prop where
  | char {e : Nat} (nonzero : e ≠ 0) (within : e < d.alloc)
      (top : (d.entry e).parent = 0) : Spells d e [(d.entry e).ch]
  | snoc {e : Nat} {text : List UInt8} (nonzero : e ≠ 0) (within : e < d.alloc)
      (above : Spells d (d.entry e).parent text) :
      Spells d e (text ++ [(d.entry e).ch])

theorem Spells.ne_zero {d : Dict} {e : Nat} {text : List UInt8}
    (spells : Spells d e text) : e ≠ 0 := by
  cases spells <;> assumption

theorem Spells.unique {d : Dict} {e : Nat} {text text' : List UInt8}
    (spells : Spells d e text) (spells' : Spells d e text') : text = text' := by
  induction spells generalizing text' with
  | char nonzero within top =>
      cases spells' with
      | char => rfl
      | snoc _ _ above => exact absurd top above.ne_zero
  | snoc nonzero within above ih =>
      cases spells' with
      | char _ _ top => exact absurd top above.ne_zero
      | snoc _ _ above' => rw [ih above']

theorem Spells.length_pos {d : Dict} {e : Nat} {text : List UInt8}
    (spells : Spells d e text) : 0 < text.length := by
  cases spells <;> simp

/-- The representation invariant; `kids p` is the child list of `p`. -/
structure Wf (d : Dict) (maxString : Nat) (kids : Nat → List Nat) : Prop where
  room : firstFree + maxString + 1 < d.dictSize
  allocated : d.dictSize ≤ d.alloc
  chars : ∀ e, firstEntry ≤ e → e < firstFree →
    (d.entry e).parent = 0 ∧ (d.entry e).ch.toNat + firstEntry = e
  free_ge : firstFree ≤ d.nextFree
  free_lt : d.nextFree < d.dictSize
  chain : ∀ p, p < d.dictSize →
    IsChain (fun e => (d.entry e).next) (d.entry p).child (kids p)
  nodup : ∀ p, (kids p).Nodup
  kid : ∀ p e, e ∈ kids p →
    firstFree ≤ e ∧ e < d.dictSize ∧ e ≠ d.nextFree ∧ (d.entry e).parent = p ∧ d.Live p
  kid_ch : ∀ p e e', e ∈ kids p → e' ∈ kids p →
    (d.entry e).ch = (d.entry e').ch → e = e'
  linked : ∀ e, firstFree ≤ e → d.Live e → e ∈ kids (d.entry e).parent
  spelled : ∀ e, d.Live e → ∃ text, Spells d e text ∧ text.length ≤ maxString

theorem Wf.initial {d : Dict} {maxString : Nat} (room : firstFree + maxString + 1 < d.dictSize)
    (allocated : d.dictSize ≤ d.alloc) (free : d.nextFree = firstFree) (short : 1 ≤ maxString)
    (chars : ∀ e, firstEntry ≤ e → e < firstFree → (d.entry e).ch.toNat + firstEntry = e)
    (cleared : ∀ e, e < d.dictSize → (d.entry e).parent = 0 ∧ (d.entry e).child = 0) :
    Wf d maxString (fun _ => []) := by
  have noOther : ∀ e, firstFree ≤ e → ¬d.Live e := by
    intro e low live
    rcases live with ⟨_, high⟩ | ⟨_, high, _, used⟩
    · omega
    · exact used (cleared e high).1
  constructor
  · exact room
  · exact allocated
  · intro e low high
    exact ⟨(cleared e (by omega)).1, chars e low high⟩
  · exact Nat.le_of_eq free.symm
  · omega
  · intro p high
    exact (cleared p high).2
  · intro p
    exact List.nodup_nil
  · intro p e member
    cases member
  · intro p e e' member
    cases member
  · intro e low live
    exact absurd live (noOther e low)
  · intro e live
    rcases live with ⟨low, high⟩ | ⟨low, rest⟩
    · refine ⟨[(d.entry e).ch], Spells.char ?_ (by omega) (cleared e (by omega)).1, short⟩
      simp only [firstEntry] at low
      omega
    · exact absurd (Or.inr ⟨low, rest⟩) (noOther e low)

section Wf

variable {d : Dict} {maxString : Nat} {kids : Nat → List Nat}

theorem Live.pos {e : Nat} (live : d.Live e) : 0 < e := by
  rcases live with ⟨low, _⟩ | ⟨low, _⟩ <;> simp only [firstEntry, firstFree, totalChars] at low <;>
    omega

theorem Wf.live_lt {e : Nat} (wf : Wf d maxString kids) (live : d.Live e) :
    e < d.dictSize := by
  rcases live with ⟨_, high⟩ | ⟨_, high, _⟩
  · have room := wf.room
    omega
  · exact high

theorem Wf.live_ne_free {e : Nat} (wf : Wf d maxString kids) (live : d.Live e) :
    e ≠ d.nextFree := by
  rcases live with ⟨_, high⟩ | ⟨_, _, used, _⟩
  · have low := wf.free_ge
    omega
  · exact used

theorem Wf.kid_live {p e : Nat} (wf : Wf d maxString kids) (member : e ∈ kids p) :
    d.Live e := by
  obtain ⟨low, high, used, parentEq, above⟩ := wf.kid p e member
  refine Or.inr ⟨low, high, used, ?_⟩
  rw [parentEq]
  exact Nat.pos_iff_ne_zero.mp above.pos

theorem Wf.parent_live {e : Nat} (wf : Wf d maxString kids)
    (low : firstFree ≤ e) (live : d.Live e) : d.Live (d.entry e).parent :=
  (wf.kid _ _ (wf.linked e low live)).2.2.2.2

theorem Wf.kids_length (wf : Wf d maxString kids) (p : Nat) :
    (kids p).length ≤ d.alloc := by
  have bounded : kids p ⊆ List.range d.alloc := by
    intro e member
    have within := (wf.kid p e member).2.1
    have allocated := wf.allocated
    exact List.mem_range.mpr (by omega)
  have shorter := ((wf.nodup p).subperm bounded).length_le
  simpa using shorter

/-! ### `match_char` -/

theorem read_ok {index : Nat} (within : index < d.alloc) :
    d.read index = .ok (d.entry index) := if_pos within

theorem findChild_chain (ch : UInt8) (items : List Nat) (fuel start : Nat)
    (chain : IsChain (fun e => (d.entry e).next) start items)
    (within : ∀ e ∈ items, e < d.alloc) (enough : items.length ≤ fuel) :
    d.findChild ch fuel start =
      .ok ((items.find? (fun e => (d.entry e).ch = ch)).getD 0) := by
  induction items generalizing start fuel with
  | nil =>
      have startEq : start = 0 := chain
      subst startEq
      cases fuel <;> rfl
  | cons item rest ih =>
      obtain ⟨startEq, itemNe, tail⟩ := chain
      subst startEq
      obtain ⟨fuel, rfl⟩ : ∃ fuel', fuel = fuel' + 1 :=
        ⟨fuel - 1, by rw [List.length_cons] at enough; omega⟩
      obtain ⟨index, rfl⟩ : ∃ index, start = index + 1 := ⟨start - 1, by omega⟩
      simp only [findChild, read_ok (within _ List.mem_cons_self), ok_bind]
      by_cases found : (d.entry (index + 1)).ch = ch
      · simp [found]
      · rw [if_neg found, List.find?_cons_of_neg (by simpa using found)]
        exact ih fuel _ tail
          (fun e member => within e (List.mem_cons_of_mem _ member))
          (by rw [List.length_cons] at enough; omega)

theorem matchChar_zero (ch : UInt8) :
    d.matchChar 0 ch = .ok (ch.toNat + firstEntry) := rfl

theorem Wf.matchChar_live (wf : Wf d maxString kids) {p : Nat} (live : d.Live p)
    (ch : UInt8) :
    d.matchChar p ch =
      .ok (((kids p).find? (fun e => (d.entry e).ch = ch)).getD 0) := by
  have within := wf.live_lt live
  have allocated := wf.allocated
  have nonzero : p ≠ 0 := Nat.pos_iff_ne_zero.mp live.pos
  simp only [matchChar, if_neg nonzero, read_ok (show p < d.alloc by omega), ok_bind]
  apply findChild_chain ch (kids p) d.alloc _ (wf.chain p within)
  · intro e member
    have := (wf.kid p e member).2.1
    omega
  · exact wf.kids_length p

/-- What an answer of `match_char` below a live entry means. -/
theorem Wf.matchChar_cases (wf : Wf d maxString kids) {p : Nat} (live : d.Live p)
    (ch : UInt8) :
    (d.matchChar p ch = .ok 0 ∧ ∀ e ∈ kids p, (d.entry e).ch ≠ ch) ∨
      ∃ e, d.matchChar p ch = .ok e ∧ e ∈ kids p ∧ (d.entry e).ch = ch := by
  rw [wf.matchChar_live live ch]
  cases found : (kids p).find? (fun e => (d.entry e).ch = ch) with
  | none =>
      left
      refine ⟨rfl, ?_⟩
      intro e member
      simpa using List.find?_eq_none.mp found e member
  | some e =>
      right
      exact ⟨e, rfl, List.mem_of_find?_eq_some found,
        by simpa using List.find?_some found⟩

theorem Wf.spells_congr (wf : Wf d maxString kids) {d' : Dict} {e : Nat} {text : List UInt8}
    (spells : Spells d e text) (live : d.Live e) (allocEq : d'.alloc = d.alloc)
    (same : ∀ i, d.Live i →
      (d'.entry i).parent = (d.entry i).parent ∧ (d'.entry i).ch = (d.entry i).ch) :
    Spells d' e text := by
  induction spells with
  | @char e nonzero within top =>
      obtain ⟨parentEq, chEq⟩ := same e live
      rw [← chEq]
      exact Spells.char nonzero (allocEq ▸ within) (parentEq.trans top)
  | @snoc e text nonzero within above ih =>
      obtain ⟨parentEq, chEq⟩ := same e live
      have low : firstFree ≤ e := by
        by_contra below
        rcases live with ⟨low, high⟩ | ⟨low, _⟩
        · exact above.ne_zero (wf.chars e low high).1
        · exact below low
      have aboveSpells := ih (wf.parent_live low live)
      rw [← chEq]
      refine Spells.snoc nonzero (allocEq ▸ within) ?_
      rw [parentEq]
      exact aboveSpells

theorem Wf.char_live (ch : UInt8) : d.Live (ch.toNat + firstEntry) := by
  have bounded := ch.toNat_lt
  left
  simp only [firstFree, firstEntry, totalChars]
  omega

theorem Wf.char_spells (wf : Wf d maxString kids) (ch : UInt8) :
    Spells d (ch.toNat + firstEntry) [ch] := by
  have live : d.Live (ch.toNat + firstEntry) := Wf.char_live ch
  have within := wf.live_lt live
  have allocated := wf.allocated
  have bounded := ch.toNat_lt
  obtain ⟨top, chEq⟩ := wf.chars (ch.toNat + firstEntry) (by omega)
    (by simp only [firstFree, totalChars]; omega)
  have same : (d.entry (ch.toNat + firstEntry)).ch = ch :=
    UInt8.toNat_inj.mp (by omega)
  have spells := Spells.char (d := d) (Nat.pos_iff_ne_zero.mp live.pos) (by omega) top
  rwa [same] at spells

theorem Wf.kid_spells (wf : Wf d maxString kids) {p e : Nat} {text : List UInt8}
    (member : e ∈ kids p) (above : Spells d p text) :
    Spells d e (text ++ [(d.entry e).ch]) := by
  obtain ⟨_, high, _, parentEq, _⟩ := wf.kid p e member
  have allocated := wf.allocated
  refine Spells.snoc (Nat.pos_iff_ne_zero.mp (wf.kid_live member).pos) (by omega) ?_
  rw [parentEq]
  exact above

end Wf

end Dict

end DModem.Comp
