/-
New limits for a running codec: `comp_config`.

`comp_config` replaces `max_string` and `dict_size` and leaves the dictionary as it
was built under the old values.  A codec stays sound when what it already holds
lies within the new limits, and only then.
-/

import DModem.Comp.Safety

namespace DModem.Comp

open DModem.Lib Dict

namespace Dict

/-- The entries that hang in the child list of a single character, or of an entry
that hangs in one. -/
inductive Linked (d : Dict) : Nat → Prop where
  | char {p : Nat} (low : firstEntry ≤ p) (high : p < firstFree)
      (nonzero : (d.entry p).child ≠ 0) : Linked d (d.entry p).child
  | child {e : Nat} (above : Linked d e) (nonzero : (d.entry e).child ≠ 0) :
      Linked d (d.entry e).child
  | next {e : Nat} (beside : Linked d e) (nonzero : (d.entry e).next ≠ 0) :
      Linked d (d.entry e).next

section Linked

variable {d : Dict} {maxString : Nat} {kids : Nat → List Nat}

theorem Wf.linked_mem (wf : Wf d maxString kids) {e : Nat} (linked : d.Linked e) :
    ∃ p, e ∈ kids p := by
  induction linked with
  | @char p low high nonzero =>
      have within := wf.live_lt (Or.inl ⟨low, high⟩)
      exact ⟨p, (wf.chain p within).start_mem nonzero⟩
  | @child e above nonzero ih =>
      obtain ⟨p, member⟩ := ih
      have within := wf.live_lt (wf.kid_live member)
      exact ⟨e, (wf.chain e within).start_mem nonzero⟩
  | @next e beside nonzero ih =>
      obtain ⟨p, member⟩ := ih
      have above := (wf.kid p e member).2.2.2.2
      exact ⟨p, (wf.chain p (wf.live_lt above)).next_mem member nonzero⟩

theorem Wf.linked_live (wf : Wf d maxString kids) {e : Nat} (linked : d.Linked e) :
    d.Live e := by
  obtain ⟨p, member⟩ := wf.linked_mem linked
  exact wf.kid_live member

theorem Wf.kids_linked (wf : Wf d maxString kids) {p : Nat} (live : d.Live p)
    (first : (d.entry p).child ≠ 0 → d.Linked (d.entry p).child) :
    ∀ e ∈ kids p, d.Linked e := by
  apply (wf.chain p (wf.live_lt live)).all first
  intro e linked nonzero
  exact .next linked nonzero

theorem Wf.live_linked (wf : Wf d maxString kids) {e : Nat} {text : List UInt8}
    (spells : Spells d e text) (low : firstFree ≤ e) (live : d.Live e) : d.Linked e := by
  induction spells with
  | @char e nonzero within top =>
      rcases live with ⟨_, high⟩ | ⟨_, _, _, hangs⟩
      · omega
      · exact absurd top hangs
  | @snoc e text nonzero within above ih =>
      have aboveLive := wf.parent_live low live
      apply wf.kids_linked aboveLive _ e (wf.linked e low live)
      intro some
      rcases Nat.lt_or_ge (d.entry e).parent firstFree with char | grown
      · rcases aboveLive with ⟨charLow, charHigh⟩ | ⟨grown, _⟩
        · exact .char charLow charHigh some
        · omega
      · exact .child (ih grown aboveLive) some

theorem Wf.live_cases (wf : Wf d maxString kids) {e : Nat} (live : d.Live e) :
    e < firstFree ∨ d.Linked e := by
  rcases Nat.lt_or_ge e firstFree with char | low
  · exact Or.inl char
  · obtain ⟨text, spells, _⟩ := wf.spelled e live
    exact Or.inr (wf.live_linked spells low live)

end Linked

instance (d : Dict) (e : Nat) : Decidable (d.Live e) :=
  inferInstanceAs (Decidable ((firstEntry ≤ e ∧ e < firstFree) ∨
    (firstFree ≤ e ∧ e < d.dictSize ∧ e ≠ d.nextFree ∧ (d.entry e).parent ≠ 0)))

def depth (d : Dict) : Nat → Nat → Nat
  | 0, _ => 0
  | fuel + 1, e => if (d.entry e).parent = 0 then 1 else d.depth fuel (d.entry e).parent + 1

theorem Spells.depth {d : Dict} {e : Nat} {text : List UInt8} (spells : Spells d e text)
    {fuel : Nat} (enough : text.length ≤ fuel) : d.depth fuel e = text.length := by
  induction spells generalizing fuel with
  | @char e nonzero within top =>
      obtain ⟨fuel, rfl⟩ : ∃ less, fuel = less + 1 := ⟨fuel - 1, by simp at enough; omega⟩
      rw [Dict.depth, if_pos top]
      rfl
  | @snoc e text nonzero within above ih =>
      rw [List.length_append, List.length_singleton] at enough ⊢
      obtain ⟨fuel, rfl⟩ : ∃ less, fuel = less + 1 := ⟨fuel - 1, by omega⟩
      rw [Dict.depth, if_neg above.ne_zero, ih (by omega)]

/-- The dictionary with another `dict_size`. -/
def resized (d : Dict) (dictSize : Nat) : Dict :=
  { d with dictSize := dictSize }

theorem Spells.resized {d : Dict} {dictSize e : Nat} {text : List UInt8} :
    Spells (d.resized dictSize) e text ↔ Spells d e text := by
  constructor
  · intro spells
    induction spells with
    | char nonzero within top => exact .char nonzero within top
    | snoc nonzero within _ ih => exact .snoc nonzero within ih
  · intro spells
    induction spells with
    | char nonzero within top => exact .char nonzero within top
    | snoc nonzero within _ ih => exact .snoc nonzero within ih

end Dict

namespace CompState

/-- `comp_config`; `none` is the refusal. -/
def compConfig (c : CompState) (dictSize maxStr : Int) : Option CompState :=
  if dictSize < minDictSize ∨ maxStr < minStrSize ∨ maxStr > maxStrSize then none
  else if dictSize > c.dict.dictSize ∨ maxStr > compMaxString then none
  else
    some { c with
           maxString := maxStr.toNat
           dict := c.dict.resized dictSize.toNat }

/-- A codec within its limits: every index that it keeps is in the dictionary, no
string is too long, the scan of `add_char` ends inside the dictionary, and the open
string can still grow by one character without passing `max_string`. -/
structure Within (c : CompState) : Prop where
  free_ge : firstFree ≤ c.dict.nextFree
  free_lt : c.dict.nextFree < c.dict.dictSize
  updateAt_lt : c.updateAt < c.dict.dictSize
  matched_lt : c.lastMatched < c.dict.dictSize
  added_lt : c.lastAdded < c.dict.dictSize
  linked_lt : ∀ e, c.dict.Linked e → e < c.dict.dictSize
  stored : ∀ e text, c.dict.Linked e → Spells c.dict e text → text.length ≤ c.maxString
  wraps : ∀ ch, c.updateAt ≠ 0 → c.dict.matchChar c.updateAt ch = .ok 0 →
    ∃ after new, c.dict.addChar c.updateAt ch = .ok (after, new) ∧
      firstFree ≤ after.nextFree ∧ after.nextFree < c.dict.dictSize
  short : c.flushedLen + c.strData.length < c.maxString

/-- What the table and the variables of `c` have taken up leaves them room in the limits
`dictSize` and `maxString`: the entries in use with the strings that end at them, the entry to
be filled next, the string that the dictionary is about to extend, and the open string. -/
structure Fits (c : CompState) (dictSize maxString : Nat) : Prop where
  free : c.dict.nextFree < dictSize
  added : c.lastAdded < dictSize
  live : ∀ e < c.dict.dictSize, c.dict.Live e →
    e < dictSize ∧ c.dict.depth c.dict.alloc e ≤ maxString
  pending : c.updateAt ≠ 0 → c.dict.depth c.dict.alloc c.updateAt < maxString
  short : c.flushedLen + c.strData.length < maxString

instance (c : CompState) (dictSize maxString : Nat) : Decidable (c.Fits dictSize maxString) :=
  decidable_of_iff
    (c.dict.nextFree < dictSize ∧ c.lastAdded < dictSize ∧
      (∀ e < c.dict.dictSize, c.dict.Live e →
        e < dictSize ∧ c.dict.depth c.dict.alloc e ≤ maxString) ∧
      (c.updateAt ≠ 0 → c.dict.depth c.dict.alloc c.updateAt < maxString) ∧
      c.flushedLen + c.strData.length < maxString)
    ⟨fun ⟨free, added, live, pending, short⟩ => ⟨free, added, live, pending, short⟩,
      fun ⟨free, added, live, pending, short⟩ => ⟨free, added, live, pending, short⟩⟩

end CompState

/-! ### The invariant under new limits -/

theorem Dict.Wf.live_resized {d : Dict} {maxString dictSize e : Nat} {kids : Nat → List Nat}
    (wf : Wf d maxString kids) (linked : ∀ e, d.Linked e → e < dictSize) (live : d.Live e) :
    (d.resized dictSize).Live e := by
  rcases wf.live_cases live with char | hangs
  · rcases live with both | ⟨low, _⟩
    · exact Or.inl both
    · omega
  · rcases live with both | ⟨low, _, used, parent⟩
    · exact Or.inl both
    · exact Or.inr ⟨low, linked e hangs, used, parent⟩

theorem Dict.live_of_resized {d : Dict} {dictSize e : Nat} (smaller : dictSize ≤ d.dictSize)
    (live : (d.resized dictSize).Live e) : d.Live e := by
  rcases live with both | ⟨low, high, used, parent⟩
  · exact Or.inl both
  · change e < dictSize at high
    exact Or.inr ⟨low, by omega, used, parent⟩

theorem Dict.Wf.resized {d : Dict} {maxString dictSize maxString' : Nat} {kids : Nat → List Nat}
    (wf : Wf d maxString kids) (smaller : dictSize ≤ d.dictSize)
    (room : firstFree + maxString' + 1 < dictSize) (positive : 1 ≤ maxString')
    (free : d.nextFree < dictSize) (linked : ∀ e, d.Linked e → e < dictSize)
    (stored : ∀ e text, d.Linked e → Spells d e text → text.length ≤ maxString') :
    Wf (d.resized dictSize) maxString' kids := by
  constructor
  · exact room
  · exact Nat.le_trans smaller wf.allocated
  · exact wf.chars
  · exact wf.free_ge
  · exact free
  · intro p high
    exact wf.chain p (Nat.lt_of_lt_of_le high smaller)
  · exact wf.nodup
  · intro p e member
    obtain ⟨low, _, used, parentEq, above⟩ := wf.kid p e member
    have hangs : e < firstFree ∨ d.Linked e := wf.live_cases (wf.kid_live member)
    have high : e < dictSize := by
      rcases hangs with char | hangs
      · omega
      · exact linked e hangs
    exact ⟨low, high, used, parentEq, wf.live_resized linked above⟩
  · exact wf.kid_ch
  · intro e low live
    exact wf.linked e low (live_of_resized smaller live)
  · intro e live
    have live' := live_of_resized smaller live
    obtain ⟨text, spells, _⟩ := wf.spelled e live'
    refine ⟨text, Spells.resized.mpr spells, ?_⟩
    rcases wf.live_cases live' with char | hangs
    · have top : (d.entry e).parent = 0 := by
        rcases live' with ⟨low, high⟩ | ⟨low, _⟩
        · exact (wf.chars e low high).1
        · omega
      cases spells with
      | char => simpa using positive
      | snoc _ _ above => exact absurd top above.ne_zero
    · exact stored e text hangs spells

namespace CompState

variable {c : CompState} {dictSize maxString added : Nat}

/-- The codec after an accepted `comp_config`. -/
def limited (c : CompState) (dictSize maxString : Nat) : CompState :=
  { c with
    maxString := maxString
    dict := c.dict.resized dictSize }

/-- What an accepted `comp_config` has checked and done. -/
theorem compConfig_eq {c' : CompState} {dictSize maxStr : Int}
    (accepted : c.compConfig dictSize maxStr = some c') :
    512 ≤ dictSize.toNat ∧ dictSize.toNat ≤ c.dict.dictSize ∧ 6 ≤ maxStr.toNat ∧
      maxStr.toNat ≤ compMaxString ∧ c' = c.limited dictSize.toNat maxStr.toNat := by
  unfold compConfig at accepted
  split at accepted
  · cases accepted
  · rename_i legal
    split at accepted
    · cases accepted
    · rename_i fitting
      obtain rfl := Option.some.inj accepted
      simp only [minDictSize, minStrSize, maxStrSize] at legal
      refine ⟨by omega, by omega, by omega, by omega, rfl⟩

theorem Fits.stored {kids : Nat → List Nat} (fits : c.Fits dictSize maxString)
    (wf : Wf c.dict c.maxString kids) {e : Nat} {text : List UInt8} (live : c.dict.Live e)
    (spells : Spells c.dict e text) : e < dictSize ∧ text.length ≤ maxString ∧
      c.dict.depth c.dict.alloc e = text.length := by
  have enough : text.length ≤ c.dict.alloc := by
    obtain ⟨text', spells', short⟩ := wf.spelled e live
    rw [spells.unique spells']
    have room := wf.room
    have allocated := wf.allocated
    omega
  have deep := spells.depth enough
  obtain ⟨below, short⟩ := fits.live e (wf.live_lt live) live
  exact ⟨below, deep ▸ short, deep⟩

theorem Fits.ok (fits : c.Fits dictSize maxString)
    (ok : ({ c.matcher with lastAdded := added } : Matcher).Ok)
    (smaller : dictSize ≤ c.dict.dictSize) (low : 6 ≤ maxString)
    (room : firstFree + maxString + 1 < dictSize) :
    ({ (c.limited dictSize maxString).matcher with lastAdded := added } : Matcher).Ok := by
  obtain ⟨kids, wf⟩ := ok.wf
  change Wf c.dict c.maxString kids at wf
  have linked : ∀ e, c.dict.Linked e → e < dictSize := fun e hangs =>
    (fits.live e (wf.live_lt (wf.linked_live hangs)) (wf.linked_live hangs)).1
  constructor
  · exact Nat.lt_of_lt_of_le (by decide) low
  · refine ⟨kids, wf.resized smaller room (Nat.le_trans (by decide) low) fits.free linked ?_⟩
    intro e text hangs spells
    exact (fits.stored wf (wf.linked_live hangs) spells).2.1
  · rcases ok.growable with none | ⟨live, text, spells, _⟩
    · exact Or.inl none
    · right
      have deep := (fits.stored wf live spells).2.2
      refine ⟨wf.live_resized linked live, text, Spells.resized.mpr spells, ?_⟩
      exact deep ▸ fits.pending spells.ne_zero
  · rcases ok.matched with idle | ⟨live, settled, _, text, spells, length⟩
    · exact Or.inl idle
    · right
      refine ⟨wf.live_resized linked live, settled, fits.short, text,
        Spells.resized.mpr spells, length⟩
  · exact ok.added_ge

theorem within_of_ok (ok : ({ c.matcher with lastAdded := added } : Matcher).Ok)
    (below : c.lastAdded < c.dict.dictSize) : c.Within := by
  obtain ⟨kids, wf⟩ := ok.wf
  change Wf c.dict c.maxString kids at wf
  have positive : 0 < c.dict.dictSize := by
    have := wf.free_lt
    omega
  have growable : c.dict.Growable c.maxString c.updateAt := ok.growable
  constructor
  · exact wf.free_ge
  · exact wf.free_lt
  · rcases growable with none | ⟨live, _⟩
    · rw [none]
      exact positive
    · exact wf.live_lt live
  · rcases ok.matched with ⟨idle, _⟩ | ⟨live, _⟩
    · change c.lastMatched = 0 at idle
      rw [idle]
      exact positive
    · exact wf.live_lt live
  · exact below
  · intro e linked
    exact wf.live_lt (wf.linked_live linked)
  · intro e text linked spells
    obtain ⟨text', spells', short⟩ := wf.spelled e (wf.linked_live linked)
    rw [spells.unique spells']
    exact short
  · intro ch pending absent
    rcases growable with none | ⟨live, text, spells, short⟩
    · exact absurd none pending
    · rcases wf.matchChar_cases live ch with ⟨_, noKid⟩ | ⟨e, found, member, _⟩
      · obtain ⟨after, kids', grew, wf', spec⟩ := wf.addChar_spec live noKid spells short
        refine ⟨after, c.dict.nextFree, grew, wf'.free_ge, ?_⟩
        rw [← spec.size_eq]
        exact wf'.free_lt
      · rw [found] at absent
        have zero : e = 0 := Except.ok.inj absent
        exact absurd zero (Nat.pos_iff_ne_zero.mp (wf.kid_live member).pos)
  · exact ok.total_lt

end CompState

end DModem.Comp
