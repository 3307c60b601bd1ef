/-
The string matching procedure that the encoder and the transparent branch of the
decoder share, as a machine of its own.

A `Matcher` is the part of a `comp_state` that decides where strings end: the
dictionary, the pending update, the entry matched so far, the entry that may not
be used yet, and the length of the current string including what was flushed.
-/

import DModem.Comp.Codec
import DModem.Comp.DictAdd

namespace DModem.Comp

namespace Dict

/-- Extend the dictionary by `ch` below `above` unless it is there already.  The
second component is the new entry, or 0. -/
def grow (d : Dict) (above : Nat) (ch : UInt8) : Except Fault (Dict × Nat) :=
  if above = 0 then .ok (d, 0)
  else do
    let found ← d.matchChar above ch
    if found = 0 then d.addChar above ch else .ok (d, 0)

def Growable (d : Dict) (maxString above : Nat) : Prop :=
  above = 0 ∨ (d.Live above ∧ ∃ text, Spells d above text ∧ text.length < maxString)

inductive Grown (d : Dict) (above : Nat) (ch : UInt8) : Dict → Nat → Prop where
  | idle (none : above = 0) : Grown d above ch d 0
  | known (e : Nat) (pending : above ≠ 0) (found : e ≠ 0)
      (answer : d.matchChar above ch = .ok e) : Grown d above ch d 0
  | fresh (after : Dict) (pending : above ≠ 0) (answer : d.matchChar above ch = .ok 0)
      (positive : d.nextFree ≠ 0) (added : d.addChar above ch = .ok (after, d.nextFree))
      (spec : Added d above ch after) : Grown d above ch after d.nextFree

theorem Wf.free_ne_zero {d : Dict} {maxString : Nat} {kids : Nat → List Nat}
    (wf : Wf d maxString kids) : d.nextFree ≠ 0 := by
  have low := wf.free_ge
  simp only [firstFree, totalChars, firstEntry] at low
  omega

theorem Wf.grow_spec {d : Dict} {maxString above : Nat} {kids : Nat → List Nat} (ch : UInt8)
    (wf : Wf d maxString kids) (growable : d.Growable maxString above) :
    ∃ after new kids', d.grow above ch = .ok (after, new) ∧ Wf after maxString kids' ∧
      Grown d above ch after new := by
  rcases growable with none | ⟨live, text, spells, short⟩
  · exact ⟨d, 0, kids, by rw [grow, if_pos none], wf, .idle none⟩
  · have nonzero := Nat.pos_iff_ne_zero.mp live.pos
    rcases wf.matchChar_cases live ch with ⟨answer, absent⟩ | ⟨e, answer, member, _⟩
    · obtain ⟨after, kids', added, wf', spec⟩ := wf.addChar_spec live absent spells short
      refine ⟨after, d.nextFree, kids', ?_, wf',
        .fresh after nonzero answer wf.free_ne_zero added spec⟩
      simp only [grow, if_neg nonzero, answer, ok_bind, if_true, added]
    · have found := Nat.pos_iff_ne_zero.mp (wf.kid_live member).pos
      refine ⟨d, 0, kids, ?_, wf, .known e nonzero found answer⟩
      simp only [grow, if_neg nonzero, answer, ok_bind, if_neg found]

theorem grow_zero (d : Dict) (ch : UInt8) : d.grow 0 ch = .ok (d, 0) := rfl

end Dict

open Dict

structure Matcher where
  dict : Dict
  maxString : Nat
  updateAt : Nat
  lastMatched : Nat
  lastAdded : Nat
  total : Nat

namespace Matcher

def update (m : Matcher) (ch : UInt8) : Except Fault Matcher := do
  let (dict, new) ← m.dict.grow m.updateAt ch
  .ok { m with
        dict := dict
        lastAdded := if new = 0 then m.lastAdded else new
        updateAt := 0 }

/-- Matching one character once the pending update is done; the flag says whether
the character joined the current string. -/
def advance (m : Matcher) (ch : UInt8) : Except Fault (Matcher × Bool) := do
  let cw ← m.dict.matchChar m.lastMatched ch
  if cw = 0 then
    .ok ({ m with updateAt := m.lastMatched, lastMatched := 0, total := 0 }, false)
  else if cw = m.lastAdded then
    .ok ({ m with lastAdded := 0, lastMatched := 0, total := 0 }, false)
  else if m.total + 1 = m.maxString then
    .ok ({ m with lastMatched := 0, total := 0 }, true)
  else .ok ({ m with lastMatched := cw, total := m.total + 1 }, true)

def pass (m : Matcher) (ch : UInt8) : Except Fault (Matcher × Bool) := do
  let m ← m.update ch
  m.advance ch

/-- A character that ends a string is offered again. -/
def step (m : Matcher) (ch : UInt8) : Except Fault Matcher := do
  let (m, taken) ← m.pass ch
  if taken then .ok m
  else do
    let (m, _) ← m.pass ch
    .ok m

def run : Matcher → List UInt8 → Except Fault Matcher
  | m, [] => .ok m
  | m, ch :: rest => do
      let m ← m.step ch
      m.run rest

structure Ok (m : Matcher) : Prop where
  maxString_gt : 1 < m.maxString
  wf : ∃ kids, Wf m.dict m.maxString kids
  growable : m.dict.Growable m.maxString m.updateAt
  matched : (m.lastMatched = 0 ∧ m.total = 0) ∨
    (m.dict.Live m.lastMatched ∧ m.updateAt = 0 ∧ m.total < m.maxString ∧
      ∃ text, Spells m.dict m.lastMatched text ∧ text.length = m.total)
  added_ge : m.lastAdded = 0 ∨ firstFree ≤ m.lastAdded

variable {m : Matcher}

theorem Ok.total_lt (ok : Ok m) : m.total < m.maxString := by
  have := ok.maxString_gt
  rcases ok.matched with ⟨_, none⟩ | ⟨_, _, short, _⟩ <;> omega

def grownTo (m : Matcher) (after : Dict) (new : Nat) : Matcher :=
  { m with
    dict := after
    lastAdded := if new = 0 then m.lastAdded else new
    updateAt := 0 }

theorem Ok.update_spec (ok : Ok m) (ch : UInt8) :
    ∃ after new, m.dict.grow m.updateAt ch = .ok (after, new) ∧
      m.update ch = .ok (m.grownTo after new) ∧ Ok (m.grownTo after new) ∧
      Grown m.dict m.updateAt ch after new := by
  obtain ⟨kids, wf⟩ := ok.wf
  obtain ⟨after, new, kids', grown, wf', outcome⟩ := wf.grow_spec ch ok.growable
  refine ⟨after, new, grown, ?_, ?_, outcome⟩
  · simp only [update, grown, ok_bind]
    rfl
  · refine ⟨ok.maxString_gt, ⟨kids', wf'⟩, Or.inl rfl, ?_, ?_⟩
    · rcases ok.matched with idle | ⟨live, settled, rest⟩
      · exact Or.inl idle
      · cases outcome with
        | idle none => exact Or.inr ⟨live, rfl, rest⟩
        | known e pending found answer => exact Or.inr ⟨live, rfl, rest⟩
        | fresh after pending answer positive added spec => exact absurd settled pending
    · cases outcome with
      | idle none => exact ok.added_ge
      | known e pending found answer => exact ok.added_ge
      | fresh after pending answer positive added spec =>
          simp only [grownTo, if_neg positive]
          exact Or.inr wf.free_ge

inductive Attempt (m : Matcher) (ch : UInt8) : Matcher → Bool → Prop where
  | mismatch (live : m.dict.Live m.lastMatched)
      (answer : m.dict.matchChar m.lastMatched ch = .ok 0) :
      Attempt m ch { m with updateAt := m.lastMatched, lastMatched := 0, total := 0 } false
  | reserved (live : m.dict.Live m.lastMatched) (nonzero : m.lastAdded ≠ 0)
      (answer : m.dict.matchChar m.lastMatched ch = .ok m.lastAdded) :
      Attempt m ch { m with lastAdded := 0, lastMatched := 0, total := 0 } false
  | longest (cw : Nat) (live : m.dict.Live cw) (fresh : cw ≠ m.lastAdded)
      (answer : m.dict.matchChar m.lastMatched ch = .ok cw)
      (full : m.total + 1 = m.maxString) :
      Attempt m ch { m with lastMatched := 0, total := 0 } true
  | taken (cw : Nat) (live : m.dict.Live cw) (fresh : cw ≠ m.lastAdded)
      (answer : m.dict.matchChar m.lastMatched ch = .ok cw)
      (more : m.total + 1 < m.maxString) :
      Attempt m ch { m with lastMatched := cw, total := m.total + 1 } true

theorem Ok.next_spells (ok : Ok m) {ch : UInt8} {cw : Nat} (live : m.dict.Live cw)
    (answer : m.dict.matchChar m.lastMatched ch = .ok cw) :
    (m.lastMatched = 0 ∧ Spells m.dict cw [ch]) ∨
      (m.lastMatched ≠ 0 ∧ (m.dict.entry cw).parent = m.lastMatched ∧
        (m.dict.entry cw).ch = ch ∧
        ∀ text, Spells m.dict m.lastMatched text → Spells m.dict cw (text ++ [ch])) := by
  obtain ⟨kids, wf⟩ := ok.wf
  rcases ok.matched with ⟨idle, _⟩ | ⟨lastLive, _⟩
  · rw [idle, matchChar_zero] at answer
    have cwEq : ch.toNat + firstEntry = cw := by injection answer
    rw [← cwEq]
    exact Or.inl ⟨idle, wf.char_spells ch⟩
  · right
    have nonzero := Nat.pos_iff_ne_zero.mp lastLive.pos
    rcases wf.matchChar_cases lastLive ch with ⟨none, _⟩ | ⟨e, found, member, chEq⟩
    · rw [none] at answer
      injection answer with zero
      exact absurd zero.symm (Nat.pos_iff_ne_zero.mp live.pos)
    · rw [found] at answer
      have same : e = cw := by injection answer
      subst same
      refine ⟨nonzero, (wf.kid _ e member).2.2.2.1, chEq, ?_⟩
      intro text spells
      rw [← chEq]
      exact wf.kid_spells member spells

theorem Ok.advance_spec (ok : Ok m) (ch : UInt8) (settled : m.updateAt = 0) :
    ∃ m' taken, m.advance ch = .ok (m', taken) ∧ Attempt m ch m' taken ∧ Ok m' := by
  obtain ⟨kids, wf⟩ := ok.wf
  have short := ok.total_lt
  have attempt : ∀ cw, m.dict.Live cw → cw ≠ m.lastAdded →
      m.dict.matchChar m.lastMatched ch = .ok cw →
      ∃ m' taken, m.advance ch = .ok (m', taken) ∧ Attempt m ch m' taken ∧ Ok m' := by
    intro cw cwLive fresh answer
    have cwNonzero := Nat.pos_iff_ne_zero.mp cwLive.pos
    by_cases full : m.total + 1 = m.maxString
    · refine ⟨_, true, ?_, .longest cw cwLive fresh answer full, ?_⟩
      · simp only [advance, answer, ok_bind, if_neg cwNonzero, if_neg fresh, if_pos full]
      · exact ⟨ok.maxString_gt, ok.wf, ok.growable, Or.inl ⟨rfl, rfl⟩, ok.added_ge⟩
    · have more : m.total + 1 < m.maxString := by omega
      refine ⟨_, true, ?_, .taken cw cwLive fresh answer more, ?_⟩
      · simp only [advance, answer, ok_bind, if_neg cwNonzero, if_neg fresh, if_neg full]
      · refine ⟨ok.maxString_gt, ok.wf, ok.growable, Or.inr ⟨cwLive, settled, more, ?_⟩,
          ok.added_ge⟩
        rcases ok.next_spells cwLive answer with ⟨idle, spells⟩ | ⟨_, _, _, extend⟩
        · rcases ok.matched with ⟨_, none⟩ | ⟨lastLive, _⟩
          · exact ⟨[ch], spells, by simp [none]⟩
          · exact absurd idle (Nat.pos_iff_ne_zero.mp lastLive.pos)
        · rcases ok.matched with ⟨idle, _⟩ | ⟨_, _, _, text, spells, length⟩
          · exact absurd idle (by assumption)
          · exact ⟨text ++ [ch], extend text spells, by simp [length]⟩
  rcases ok.matched with ⟨idle, none⟩ | ⟨lastLive, _, _, text, spells, length⟩
  · apply attempt (ch.toNat + firstEntry) (Wf.char_live ch)
    · have bounded := ch.toNat_lt
      rcases ok.added_ge with zero | low
      · rw [zero]
        simp [firstEntry]
      · simp only [firstFree, totalChars] at low
        omega
    · rw [idle]
      exact matchChar_zero ch
  · rcases wf.matchChar_cases lastLive ch with ⟨answer, _⟩ | ⟨cw, answer, member, _⟩
    · refine ⟨_, false, ?_, .mismatch lastLive answer, ?_⟩
      · simp only [advance, answer, ok_bind, if_true]
      · exact ⟨ok.maxString_gt, ok.wf, Or.inr ⟨lastLive, text, spells, by simpa [length]⟩,
          Or.inl ⟨rfl, rfl⟩, ok.added_ge⟩
    · by_cases reserved : cw = m.lastAdded
      · have cwNonzero := Nat.pos_iff_ne_zero.mp (wf.kid_live member).pos
        subst reserved
        refine ⟨_, false, ?_, .reserved lastLive cwNonzero answer, ?_⟩
        · simp only [advance, answer, ok_bind, if_neg cwNonzero, if_true]
        · exact ⟨ok.maxString_gt, ok.wf, ok.growable, Or.inl ⟨rfl, rfl⟩, Or.inl rfl⟩
      · exact attempt cw (wf.kid_live member) reserved answer

theorem Attempt.taken_of_idle (idle : m.lastMatched = 0) {ch : UInt8} {m' : Matcher}
    {taken : Bool} (attempt : Attempt m ch m' taken) : taken = true := by
  cases attempt with
  | mismatch live _ => exact absurd idle (Nat.pos_iff_ne_zero.mp live.pos)
  | reserved live _ _ => exact absurd idle (Nat.pos_iff_ne_zero.mp live.pos)
  | longest => rfl
  | taken => rfl

theorem Attempt.idle_of_not_taken {ch : UInt8} {m' : Matcher}
    (attempt : Attempt m ch m' false) : m'.lastMatched = 0 := by
  cases attempt <;> rfl

theorem update_settled (settled : m.updateAt = 0) (ch : UInt8) : m.update ch = .ok m := by
  unfold update
  rw [settled, grow_zero, ok_bind]
  cases m
  simp_all

theorem Ok.pass_spec (ok : Ok m) (ch : UInt8) :
    ∃ m₁ m' taken, m.update ch = .ok m₁ ∧ Ok m₁ ∧ m.pass ch = .ok (m', taken) ∧
      Attempt m₁ ch m' taken ∧ Ok m' ∧ m₁.lastMatched = m.lastMatched := by
  obtain ⟨after, new, _, updated, ok₁, _⟩ := ok.update_spec ch
  obtain ⟨m', taken, advanced, attempt, ok'⟩ := ok₁.advance_spec ch rfl
  refine ⟨_, m', taken, updated, ok₁, ?_, attempt, ok', rfl⟩
  unfold pass
  rw [updated, ok_bind, advanced]

theorem Ok.step_spec (ok : Ok m) (ch : UInt8) :
    ∃ m', m.step ch = .ok m' ∧ Ok m' ∧
      (m.pass ch = .ok (m', true) ∨
        ∃ m₁, m.pass ch = .ok (m₁, false) ∧ Ok m₁ ∧ m₁.pass ch = .ok (m', true)) := by
  obtain ⟨_, m₁, taken, _, _, passed, attempt, ok₁, _⟩ := ok.pass_spec ch
  cases taken with
  | true =>
      refine ⟨m₁, ?_, ok₁, Or.inl passed⟩
      simp only [step, passed, ok_bind, if_true]
  | false =>
      have idle := attempt.idle_of_not_taken
      obtain ⟨_, m₂, taken₂, _, _, passed₂, attempt₂, ok₂, lastEq⟩ := ok₁.pass_spec ch
      have takenEq := attempt₂.taken_of_idle (lastEq.trans idle)
      subst takenEq
      refine ⟨m₂, ?_, ok₂, Or.inr ⟨m₁, passed, ok₁, passed₂⟩⟩
      simp only [step, passed, ok_bind, Bool.false_eq_true, if_false, passed₂]

theorem Ok.run_spec (ok : Ok m) (text : List UInt8) :
    ∃ m', m.run text = .ok m' ∧ Ok m' := by
  induction text generalizing m with
  | nil => exact ⟨m, rfl, ok⟩
  | cons ch rest ih =>
      obtain ⟨m₁, stepped, ok₁, _⟩ := ok.step_spec ch
      obtain ⟨m', ran, ok'⟩ := ih ok₁
      refine ⟨m', ?_, ok'⟩
      simp only [run, stepped, ok_bind, ran]

theorem update_eq {ch : UInt8} {m' : Matcher} (updated : m.update ch = .ok m') :
    m' = { m with dict := m'.dict, lastAdded := m'.lastAdded, updateAt := 0 } := by
  unfold update at updated
  cases grown : m.dict.grow m.updateAt ch with
  | error fault =>
      rw [grown] at updated
      cases updated
  | ok pair =>
      rw [grown, ok_bind] at updated
      injection updated with same
      rw [← same]

theorem Ok.update_sizes (ok : Ok m) {ch : UInt8} {m' : Matcher}
    (updated : m.update ch = .ok m') :
    m'.maxString = m.maxString ∧ m'.dict.dictSize = m.dict.dictSize := by
  obtain ⟨after, new, _, updated', _, outcome⟩ := ok.update_spec ch
  rw [updated] at updated'
  obtain rfl := Except.ok.inj updated'
  refine ⟨rfl, ?_⟩
  cases outcome with
  | idle => rfl
  | known => rfl
  | fresh after _ _ _ _ spec => exact spec.size_eq

theorem Ok.pass_sizes (ok : Ok m) {ch : UInt8} {m' : Matcher} {taken : Bool}
    (passed : m.pass ch = .ok (m', taken)) :
    m'.maxString = m.maxString ∧ m'.dict.dictSize = m.dict.dictSize := by
  obtain ⟨m₁, m₂, taken', updated, _, passed', attempt, _, _⟩ := ok.pass_spec ch
  rw [passed] at passed'
  obtain ⟨rfl, rfl⟩ : m' = m₂ ∧ taken = taken' := by simpa using passed'
  obtain ⟨maxEq, sizeEq⟩ := ok.update_sizes updated
  rw [← maxEq, ← sizeEq]
  cases attempt <;> exact ⟨rfl, rfl⟩

theorem Ok.step_sizes (ok : Ok m) {ch : UInt8} {m' : Matcher} (stepped : m.step ch = .ok m') :
    m'.maxString = m.maxString ∧ m'.dict.dictSize = m.dict.dictSize := by
  obtain ⟨m₂, stepped', _, choices⟩ := ok.step_spec ch
  rw [stepped] at stepped'
  obtain rfl := Except.ok.inj stepped'
  rcases choices with taken | ⟨m₁, passed, ok₁, taken⟩
  · exact ok.pass_sizes taken
  · obtain ⟨maxEq, sizeEq⟩ := ok.pass_sizes passed
    rw [← maxEq, ← sizeEq]
    exact ok₁.pass_sizes taken

theorem Ok.run_sizes (ok : Ok m) {text : List UInt8} {m' : Matcher}
    (ran : m.run text = .ok m') :
    m'.maxString = m.maxString ∧ m'.dict.dictSize = m.dict.dictSize := by
  induction text generalizing m with
  | nil =>
      obtain rfl := Except.ok.inj ran
      exact ⟨rfl, rfl⟩
  | cons ch rest ih =>
      obtain ⟨m₁, stepped, ok₁, _⟩ := ok.step_spec ch
      simp only [run, stepped, ok_bind] at ran
      obtain ⟨maxEq, sizeEq⟩ := ok.step_sizes stepped
      rw [← maxEq, ← sizeEq]
      exact ih ok₁ ran

theorem Ok.restart (ok : Ok m) :
    Ok { m with updateAt := m.lastMatched, lastMatched := 0, lastAdded := 0, total := 0 } := by
  refine ⟨ok.maxString_gt, ok.wf, ?_, Or.inl ⟨rfl, rfl⟩, Or.inl rfl⟩
  rcases ok.matched with ⟨idle, _⟩ | ⟨live, _, short, text, spells, length⟩
  · exact Or.inl idle
  · refine Or.inr ⟨live, text, spells, ?_⟩
    rw [length]
    exact short

theorem run_append (m : Matcher) (first second : List UInt8) :
    m.run (first ++ second) = (do let m' ← m.run first; m'.run second) := by
  induction first generalizing m with
  | nil => rfl
  | cons ch rest ih =>
      simp only [List.cons_append, run]
      cases m.step ch with
      | error fault => rfl
      | ok m' => exact ih m'

end Matcher

end DModem.Comp
