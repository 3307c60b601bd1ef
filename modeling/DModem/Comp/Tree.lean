/-
The dictionary of an encoder as a tree, after any calls.

The invariant of the matching procedure says which lists of entries hang together.
Here the lists are those that a walk along `child` and `next` meets, and the entries
that the encoder remembers between two calls are entries in use: `add_char` runs
with no string open, and the entry that it recycles is not the one it has filled.
-/

import DModem.Comp.Renegotiate

namespace DModem.Comp

open DModem.Lib

namespace Dict

/-- The entries that a walk along `next` meets. -/
def listFrom (d : Dict) : Nat → Nat → List Nat
  | 0, _ => []
  | fuel + 1, e => if e = 0 then [] else e :: d.listFrom fuel (d.entry e).next

def childList (d : Dict) (p : Nat) : List Nat := d.listFrom d.alloc (d.entry p).child

def InUse (d : Dict) (e : Nat) : Prop :=
  firstFree ≤ e ∧ e < d.dictSize ∧ e ≠ d.nextFree ∧ (d.entry e).parent ≠ 0

def ancestor (d : Dict) (steps e : Nat) : Nat := (fun i => (d.entry i).parent)^[steps] e

structure Tree (d : Dict) (maxString : Nat) : Prop where
  listed : ∀ e, d.InUse e → ∀ p < d.dictSize, e ∈ d.childList p ↔ p = (d.entry e).parent
  parent : ∀ e, d.InUse e → (d.entry e).parent < d.dictSize
  members : ∀ p < d.dictSize, ∀ e ∈ d.childList p, d.InUse e
  siblings : ∀ p < d.dictSize, ((d.childList p).map fun e => (d.entry e).ch).Nodup
  rooted : ∀ e, d.InUse e → ∃ steps < maxString,
    firstEntry ≤ d.ancestor steps e ∧ d.ancestor steps e < firstFree
  free : firstFree ≤ d.nextFree ∧ d.nextFree < d.dictSize
  freeUnlisted : ∀ p < d.dictSize, d.nextFree ∉ d.childList p
  freeLeaf : (d.entry d.nextFree).child = 0

section Tree

variable {d : Dict} {maxString : Nat} {kids : Nat → List Nat}

theorem listFrom_chain (items : List Nat) (fuel start : Nat)
    (chain : IsChain (fun e => (d.entry e).next) start items) (enough : items.length ≤ fuel) :
    d.listFrom fuel start = items := by
  induction items generalizing start fuel with
  | nil =>
      have startEq : start = 0 := chain
      cases fuel with
      | zero => rfl
      | succ fuel => rw [listFrom, if_pos startEq]
  | cons item rest ih =>
      obtain ⟨startEq, itemNe, tail⟩ := chain
      subst startEq
      cases fuel with
      | zero => simp at enough
      | succ fuel =>
          rw [listFrom, if_neg itemNe, ih fuel _ tail (Nat.le_of_succ_le_succ enough)]

theorem Wf.childList_eq (wf : Wf d maxString kids) {p : Nat} (within : p < d.dictSize) :
    d.childList p = kids p :=
  listFrom_chain (kids p) d.alloc _ (wf.chain p within) (wf.kids_length p)

theorem InUse.live {e : Nat} (used : d.InUse e) : d.Live e := Or.inr used

theorem Wf.kid_used (wf : Wf d maxString kids) {p e : Nat} (member : e ∈ kids p) : d.InUse e := by
  rcases wf.kid_live member with ⟨_, high⟩ | used
  · have low := (wf.kid p e member).1
    omega
  · exact used

theorem Wf.spells_rooted (wf : Wf d maxString kids) {e : Nat} {text : List UInt8}
    (spells : Spells d e text) (live : d.Live e) :
    ∃ steps, steps + 1 = text.length ∧ firstEntry ≤ d.ancestor steps e ∧
      d.ancestor steps e < firstFree := by
  induction spells with
  | @char e nonzero within top =>
      refine ⟨0, rfl, ?_⟩
      rcases live with single | ⟨_, _, _, used⟩
      · exact single
      · exact absurd top used
  | @snoc e text nonzero within above ih =>
      have low : firstFree ≤ e := by
        rcases live with ⟨low, high⟩ | ⟨low, _⟩
        · exact absurd (wf.chars e low high).1 above.ne_zero
        · exact low
      obtain ⟨steps, length, single⟩ := ih (wf.parent_live low live)
      refine ⟨steps + 1, by rw [List.length_append, List.length_singleton, length], ?_⟩
      rw [ancestor, Function.iterate_succ_apply]
      exact single

theorem Wf.free_childless (wf : Wf d maxString kids) : kids d.nextFree = [] := by
  apply List.eq_nil_iff_forall_not_mem.mpr
  intro e member
  exact wf.live_ne_free (wf.kid _ e member).2.2.2.2 rfl

theorem Wf.tree (wf : Wf d maxString kids) : d.Tree maxString := by
  constructor
  · intro e used p within
    rw [wf.childList_eq within]
    constructor
    · intro member
      exact (wf.kid p e member).2.2.2.1.symm
    · intro parentEq
      rw [parentEq]
      exact wf.linked e used.1 used.live
  · intro e used
    exact wf.live_lt (wf.parent_live used.1 used.live)
  · intro p within e member
    rw [wf.childList_eq within] at member
    exact wf.kid_used member
  · intro p within
    rw [wf.childList_eq within]
    apply List.Nodup.map_on _ (wf.nodup p)
    intro e member e' member' same
    exact wf.kid_ch p e e' member member' same
  · intro e used
    obtain ⟨text, spells, short⟩ := wf.spelled e used.live
    obtain ⟨steps, length, single⟩ := wf.spells_rooted spells used.live
    exact ⟨steps, by omega, single⟩
  · exact ⟨wf.free_ge, wf.free_lt⟩
  · intro p within member
    rw [wf.childList_eq within] at member
    exact (wf.kid p _ member).2.2.1 rfl
  · have chain := wf.chain d.nextFree wf.free_lt
    rw [wf.free_childless] at chain
    exact chain

end Tree

end Dict

open Dict

namespace CompState

/-! ### The entry added last -/

/-- What a step that adds no entry does to the dictionary and to `last_added`. -/
structure Keeps (e e' : CompState) : Prop where
  dict : e'.dict = e.dict
  added : e'.lastAdded = 0 ∨ e'.lastAdded = e.lastAdded

def AddedLive (e : CompState) : Prop := e.lastAdded = 0 ∨ e.dict.Live e.lastAdded

section Added

variable {e e' e'' : CompState}

theorem Keeps.refl (e : CompState) : Keeps e e := ⟨rfl, Or.inr rfl⟩

theorem Keeps.trans (first : Keeps e e') (second : Keeps e' e'') : Keeps e e'' := by
  constructor
  · exact second.dict.trans first.dict
  · rcases second.added with none | same
    · exact Or.inl none
    · rw [same]
      exact first.added

theorem Keeps.of_matcher (dict : e'.dict = e.dict) (added : e'.lastAdded = e.lastAdded) :
    Keeps e e' := ⟨dict, Or.inr added⟩

theorem Keeps.addedLive (keeps : Keeps e e') (live : e.AddedLive) : e'.AddedLive := by
  rcases keeps.added with none | same
  · exact Or.inl none
  · rw [AddedLive, same, keeps.dict]
    exact live

theorem sendBits_keeps (e : CompState) : Keeps e e.sendBits :=
  .of_matcher (congrArg Matcher.dict (sendBits_kept e).1)
    (congrArg Matcher.lastAdded (sendBits_kept e).1)

theorem alignCw_keeps (e : CompState) (cw : Nat) :
    Keeps e ((e.sendCw cw).alignBits).sendBits := by
  obtain ⟨pad, _, _, aligned⟩ := alignBits_eq (e.sendCw cw)
  have sent := sendBits_keeps (e.sendCw cw).alignBits
  rw [aligned] at sent ⊢
  exact ⟨sent.dict, sent.added⟩

theorem stepUp_keeps (cw fuel : Nat) (stepped : stepUp cw fuel e = .ok e') : Keeps e e' := by
  induction fuel generalizing e with
  | zero =>
      rw [stepUp] at stepped
      split at stepped
      · cases stepped
      · obtain rfl := Except.ok.inj stepped
        exact Keeps.refl e
  | succ fuel ih =>
      rw [stepUp] at stepped
      split at stepped
      · have sent := sendBits_keeps (e.sendCw ccwStepup)
        have later := ih stepped
        exact ⟨later.dict.trans sent.dict, later.added.imp id fun same => same.trans
          (congrArg Matcher.lastAdded (sendBits_kept (e.sendCw ccwStepup)).1)⟩
      · obtain rfl := Except.ok.inj stepped
        exact Keeps.refl e

theorem sendData_keeps {cw : Nat} (sent : e.sendData cw = .ok e') : Keeps e e' := by
  unfold CompState.sendData at sent
  obtain ⟨e₁, emitted, sent⟩ := bind_eq_ok.mp sent
  obtain rfl := Except.ok.inj sent
  unfold emitString at emitted
  split at emitted
  · obtain rfl := Except.ok.inj emitted
    exact ⟨rfl, Or.inr rfl⟩
  · obtain ⟨e₂, stepped, emitted⟩ := bind_eq_ok.mp emitted
    obtain rfl := Except.ok.inj emitted
    have grown := stepUp_keeps _ _ stepped
    have sent := sendBits_keeps (e₂.sendCw cw)
    have sized : Keeps e e₂ := ⟨grown.dict, grown.added⟩
    have whole : Keeps e (e₂.sendCw cw).sendBits := sized.trans ⟨sent.dict, sent.added⟩
    exact ⟨whole.dict, whole.added⟩

theorem sendPending_keeps (sent : e.sendPending = .ok e') : Keeps e e' := by
  unfold CompState.sendPending at sent
  split at sent
  · obtain ⟨e₁, closed, sent⟩ := bind_eq_ok.mp sent
    obtain rfl := Except.ok.inj sent
    have kept := sendData_keeps closed
    exact ⟨kept.dict, kept.added⟩
  · obtain rfl := Except.ok.inj sent
    exact Keeps.refl e

theorem testMode_keeps (tested : e.testMode = .ok e') : Keeps e e' := by
  unfold CompState.testMode at tested
  split at tested
  · split at tested
    · obtain ⟨e₁, sent, tested⟩ := bind_eq_ok.mp tested
      obtain rfl := Except.ok.inj tested
      have kept := sendPending_keeps sent
      exact ⟨kept.dict, kept.added⟩
    · obtain rfl := Except.ok.inj tested
      exact Keeps.refl e
  · split at tested
    · obtain ⟨e₁, sent, tested⟩ := bind_eq_ok.mp tested
      obtain rfl := Except.ok.inj tested
      have kept := sendPending_keeps sent
      have cleared : Keeps e { e₁ with lastAdded := 0 } := ⟨kept.dict, Or.inl rfl⟩
      have whole := cleared.trans (alignCw_keeps { e₁ with lastAdded := 0 } ccwEtm)
      exact ⟨whole.dict, whole.added⟩
    · obtain rfl := Except.ok.inj tested
      exact Keeps.refl e

theorem matchString_keeps (input : List UInt8) {left : List UInt8}
    (matched : e.matchString input = .ok (e', left)) : Keeps e e' := by
  induction input generalizing e with
  | nil =>
      obtain ⟨rfl, _⟩ := Prod.mk.inj (Except.ok.inj matched)
      exact Keeps.refl e
  | cons ch rest ih =>
      rw [CompState.matchString] at matched
      obtain ⟨cw, _, matched⟩ := bind_eq_ok.mp matched
      split at matched
      · obtain ⟨e₁, sent, matched⟩ := bind_eq_ok.mp matched
        obtain ⟨rfl, _⟩ := Prod.mk.inj (Except.ok.inj matched)
        have kept := sendData_keeps sent
        exact ⟨kept.dict, kept.added⟩
      · split at matched
        · obtain ⟨e₁, sent, matched⟩ := bind_eq_ok.mp matched
          obtain ⟨rfl, _⟩ := Prod.mk.inj (Except.ok.inj matched)
          have kept := sendData_keeps sent
          have none : e₁.lastAdded = 0 := kept.added.elim id id
          exact ⟨kept.dict, Or.inl none⟩
        · obtain ⟨e₁, pushed, matched⟩ := bind_eq_ok.mp matched
          have joined : Keeps e e₁ := by
            unfold CompState.pushChar at pushed
            split at pushed
            · obtain rfl := Except.ok.inj pushed
              exact ⟨rfl, Or.inr rfl⟩
            · cases pushed
          split at matched
          · obtain ⟨e₂, sent, matched⟩ := bind_eq_ok.mp matched
            obtain ⟨rfl, _⟩ := Prod.mk.inj (Except.ok.inj matched)
            have whole := joined.trans (sendData_keeps sent)
            exact ⟨whole.dict, whole.added⟩
          · exact joined.trans (ih matched)

theorem flushCodeword_keeps (e : CompState) : Keeps e e.flushCodeword := by
  unfold CompState.flushCodeword
  split
  · exact Keeps.refl e
  · have kept := alignCw_keeps
      { e with updateAt := e.lastMatched, lastMatched := 0, flushedLen := 0 } ccwFlush
    exact ⟨kept.dict, kept.added⟩

theorem compFlushEncoder_keeps (flushed : e.compFlushEncoder = .ok e') : Keeps e e' := by
  unfold CompState.compFlushEncoder at flushed
  split at flushed
  · obtain rfl := Except.ok.inj flushed
    exact Keeps.refl e
  · split at flushed
    · obtain ⟨e₁, sent, flushed⟩ := bind_eq_ok.mp flushed
      obtain rfl := Except.ok.inj flushed
      have kept := sendData_keeps sent
      have again : Keeps e { e₁ with flushedLen := e.flushedLen + e.strData.length } :=
        ⟨kept.dict, kept.added⟩
      exact again.trans (flushCodeword_keeps _)
    · obtain rfl := Except.ok.inj flushed
      exact flushCodeword_keeps e

/-- The entry that `add_char` fills is in use when it returns. -/
theorem Encodes.updateDict_addedLive (encodes : Encodes e) (live : e.AddedLive) {ch : UInt8}
    (updated : e.updateDict ch = .ok e') : e'.AddedLive := by
  obtain ⟨after, new, _, grown, _, outcome⟩ := encodes.ok.update_spec ch
  rw [updateDict_eq e ch _ encodes.ok grown] at updated
  obtain rfl := Except.ok.inj updated
  unfold AddedLive
  simp only [Matcher.grownTo]
  cases outcome with
  | idle => exact live
  | known => exact live
  | fresh after pending answer positive added spec =>
      rw [if_neg positive]
      exact Or.inr ((spec.live_iff _).mpr (Or.inl rfl))

theorem Encodes.encodeLoop_addedLive (encodes : Encodes e) (live : e.AddedLive) (fuel : Nat)
    {input : List UInt8} (encoded : CompState.encodeLoop fuel e input = .ok e') :
    e'.AddedLive := by
  induction fuel generalizing e input with
  | zero =>
      cases input with
      | nil =>
          obtain rfl := Except.ok.inj encoded
          exact live
      | cons ch rest => cases encoded
  | succ fuel ih =>
      cases input with
      | nil =>
          obtain rfl := Except.ok.inj encoded
          exact live
      | cons ch rest =>
          obtain ⟨e₁, updated, encodes₁, settled, _⟩ := encodes.updateDict ch
          obtain ⟨e₂, left, matched, encodes₂, _⟩ := encodes₁.matchString settled (ch :: rest)
          obtain ⟨e₃, tested, encodes₃, _⟩ := encodes₂.testMode
          rw [CompState.encodeLoop, updated, ok_bind, matched, ok_bind] at encoded
          simp only at encoded
          rw [tested, ok_bind] at encoded
          have grown := encodes.updateDict_addedLive live updated
          have kept := (matchString_keeps _ matched).trans (testMode_keeps tested)
          exact ih encodes₃ (kept.addedLive grown) encoded

end Added

/-! ### Whole runs -/

inductive EncoderCall where
  | encode (input : List UInt8)
  | flush
  deriving DecidableEq, Repr

def encoderStep (e : CompState) : EncoderCall → Except Fault CompState
  | .encode input => do
      let e ← e.compEncode input
      .ok e.drain
  | .flush => do
      let e ← e.compFlushEncoder
      .ok e.drain

def encoderRun : CompState → List EncoderCall → Except Fault CompState
  | e, [] => .ok e
  | e, call :: rest => do
      let e ← e.encoderStep call
      e.encoderRun rest

/-- The dictionary is a tree, what the encoder remembers is in use, and the walks of
the next call end. -/
structure Sturdy (e : CompState) : Prop where
  tree : e.dict.Tree e.maxString
  remembered : ∀ i, i = e.lastMatched ∨ i = e.updateAt ∨ i = e.lastAdded → i ≠ 0 → e.dict.Live i
  aside : e.updateAt ≠ 0 → e.lastMatched = 0
  answers : ∀ p, p = 0 ∨ e.dict.Live p → ∀ ch, ∃ found, e.dict.matchChar p ch = .ok found
  grows : ∀ ch, e.updateAt ≠ 0 → e.dict.matchChar e.updateAt ch = .ok 0 →
    ∃ after, e.dict.addChar e.updateAt ch = .ok (after, e.dict.nextFree) ∧
      after.nextFree ≠ e.dict.nextFree

section Runs

variable {e e' : CompState}

theorem Encodes.sturdy (encodes : Encodes e) (added : e.AddedLive) : Sturdy e := by
  obtain ⟨kids, wf⟩ := encodes.ok.wf
  have dictWf : Wf e.dict e.maxString kids := wf
  constructor
  · exact dictWf.tree
  · intro i held nonzero
    rcases held with rfl | rfl | rfl
    · rcases encodes.ok.matched with ⟨idle, _⟩ | ⟨live, _⟩
      · exact absurd idle nonzero
      · exact live
    · rcases encodes.ok.growable with none | ⟨live, _⟩
      · exact absurd none nonzero
      · exact live
    · exact added.resolve_left nonzero
  · intro pending
    rcases encodes.ok.matched with ⟨idle, _⟩ | ⟨_, settled, _⟩
    · exact idle
    · exact absurd settled pending
  · intro p known ch
    rcases known with rfl | live
    · exact ⟨_, matchChar_zero ch⟩
    · exact ⟨_, dictWf.matchChar_live live ch⟩
  · intro ch pending absent
    obtain ⟨after, new, kids', grown, wf', outcome⟩ := dictWf.grow_spec ch encodes.ok.growable
    cases outcome with
    | idle none => exact absurd none pending
    | known found _ nonzero answer =>
        exact absurd (Except.ok.inj (absent.symm.trans answer)).symm nonzero
    | fresh after _ _ _ added spec =>
        refine ⟨after, added, ?_⟩
        intro same
        have live := (spec.live_iff e.dict.nextFree).mpr (Or.inl rfl)
        exact wf'.live_ne_free live same.symm

theorem Encodes.encoderStep (encodes : Encodes e) (added : e.AddedLive) (call : EncoderCall) :
    ∃ e', e.encoderStep call = .ok e' ∧ Encodes e' ∧ e'.AddedLive := by
  cases call with
  | encode input =>
      obtain ⟨e', encoded, encodes'⟩ := encodes.compEncode input
      have added' := encodes.encodeLoop_addedLive added _ encoded
      refine ⟨e'.drain, ?_, encodes'.congr (encodes'.toCharted.congr rfl rfl) rfl, added'⟩
      rw [CompState.encoderStep, encoded, ok_bind]
  | flush =>
      obtain ⟨e', flushed, encodes'⟩ := encodes.compFlushEncoder
      have added' := (compFlushEncoder_keeps flushed).addedLive added
      refine ⟨e'.drain, ?_, encodes'.congr (encodes'.toCharted.congr rfl rfl) rfl, added'⟩
      rw [CompState.encoderStep, flushed, ok_bind]

theorem Encodes.encoderRun (encodes : Encodes e) (added : e.AddedLive)
    (calls : List EncoderCall) :
    ∃ e', e.encoderRun calls = .ok e' ∧ Encodes e' ∧ e'.AddedLive := by
  induction calls generalizing e with
  | nil => exact ⟨e, rfl, encodes, added⟩
  | cons call rest ih =>
      obtain ⟨e₁, stepped, encodes₁, added₁⟩ := encodes.encoderStep added call
      obtain ⟨e', ran, kept⟩ := ih encodes₁ added₁
      refine ⟨e', ?_, kept⟩
      rw [CompState.encoderRun, stepped, ok_bind, ran]

end Runs

end CompState

open CompState

/-- Any calls of a fresh encoder succeed and leave a dictionary that is a tree. -/
theorem encoder_dictionary_tree (dictSize maxStr : Int) (c : CompState)
    (sizeLow : 512 ≤ dictSize) (sizeHigh : dictSize ≤ 2048) (strLow : 6 ≤ maxStr)
    (strHigh : maxStr ≤ 34) (initialised : compInit dictSize maxStr = some c)
    (calls : List EncoderCall) :
    ∃ e, c.encoderRun calls = .ok e ∧ e.Sturdy := by
  have sound := compInit_sound sizeLow sizeHigh strLow strHigh initialised
  have none : c.AddedLive := by
    unfold compInit at initialised
    split at initialised
    · cases initialised
    · obtain rfl := Option.some.inj initialised
      exact Or.inl rfl
  obtain ⟨e, ran, encodes, added⟩ := sound.enc.encoderRun none calls
  exact ⟨e, ran, encodes.sturdy added⟩

theorem encoder_dictionary_tree_repeats :
    ∃ e, (dictInit (compAlloc 512 6)).encoderRun
        [.encode (List.replicate 20 97), .flush, .encode [98, 97, 97]] = .ok e ∧ e.Sturdy :=
  encoder_dictionary_tree 512 6 (dictInit (compAlloc 512 6)) (by decide) (by decide) (by decide)
    (by decide) rfl _

end DModem.Comp
