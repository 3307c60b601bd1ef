/-
`add_char` keeps a dictionary well formed.

The argument follows the three parts of the function: linking the new entry,
scanning for the next entry without children, and unlinking that entry from its
parent.  The scan never comes back to the new entry, because the entries cannot
all lie on one parent path: a path has at most `maxString` entries and the
dictionary has more.
-/

import DModem.Comp.DictWf

namespace DModem.Comp.Dict

open DModem.Lib

variable {d : Dict} {maxString : Nat} {kids : Nat → List Nat}

theorem write_ok {index : Nat} (value : DictEntry) (within : index < d.alloc) :
    d.write index value = .ok { d with entry := Function.update d.entry index value } :=
  if_pos within

/-! ### Linking the new entry -/

/-- The entry that `add_char` fills. -/
def freshEntry (d : Dict) (above : Nat) (ch : UInt8) : DictEntry :=
  { ch := ch, parent := above, child := 0, next := (d.entry above).child }

def linked (d : Dict) (above : Nat) (ch : UInt8) : Dict :=
  { d with
    entry := fun e =>
      if e = above then { d.entry above with child := d.nextFree }
      else if e = d.nextFree then d.freshEntry above ch
      else d.entry e }

theorem link_eq {above : Nat} (ch : UInt8) (aboveWithin : above < d.alloc)
    (freeWithin : d.nextFree < d.alloc) (different : above ≠ d.nextFree) :
    d.link above ch = .ok (d.linked above ch) := by
  unfold link
  simp only [read_ok freeWithin, ok_bind, write_ok _ freeWithin]
  have aboveRead (f : Nat → DictEntry) :
      ({ d with entry := f } : Dict).read above = .ok (f above) := if_pos aboveWithin
  have freeRead (f : Nat → DictEntry) :
      ({ d with entry := f } : Dict).read d.nextFree = .ok (f d.nextFree) := if_pos freeWithin
  have freeWrite (f : Nat → DictEntry) (value : DictEntry) :
      ({ d with entry := f } : Dict).write d.nextFree value =
        .ok { d with entry := Function.update f d.nextFree value } := if_pos freeWithin
  have aboveWrite (f : Nat → DictEntry) (value : DictEntry) :
      ({ d with entry := f } : Dict).write above value =
        .ok { d with entry := Function.update f above value } := if_pos aboveWithin
  simp only [aboveRead, freeRead, freeWrite, aboveWrite, ok_bind]
  unfold linked freshEntry
  congr 2
  funext e
  by_cases atAbove : e = above
  · subst atAbove
    simp [different]
  · by_cases atFree : e = d.nextFree
    · subst atFree
      simp [atAbove, different]
    · simp [atAbove, atFree, Function.update_of_ne]

def linkedKids (d : Dict) (kids : Nat → List Nat) (above : Nat) : Nat → List Nat :=
  Function.update kids above (d.nextFree :: kids above)

section Linked

variable {above : Nat} {ch : UInt8} {text : List UInt8}

theorem linked_free (different : above ≠ d.nextFree) :
    (d.linked above ch).entry d.nextFree = d.freshEntry above ch := by
  simp [linked, different.symm]

theorem linked_above :
    (d.linked above ch).entry above = { d.entry above with child := d.nextFree } := by
  simp [linked]

theorem linked_other {e : Nat} (notAbove : e ≠ above) (notFree : e ≠ d.nextFree) :
    (d.linked above ch).entry e = d.entry e := by
  simp [linked, notAbove, notFree]

theorem linked_fields (above : Nat) (ch : UInt8) {e : Nat} (notFree : e ≠ d.nextFree) :
    ((d.linked above ch).entry e).parent = (d.entry e).parent ∧
      ((d.linked above ch).entry e).ch = (d.entry e).ch ∧
      ((d.linked above ch).entry e).next = (d.entry e).next := by
  by_cases atAbove : e = above
  · subst atAbove
    simp [linked_above]
  · simp [linked_other atAbove notFree]

theorem linkedKids_mem {p e : Nat} :
    e ∈ d.linkedKids kids above p ↔ e ∈ kids p ∨ (p = above ∧ e = d.nextFree) := by
  unfold linkedKids
  by_cases atAbove : p = above
  · subst atAbove
    simp [or_comm]
  · simp [atAbove]

theorem Wf.free_not_kid (wf : Wf d maxString kids) (p : Nat) : d.nextFree ∉ kids p :=
  fun member => (wf.kid p _ member).2.2.1 rfl

theorem Wf.linked_chain (wf : Wf d maxString kids) (ch : UInt8) (live : d.Live above) (p : Nat)
    (within : p < d.dictSize) :
    IsChain (fun e => ((d.linked above ch).entry e).next)
      ((d.linked above ch).entry p).child (d.linkedKids kids above p) := by
  have different := wf.live_ne_free live
  have kept : ∀ q, q < d.dictSize →
      IsChain (fun e => ((d.linked above ch).entry e).next) (d.entry q).child (kids q) := by
    intro q qWithin
    apply (wf.chain q qWithin).congr
    intro e member
    exact (linked_fields above ch (fun same => wf.free_not_kid q (same ▸ member))).2.2
  by_cases atAbove : p = above
  · subst atAbove
    simp only [linkedKids, Function.update_self, linked_above]
    refine ⟨rfl, ?_, ?_⟩
    · have low := wf.free_ge
      simp only [firstFree, totalChars, firstEntry] at low
      omega
    · change IsChain _ ((d.linked p ch).entry d.nextFree).next _
      rw [linked_free different]
      exact kept p within
  · simp only [linkedKids, Function.update_of_ne atAbove]
    by_cases atFree : p = d.nextFree
    · subst atFree
      have none : kids d.nextFree = [] := by
        apply List.eq_nil_iff_forall_not_mem.mpr
        intro e member
        exact wf.live_ne_free (wf.kid _ e member).2.2.2.2 rfl
      rw [none, linked_free different]
      exact IsChain.zero _
    · rw [linked_other atAbove atFree]
      exact kept p within

end Linked

/-! ### The scan for the next free entry -/

/-- Place of an entry in the cyclic order that starts at `origin`. -/
def cyclePlace (size origin e : Nat) : Nat :=
  if origin ≤ e then e - origin else e + (size - firstFree) - origin

theorem scanFree_finds (origin leaf : Nat) (fuel current : Nat)
    (allocated : d.dictSize ≤ d.alloc)
    (originLow : firstFree ≤ origin) (originHigh : origin < d.dictSize)
    (leafLow : firstFree ≤ leaf) (leafHigh : leaf < d.dictSize)
    (leafEmpty : (d.entry leaf).child = 0)
    (currentLow : firstFree ≤ current) (currentHigh : current < d.dictSize)
    (before : cyclePlace d.dictSize origin current < cyclePlace d.dictSize origin leaf)
    (enough : cyclePlace d.dictSize origin leaf - cyclePlace d.dictSize origin current ≤ fuel) :
    ∃ next, d.scanFree fuel current = .ok next ∧ firstFree ≤ next ∧
      next < d.dictSize ∧ next ≠ origin ∧ (d.entry next).child = 0 := by
  induction fuel generalizing current with
  | zero => omega
  | succ fuel ih =>
      obtain ⟨next, nextEq⟩ : ∃ next, next =
          if current + 1 = d.dictSize then firstFree else current + 1 := ⟨_, rfl⟩
      have nextLow : firstFree ≤ next := by
        rw [nextEq]
        split <;> omega
      have nextHigh : next < d.dictSize := by
        rw [nextEq]
        split <;> omega
      have placeNext : cyclePlace d.dictSize origin next =
          cyclePlace d.dictSize origin current + 1 := by
        unfold cyclePlace at before ⊢
        rw [nextEq]
        split_ifs at before ⊢ <;> omega
      have notOrigin : next ≠ origin := by
        intro same
        rw [same] at placeNext
        simp [cyclePlace] at placeNext
      unfold scanFree
      simp only [← nextEq, read_ok (show next < d.alloc by omega), ok_bind]
      by_cases empty : (d.entry next).child = 0
      · exact ⟨next, by simp [empty], nextLow, nextHigh, notOrigin, empty⟩
      · rw [if_pos empty]
        have notLeaf : next ≠ leaf := fun same => empty (same ▸ leafEmpty)
        apply ih next nextLow nextHigh
        · have placesDiffer : cyclePlace d.dictSize origin next ≠
              cyclePlace d.dictSize origin leaf := by
            intro same
            apply notLeaf
            unfold cyclePlace at same
            split_ifs at same <;> omega
          omega
        · omega

section Leaf

variable {above : Nat} {ch : UInt8} {text : List UInt8}

theorem Wf.child_of_parent (wf : Wf d maxString kids) (live : d.Live above) {e : Nat}
    (within : e < d.dictSize) (parent : ((d.linked above ch).entry e).child ≠ 0) :
    (∃ first, first ∈ kids e) ∨ e = above := by
  have chain := wf.linked_chain ch live e within
  cases listed : d.linkedKids kids above e with
  | nil =>
      rw [listed] at chain
      exact absurd chain parent
  | cons first rest =>
      have member : first ∈ d.linkedKids kids above e := by
        rw [listed]
        exact List.mem_cons_self
      rcases linkedKids_mem.mp member with old | ⟨atAbove, _⟩
      · exact Or.inl ⟨first, old⟩
      · exact Or.inr atAbove

/-- With every other entry a parent, each entry lies on the parent path of the
new one, at a height that its string length determines. -/
theorem Wf.on_path (wf : Wf d maxString kids) (ch : UInt8) (live : d.Live above)
    (full : ∀ e, firstFree ≤ e → e < d.dictSize → e ≠ d.nextFree →
      ((d.linked above ch).entry e).child ≠ 0)
    (gap e : Nat) (own : List UInt8) (eLive : d.Live e) (low : firstFree ≤ e)
    (spells : Spells d e own) (bound : own.length + gap = maxString) :
    ∃ k, k ≤ gap + 1 ∧
      (fun i => ((d.linked above ch).entry i).parent)^[k] d.nextFree = e := by
  have different := wf.live_ne_free live
  induction gap generalizing e own with
  | zero =>
      rcases wf.child_of_parent live (wf.live_lt eLive)
          (full e low (wf.live_lt eLive) (wf.live_ne_free eLive)) with ⟨first, old⟩ | atAbove
      · obtain ⟨longer, longerSpells, short⟩ := wf.spelled first (wf.kid_live old)
        have same := (wf.kid_spells old spells).unique longerSpells
        rw [← same, List.length_append, List.length_singleton] at short
        omega
      · refine ⟨1, by omega, ?_⟩
        rw [Function.iterate_one, linked_free different, atAbove]
        rfl
  | succ gap ih =>
      rcases wf.child_of_parent live (wf.live_lt eLive)
          (full e low (wf.live_lt eLive) (wf.live_ne_free eLive)) with ⟨first, old⟩ | atAbove
      · obtain ⟨firstLow, _, firstUsed, firstParent, _⟩ := wf.kid e first old
        obtain ⟨k, kBound, path⟩ := ih first _ (wf.kid_live old) firstLow
          (wf.kid_spells old spells)
          (by rw [List.length_append, List.length_singleton]; omega)
        refine ⟨k + 1, by omega, ?_⟩
        rw [Function.iterate_succ_apply', path, (linked_fields above ch firstUsed).1, firstParent]
      · refine ⟨1, by omega, ?_⟩
        rw [Function.iterate_one, linked_free different, atAbove]
        rfl

theorem Wf.exists_leaf (wf : Wf d maxString kids) (ch : UInt8) (live : d.Live above) :
    ∃ leaf, firstFree ≤ leaf ∧ leaf < d.dictSize ∧ leaf ≠ d.nextFree ∧
      ((d.linked above ch).entry leaf).child = 0 := by
  by_contra none
  push Not at none
  have full : ∀ e, firstFree ≤ e → e < d.dictSize → e ≠ d.nextFree →
      ((d.linked above ch).entry e).child ≠ 0 := none
  let path := fun k => (fun i => ((d.linked above ch).entry i).parent)^[k] d.nextFree
  have covered : Finset.Ico firstFree d.dictSize ⊆ (Finset.range (maxString + 1)).image path := by
    intro e member
    obtain ⟨low, high⟩ := Finset.mem_Ico.mp member
    by_cases atFree : e = d.nextFree
    · exact Finset.mem_image.mpr ⟨0, by simp, atFree.symm⟩
    · have eLive : d.Live e := by
        rcases wf.child_of_parent live high (full e low high atFree) with ⟨first, old⟩ | atAbove
        · exact (wf.kid e first old).2.2.2.2
        · rw [atAbove]
          exact live
      obtain ⟨own, spells, short⟩ := wf.spelled e eLive
      have positive := spells.length_pos
      obtain ⟨k, kBound, pathEq⟩ := wf.on_path ch live full
        (maxString - own.length) e own eLive low spells (by omega)
      exact Finset.mem_image.mpr ⟨k, Finset.mem_range.mpr (by omega), pathEq⟩
  have count := (Finset.card_le_card covered).trans Finset.card_image_le
  rw [Nat.card_Ico, Finset.card_range] at count
  have room := wf.room
  omega

end Leaf

/-! ### Unlinking the recycled entry -/

section Unlink

variable {above victim : Nat} {ch : UInt8}

theorem Wf.linkedKids_nodup (wf : Wf d maxString kids) (above p : Nat) :
    (d.linkedKids kids above p).Nodup := by
  unfold linkedKids
  by_cases atAbove : p = above
  · subst atAbove
    rw [Function.update_self, List.nodup_cons]
    exact ⟨wf.free_not_kid p, wf.nodup p⟩
  · rw [Function.update_of_ne atAbove]
    exact wf.nodup p

theorem Wf.linkedKids_parent (wf : Wf d maxString kids) (ch : UInt8) (live : d.Live above)
    {p e : Nat}
    (member : e ∈ d.linkedKids kids above p) :
    ((d.linked above ch).entry e).parent = p ∧ d.Live p ∧ 0 < e ∧ e < d.dictSize := by
  have low := wf.free_ge
  rcases linkedKids_mem.mp member with old | ⟨atAbove, atFree⟩
  · obtain ⟨eLow, eHigh, used, parentEq, pLive⟩ := wf.kid p e old
    refine ⟨?_, pLive, (wf.kid_live old).pos, eHigh⟩
    rw [(linked_fields above ch used).1, parentEq]
  · subst atAbove atFree
    rw [linked_free (wf.live_ne_free live)]
    refine ⟨rfl, live, ?_, wf.free_lt⟩
    simp only [firstFree, totalChars, firstEntry] at low
    omega

theorem findPred_chain (before after : List Nat) (pred fuel start : Nat)
    (chain : IsChain (fun e => (d.entry e).next) start (before ++ pred :: victim :: after))
    (distinct : (before ++ pred :: victim :: after).Nodup)
    (within : ∀ e ∈ before ++ pred :: victim :: after, e < d.alloc)
    (enough : before.length < fuel) :
    d.findPred victim fuel start = .ok pred := by
  induction before generalizing start fuel with
  | nil =>
      obtain ⟨startEq, _, nextEq, _⟩ := chain
      subst startEq
      obtain ⟨fuel, rfl⟩ : ∃ fuel', fuel = fuel' + 1 := ⟨fuel - 1, by omega⟩
      simp only [findPred, read_ok (within start (by simp)), ok_bind]
      have : (d.entry start).next = victim := nextEq
      simp [this]
  | cons head rest ih =>
      obtain ⟨startEq, _, tail⟩ := chain
      subst startEq
      obtain ⟨fuel, rfl⟩ : ∃ fuel', fuel = fuel' + 1 := ⟨fuel - 1, by omega⟩
      rw [List.cons_append, List.nodup_cons] at distinct
      have notVictim : (d.entry start).next ≠ victim := by
        intro same
        have tail' : IsChain (fun e => (d.entry e).next) victim
            (rest ++ pred :: victim :: after) := same ▸ tail
        cases rest with
        | nil =>
            have := tail'.1
            have := distinct.2
            simp_all
        | cons second others =>
            have := tail'.1
            have := distinct.2
            simp_all
      simp only [findPred, read_ok (within start (by simp)), ok_bind]
      rw [if_pos notVictim]
      apply ih fuel _ tail distinct.2
      · intro e member
        exact within e (List.mem_cons_of_mem _ member)
      · rw [List.length_cons] at enough
        omega

/-- The outcome of the unlinking part: only `child` and `next` fields change,
and every child list loses the recycled entry. -/
structure Unlinked (d : Dict) (kids : Nat → List Nat) (above : Nat) (ch : UInt8)
    (victim : Nat) (after : Dict) : Prop where
  alloc_eq : after.alloc = d.alloc
  size_eq : after.dictSize = d.dictSize
  parent_eq : ∀ e, (after.entry e).parent = ((d.linked above ch).entry e).parent
  ch_eq : ∀ e, (after.entry e).ch = ((d.linked above ch).entry e).ch
  chain : ∀ p, p < d.dictSize →
    IsChain (fun e => (after.entry e).next) (after.entry p).child
      ((d.linkedKids kids above p).erase victim)

theorem update_parent_ch (f : Nat → DictEntry) (index : Nat) (value : DictEntry)
    (parentEq : value.parent = (f index).parent) (chEq : value.ch = (f index).ch) (e : Nat) :
    (Function.update f index value e).parent = (f e).parent ∧
      (Function.update f index value e).ch = (f e).ch := by
  by_cases same : e = index
  · subst same
    simp [parentEq, chEq]
  · simp [same]

/-- A member of the child list of `p` is in no other child list. -/
theorem Wf.linkedKids_only (wf : Wf d maxString kids) (live : d.Live above) {p e : Nat}
    (member : e ∈ d.linkedKids kids above p) (q : Nat) (different : q ≠ p) :
    e ∉ d.linkedKids kids above q := by
  intro qMember
  apply different
  rw [← (wf.linkedKids_parent 0 live qMember).1,
    (wf.linkedKids_parent 0 live member).1]

theorem Wf.unlink_first (wf : Wf d maxString kids) (live : d.Live above) {p : Nat}
    {rest : List Nat} (listed : d.linkedKids kids above p = victim :: rest) :
    ∃ after, (d.linked above ch).unlink victim = .ok after ∧
      Unlinked d kids above ch victim after := by
  have allocated := wf.allocated
  have member : victim ∈ d.linkedKids kids above p := by
    rw [listed]
    exact List.mem_cons_self
  obtain ⟨parentEq, pLive, _, high⟩ := wf.linkedKids_parent ch live member
  have pWithin := wf.live_lt pLive
  have pNonzero := Nat.pos_iff_ne_zero.mp pLive.pos
  have chain := wf.linked_chain ch live p pWithin
  rw [listed] at chain
  have childEq : ((d.linked above ch).entry p).child = victim := chain.1
  have victimRead : (d.linked above ch).read victim =
      .ok ((d.linked above ch).entry victim) := if_pos (show victim < d.alloc by omega)
  have parentRead : (d.linked above ch).read p = .ok ((d.linked above ch).entry p) :=
    if_pos (show p < d.alloc by omega)
  let value : DictEntry :=
    { (d.linked above ch).entry p with child := ((d.linked above ch).entry victim).next }
  have fields := update_parent_ch (d.linked above ch).entry p value rfl rfl
  have nextKept : ∀ e, (Function.update (d.linked above ch).entry p value e).next =
      ((d.linked above ch).entry e).next := by
    intro e
    by_cases same : e = p
    · subst same
      simp [value]
    · simp [same]
  refine ⟨{ d.linked above ch with
      entry := Function.update (d.linked above ch).entry p value },
    ?_, rfl, rfl, fun e => (fields e).1, fun e => (fields e).2, ?_⟩
  · simp only [unlink, victimRead, ok_bind, parentEq, ne_eq, pNonzero, not_false_eq_true,
      if_true, parentRead, childEq]
    exact write_ok _ (show p < d.alloc by omega)
  · intro q qWithin
    by_cases same : q = p
    · subst same
      rw [listed, List.erase_cons_head]
      simp only [Function.update_self]
      exact chain.2.2.congr (fun e _ => nextKept e)
    · rw [List.erase_of_not_mem (wf.linkedKids_only live member q same)]
      simp only [Function.update_of_ne same]
      exact (wf.linked_chain ch live q qWithin).congr (fun e _ => nextKept e)

theorem Wf.unlink_interior (wf : Wf d maxString kids) (live : d.Live above) {p pred : Nat}
    {before rest : List Nat}
    (listed : d.linkedKids kids above p = before ++ pred :: victim :: rest) :
    ∃ after, (d.linked above ch).unlink victim = .ok after ∧
      Unlinked d kids above ch victim after := by
  have allocated := wf.allocated
  have member : victim ∈ d.linkedKids kids above p := by
    rw [listed]
    simp
  have predMember : pred ∈ d.linkedKids kids above p := by
    rw [listed]
    simp
  obtain ⟨parentEq, pLive, _, high⟩ := wf.linkedKids_parent ch live member
  obtain ⟨_, _, _, predHigh⟩ := wf.linkedKids_parent ch live predMember
  have pWithin := wf.live_lt pLive
  have pNonzero := Nat.pos_iff_ne_zero.mp pLive.pos
  have chain := wf.linked_chain ch live p pWithin
  have distinct := wf.linkedKids_nodup above p
  rw [listed] at chain distinct
  have bounded : ∀ e ∈ before ++ pred :: victim :: rest, e < d.alloc := by
    intro e eMember
    rw [← listed] at eMember
    have := (wf.linkedKids_parent ch live eMember).2.2.2
    omega
  have childNe : ((d.linked above ch).entry p).child ≠ victim := by
    intro same
    rw [same] at chain
    cases before with
    | nil =>
        have := chain.1
        simp_all
    | cons first others =>
        have := chain.1
        simp_all
  have found : (d.linked above ch).findPred victim (d.linked above ch).alloc
      ((d.linked above ch).entry p).child = .ok pred := by
    apply findPred_chain before rest pred _ _ chain distinct bounded
    have count := (distinct.subperm
      (fun e eMember => List.mem_range.mpr (bounded e eMember))).length_le
    simp only [List.length_append, List.length_cons, List.length_range] at count
    change before.length < d.alloc
    omega
  have victimRead : (d.linked above ch).read victim =
      .ok ((d.linked above ch).entry victim) := if_pos (show victim < d.alloc by omega)
  have parentRead : (d.linked above ch).read p = .ok ((d.linked above ch).entry p) :=
    if_pos (show p < d.alloc by omega)
  have predRead : (d.linked above ch).read pred = .ok ((d.linked above ch).entry pred) :=
    if_pos (show pred < d.alloc by omega)
  let value : DictEntry :=
    { (d.linked above ch).entry pred with next := ((d.linked above ch).entry victim).next }
  have fields := update_parent_ch (d.linked above ch).entry pred value rfl rfl
  have childKept : ∀ e, (Function.update (d.linked above ch).entry pred value e).child =
      ((d.linked above ch).entry e).child := by
    intro e
    by_cases same : e = pred
    · subst same
      simp [value]
    · simp [same]
  have nextEq : (fun e => (Function.update (d.linked above ch).entry pred value e).next) =
      Function.update (fun e => ((d.linked above ch).entry e).next) pred
        ((d.linked above ch).entry victim).next := by
    funext e
    by_cases same : e = pred
    · subst same
      simp [value]
    · simp [same]
  refine ⟨{ d.linked above ch with
      entry := Function.update (d.linked above ch).entry pred value },
    ?_, rfl, rfl, fun e => (fields e).1, fun e => (fields e).2, ?_⟩
  · simp only [unlink, victimRead, ok_bind, parentEq, ne_eq, pNonzero, not_false_eq_true,
      if_true, parentRead, childNe, if_false, found, predRead]
    exact write_ok _ (show pred < d.alloc by omega)
  · intro q qWithin
    rw [childKept, nextEq]
    by_cases same : q = p
    · subst same
      rw [listed, erase_interior distinct]
      exact chain.cut before rest distinct
    · rw [List.erase_of_not_mem (wf.linkedKids_only live member q same)]
      apply (wf.linked_chain ch live q qWithin).congr
      intro e eMember
      apply Function.update_of_ne
      intro atPred
      exact wf.linkedKids_only live predMember q same (atPred ▸ eMember)

theorem Wf.unlink_spec (wf : Wf d maxString kids) (ch : UInt8) (live : d.Live above)
    (low : firstFree ≤ victim) (high : victim < d.dictSize) (notFree : victim ≠ d.nextFree) :
    ∃ after, (d.linked above ch).unlink victim = .ok after ∧
      Unlinked d kids above ch victim after := by
  have allocated := wf.allocated
  have parentEq := (linked_fields above ch notFree).1
  by_cases unused : (d.entry victim).parent = 0
  · have victimRead : (d.linked above ch).read victim =
        .ok ((d.linked above ch).entry victim) := if_pos (show victim < d.alloc by omega)
    refine ⟨d.linked above ch, ?_, rfl, rfl, fun _ => rfl, fun _ => rfl, ?_⟩
    · simp [unlink, victimRead, parentEq, unused]
    · intro p within
      rw [List.erase_of_not_mem]
      · exact wf.linked_chain ch live p within
      · intro member
        obtain ⟨pEq, pLive, _⟩ := wf.linkedKids_parent ch live member
        rw [parentEq, unused] at pEq
        exact Nat.lt_irrefl 0 (pEq ▸ pLive.pos)
  · have oldMember := wf.linked victim low (Or.inr ⟨low, high, notFree, unused⟩)
    obtain ⟨before, rest, split⟩ := List.append_of_mem
      (linkedKids_mem.mpr (Or.inl oldMember))
    rcases List.eq_nil_or_concat before with headFirst | ⟨before, pred, beforeEq⟩
    · subst headFirst
      exact wf.unlink_first live split
    · rw [beforeEq, List.concat_eq_append, List.append_assoc, List.singleton_append] at split
      exact wf.unlink_interior live split

end Unlink

/-! ### The whole function -/

/-- What `add_char` does to the entries in use: the free entry joins below
`above`, and the entry that becomes free leaves. -/
structure Added (d : Dict) (above : Nat) (ch : UInt8) (after : Dict) : Prop where
  alloc_eq : after.alloc = d.alloc
  size_eq : after.dictSize = d.dictSize
  fresh_parent : (after.entry d.nextFree).parent = above
  fresh_ch : (after.entry d.nextFree).ch = ch
  kept : ∀ e, e ≠ d.nextFree →
    (after.entry e).parent = (d.entry e).parent ∧ (after.entry e).ch = (d.entry e).ch
  live_iff : ∀ e, after.Live e ↔ e = d.nextFree ∨ (d.Live e ∧ e ≠ after.nextFree)

section Add

variable {above : Nat} {ch : UInt8} {text : List UInt8}

theorem Wf.added_of_unlinked (wf : Wf d maxString kids) (live : d.Live above) {next : Nat}
    {after : Dict} (low : firstFree ≤ next) (notFree : next ≠ d.nextFree)
    (unlinked : Unlinked d kids above ch next after) :
    Added d above ch { after with nextFree := next } := by
  have different := wf.live_ne_free live
  have aboveNonzero := Nat.pos_iff_ne_zero.mp live.pos
  have freeLow := wf.free_ge
  have freeHigh := wf.free_lt
  have kept : ∀ e, e ≠ d.nextFree →
      (after.entry e).parent = (d.entry e).parent ∧ (after.entry e).ch = (d.entry e).ch := by
    intro e used
    obtain ⟨parentEq, chEq, _⟩ := linked_fields above ch used
    exact ⟨(unlinked.parent_eq e).trans parentEq, (unlinked.ch_eq e).trans chEq⟩
  have freshParent : (after.entry d.nextFree).parent = above := by
    rw [unlinked.parent_eq, linked_free different]
    rfl
  have freshCh : (after.entry d.nextFree).ch = ch := by
    rw [unlinked.ch_eq, linked_free different]
    rfl
  refine ⟨unlinked.alloc_eq, unlinked.size_eq, freshParent, freshCh, kept, ?_⟩
  intro e
  unfold Live
  simp only [unlinked.size_eq]
  constructor
  · rintro (char | ⟨eLow, eHigh, eUsed, hangs⟩)
    · exact Or.inr ⟨Or.inl char, by omega⟩
    · by_cases atFree : e = d.nextFree
      · exact Or.inl atFree
      · rw [(kept e atFree).1] at hangs
        exact Or.inr ⟨Or.inr ⟨eLow, eHigh, atFree, hangs⟩, eUsed⟩
  · rintro (atFree | ⟨char | ⟨eLow, eHigh, eUsed, hangs⟩, stays⟩)
    · subst atFree
      exact Or.inr ⟨freeLow, freeHigh, notFree.symm, by rw [freshParent]; exact aboveNonzero⟩
    · exact Or.inl char
    · exact Or.inr ⟨eLow, eHigh, stays, by rw [(kept e eUsed).1]; exact hangs⟩

/-- The child lists after `add_char` has recycled `next`. -/
def addedKids (d : Dict) (kids : Nat → List Nat) (above next : Nat) (p : Nat) : List Nat :=
  (d.linkedKids kids above p).erase next

theorem Wf.addedKids_mem (wf : Wf d maxString kids) {next p e : Nat} :
    e ∈ d.addedKids kids above next p ↔
      (e ∈ kids p ∨ (p = above ∧ e = d.nextFree)) ∧ e ≠ next := by
  unfold addedKids
  rw [(wf.linkedKids_nodup above p).mem_erase_iff, linkedKids_mem, and_comm]

theorem Wf.added_wf (wf : Wf d maxString kids) (live : d.Live above)
    (absent : ∀ e ∈ kids above, (d.entry e).ch ≠ ch)
    (spells : Spells d above text) (short : text.length < maxString) {next : Nat}
    {after : Dict} (low : firstFree ≤ next) (high : next < d.dictSize)
    (notFree : next ≠ d.nextFree) (leaf : ((d.linked above ch).entry next).child = 0)
    (unlinked : Unlinked d kids above ch next after) :
    Wf { after with nextFree := next } maxString (d.addedKids kids above next) := by
  have added := wf.added_of_unlinked live low notFree unlinked
  have freeLow := wf.free_ge
  have freeHigh := wf.free_lt
  have nextChildless : d.linkedKids kids above next = [] := by
    have chain := wf.linked_chain ch live next high
    rw [leaf] at chain
    exact chain.unique (IsChain.zero _)
  have nextNotParent : ∀ p, d.linkedKids kids above p ≠ [] → p ≠ next := by
    intro p nonempty same
    rw [same] at nonempty
    exact nonempty nextChildless
  have notFreeKid : ∀ p e, e ∈ kids p → e ≠ d.nextFree :=
    fun p e member => (wf.kid p e member).2.2.1
  refine
    { room := by rw [added.size_eq]; exact wf.room
      allocated := by rw [added.size_eq, added.alloc_eq]; exact wf.allocated
      chars := ?_
      free_ge := low
      free_lt := by rw [added.size_eq]; exact high
      chain := by rw [added.size_eq]; exact unlinked.chain
      nodup := fun p => (wf.linkedKids_nodup above p).erase next
      kid := ?_
      kid_ch := ?_
      linked := ?_
      spelled := ?_ }
  · intro e eLow eHigh
    obtain ⟨parentEq, chEq⟩ := added.kept e (by omega)
    rw [parentEq, chEq]
    exact wf.chars e eLow eHigh
  · intro p e member
    obtain ⟨listed, stays⟩ := wf.addedKids_mem.mp member
    have pStays : p ≠ next :=
      nextNotParent p (List.ne_nil_of_mem (linkedKids_mem.mpr listed))
    have sizeEq := added.size_eq
    rcases listed with old | ⟨atAbove, atFree⟩
    · obtain ⟨eLow, eHigh, eUsed, parentEq, pLive⟩ := wf.kid p e old
      exact ⟨eLow, sizeEq ▸ eHigh, stays, (added.kept e eUsed).1.trans parentEq,
        (added.live_iff p).mpr (Or.inr ⟨pLive, pStays⟩)⟩
    · subst atAbove atFree
      exact ⟨freeLow, sizeEq ▸ freeHigh, stays, added.fresh_parent,
        (added.live_iff p).mpr (Or.inr ⟨live, pStays⟩)⟩
  · intro p e e' member member' same
    obtain ⟨listed, _⟩ := wf.addedKids_mem.mp member
    obtain ⟨listed', _⟩ := wf.addedKids_mem.mp member'
    rcases listed with old | ⟨atAbove, atFree⟩ <;> rcases listed' with old' | ⟨atAbove', atFree'⟩
    · rw [(added.kept e (notFreeKid p e old)).2, (added.kept e' (notFreeKid p e' old')).2] at same
      exact wf.kid_ch p e e' old old' same
    · subst atAbove' atFree'
      rw [(added.kept e (notFreeKid p e old)).2, added.fresh_ch] at same
      exact absurd same (absent e old)
    · subst atAbove atFree
      rw [(added.kept e' (notFreeKid p e' old')).2, added.fresh_ch] at same
      exact absurd same.symm (absent e' old')
    · rw [atFree, atFree']
  · intro e eLow eLive
    have stays : e ≠ next := by
      rcases eLive with ⟨_, below⟩ | ⟨_, _, used, _⟩
      · omega
      · exact used
    rw [wf.addedKids_mem]
    refine ⟨?_, stays⟩
    rcases (added.live_iff e).mp eLive with atFree | ⟨old, _⟩
    · subst atFree
      exact Or.inr ⟨added.fresh_parent, rfl⟩
    · rw [(added.kept e (wf.live_ne_free old)).1]
      exact Or.inl (wf.linked e eLow old)
  · intro e eLive
    have frame : ∀ i own, d.Live i → Spells d i own →
        Spells { after with nextFree := next } i own := by
      intro i own iLive iSpells
      exact wf.spells_congr iSpells iLive added.alloc_eq
        (fun j jLive => added.kept j (wf.live_ne_free jLive))
    rcases (added.live_iff e).mp eLive with atFree | ⟨old, _⟩
    · subst atFree
      refine ⟨text ++ [ch], ?_, by rw [List.length_append, List.length_singleton]; omega⟩
      have allocated := wf.allocated
      have aboveSpells := frame above text live spells
      rw [← added.fresh_ch]
      refine Spells.snoc (by simp only [firstFree, totalChars, firstEntry] at freeLow; omega)
        (by rw [added.alloc_eq]; omega) ?_
      rw [added.fresh_parent]
      exact aboveSpells
    · obtain ⟨own, ownSpells, ownShort⟩ := wf.spelled e old
      exact ⟨own, frame e own old ownSpells, ownShort⟩

/-- `add_char` below a live entry that can still grow and has no child for the
character. -/
theorem Wf.addChar_spec (wf : Wf d maxString kids) (live : d.Live above)
    (absent : ∀ e ∈ kids above, (d.entry e).ch ≠ ch)
    (spells : Spells d above text) (short : text.length < maxString) :
    ∃ after kids', d.addChar above ch = .ok (after, d.nextFree) ∧
      Wf after maxString kids' ∧ Added d above ch after := by
  have allocated := wf.allocated
  have freeLow := wf.free_ge
  have freeHigh := wf.free_lt
  have aboveHigh := wf.live_lt live
  obtain ⟨leaf, leafLow, leafHigh, leafNe, leafEmpty⟩ := wf.exists_leaf ch live
  have ahead : cyclePlace d.dictSize d.nextFree d.nextFree <
      cyclePlace d.dictSize d.nextFree leaf := by
    unfold cyclePlace
    split_ifs <;> omega
  have fuelEnough : cyclePlace d.dictSize d.nextFree leaf -
      cyclePlace d.dictSize d.nextFree d.nextFree ≤ d.alloc := by
    unfold cyclePlace
    split_ifs <;> omega
  obtain ⟨next, scanned, low, high, notFree, empty⟩ :=
    scanFree_finds (d := d.linked above ch) d.nextFree leaf d.alloc d.nextFree allocated freeLow
      freeHigh leafLow leafHigh leafEmpty freeLow freeHigh ahead fuelEnough
  obtain ⟨after, unlinkEq, unlinked⟩ := wf.unlink_spec ch live low high notFree
  refine ⟨{ after with nextFree := next }, d.addedKids kids above next, ?_, ?_, ?_⟩
  · unfold addChar
    rw [link_eq ch (by omega) (by omega) (wf.live_ne_free live), ok_bind]
    rw [show (d.linked above ch).alloc = d.alloc from rfl, scanned, ok_bind, unlinkEq, ok_bind]
  · exact wf.added_wf live absent spells short low high notFree empty unlinked
  · exact wf.added_of_unlinked live low notFree unlinked

end Add

end DModem.Comp.Dict
