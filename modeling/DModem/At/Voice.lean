/-
Voice commands that are rejected.

The values of a voice command are stored once all of them have been read.  `+VTS` then runs a
command that needs a voice object, and `+VLS=1` creates the object before it starts the
device: both can still fail after something has changed.
-/

import DModem.At.Sregs
import DModem.Modem.Sessions

namespace DModem.At

open DModem.Lib DModem.Lib.Reading DModem.Modem

/-! ### What a rejected command has to leave -/

structure VoiceState where
  info : VoiceInfo
  command : Bool
  voiceObj : Bool
  deriving DecidableEq, Repr

def Console.voiceState (c : Console) : VoiceState :=
  { info := c.voiceInfo, command := c.modem.command, voiceObj := c.modem.voiceObj }

def Begins (key text : List UInt8) : Prop := (text.take key.length).map upper = key

instance (key text : List UInt8) : Decidable (Begins key text) :=
  inferInstanceAs (Decidable (_ = _))

/-- `=` follows the two letters of the command, with values behind it. -/
def SetsValues (text : List UInt8) : Prop :=
  (text.drop 2).head? = some (ch '=') ∧ (text.drop 3).head? ≠ some (ch '?')

instance (text : List UInt8) : Decidable (SetsValues text) :=
  inferInstanceAs (Decidable (_ ∧ _))

/-- The values behind `=`, if they are as the parameters say. -/
def valuesGiven (text : List UInt8) (params : List VoiceParam) (before after : Option UInt8) :
    Option (List Nat) :=
  match (voiceList 3 params before after).exec Query.answer (text ++ [0]) with
  | some (some (vals, _)) => if SetsValues text then some vals else none
  | _ => none

/-- The first of the forms of `+VTS` that the text has, with its values. -/
def formGiven (text : List UInt8) (tones : List VoiceTone) : Option (VoiceTone × List Nat) :=
  tones.findSome? fun tone =>
    (valuesGiven text tone.params tone.before tone.after).map fun vals => (tone, vals)

def toneGiven (c : Console) (text : List UInt8) : Option (VoiceTone × List Nat) :=
  formGiven text (voiceTones c)

def deviceGiven (c : Console) (text : List UInt8) : Option (List Nat) :=
  valuesGiven text [{ val := if c.modem.voiceObj then 1 else 0, min := 0, max := 1 }] none none

def LineKept (m : Modem) (device : Device) : Prop :=
  m.voiceObj = true ∨ (m.started = true ∧ m.rdObj = false) ∨
    if device.voice then device.start = true else m.started = false ∨ m.command = true

/-- A tone is played with a voice object, or has the values that are set already; the line is
opened only where it can be. -/
def VoiceKept (board : Board) (c : Console) (text : List UInt8) : Prop :=
  (Begins (word ['T', 'S']) text → ∀ tone vals, toneGiven c text = some (tone, vals) →
    c.modem.voiceObj = true ∨ tone.store vals c.voiceInfo = c.voiceInfo) ∧
  (Begins (word ['L', 'S']) text → ∀ vals, deviceGiven c text = some vals → vals.getD 0 0 ≠ 0 →
    LineKept c.modem (board.device c.calls))

/-! ### Keywords -/

section Keywords

variable {α : Type} {text : List UInt8} {place : Nat}

theorem exec_here {among : List UInt8} {next : Option UInt8 → Reading α}
    (inside : place ≤ text.length) :
    (letter among place >>= next).exec Query.answer (text ++ [0]) =
      (next (Query.told true among ((text.drop place).headD 0))).exec Query.answer
        (text ++ [0]) := by
  have given : (Query.peek true among).answer ((text ++ [0]).drop place) =
      some (Query.told true among ((text.drop place).headD 0)) := by
    rw [drop_zero inside]
    exact congrArg (Option.map (Query.told true among)) (head_zero (text.drop place) [])
  exact (Scan.exec_bind (Scan.exec_ask given) next).1

theorem keyword_exec {key : List UInt8} (inside : place ≤ text.length) (noZero : 0 ∉ key) :
    (keyword key place).exec Query.answer (text ++ [0]) =
      some (decide (Begins key (text.drop place))) := by
  induction key generalizing place with
  | nil => rfl
  | cons first rest ih =>
      have firstNe : first ≠ 0 := fun zero => noZero (zero ▸ List.mem_cons_self)
      rw [keyword, exec_here inside]
      have restNe : 0 ∉ rest := fun zero => noZero (List.mem_cons_of_mem first zero)
      cases here : text.drop place with
      | nil =>
          have absent : Query.told true [first] 0 = none :=
            if_neg (fun zero => firstNe (List.mem_singleton.mp zero).symm)
          have fails : ¬ Begins (first :: rest) [] := by
            intro starts
            cases starts
          rw [List.headD_nil, absent, decide_eq_false fails]
          rfl
      | cons c after =>
          have short : place + 1 ≤ text.length := by
            by_contra long
            rw [List.drop_eq_nil_of_le (by omega)] at here
            cases here
          have next : text.drop (place + 1) = after := by
            rw [← List.drop_drop, here]
            rfl
          have iff : Begins (first :: rest) (c :: after) ↔ upper c = first ∧ Begins rest after := by
            unfold Begins
            simp
          rw [List.headD_cons]
          by_cases same : upper c = first
          · have found : Query.told true [first] c = some (upper c) :=
              if_pos (List.mem_singleton.mpr same)
            rw [found]
            apply (ih short restNe).trans
            rw [next]
            simp only [iff, same, true_and]
          · have absent : Query.told true [first] c = none :=
              if_neg (fun member => same (List.mem_singleton.mp member))
            rw [absent, decide_eq_false (fun starts => same (iff.mp starts).1)]
            rfl

theorem select_exec {entries : List (List UInt8 × Reading α)} {other : Reading α}
    (inside : place ≤ text.length) (noZero : ∀ entry ∈ entries, 0 ∉ entry.1) :
    (select place entries other).exec Query.answer (text ++ [0]) =
      ((entries.find? fun entry => Begins entry.1 (text.drop place)).elim other Prod.snd).exec
        Query.answer (text ++ [0]) := by
  induction entries with
  | nil => rfl
  | cons entry entries ih =>
      obtain ⟨first, others⟩ := List.forall_mem_cons.mp noZero
      rw [select]
      apply (Scan.exec_bind (keyword_exec inside first) _).1.trans
      by_cases starts : Begins entry.1 (text.drop place)
      · rw [decide_eq_true starts, List.find?_cons_of_pos (by simpa using starts)]
        rfl
      · rw [decide_eq_false starts, List.find?_cons_of_neg (by simpa using starts)]
        exact ih others

end Keywords

/-! ### Commands that change nothing when they fail -/

def LeavesAll (c : Console) (sub : Sub) : Prop := sub.ret = -1 → sub.console = c

section Parsers

variable {board : Board} {c : Console} {text : List UInt8} {place : Nat} {cmd : List UInt8}
  {params : List VoiceParam} {before after : Option UInt8}

theorem leavesAll_failed : LeavesAll c (Sub.failed c) := fun _ => rfl

theorem leavesAll_accepted {sub : Sub} (accepted : sub.ret ≠ -1) : LeavesAll c sub :=
  fun rejected => absurd rejected accepted

/-- Either nothing is stored, or all values are there. -/
def Parsed (c : Console) (reply : Sub × Option (List Nat)) : Prop :=
  reply.2 = none ∧ (reply.1 = Sub.failed c ∨ reply.1.ret = 0) ∨
    reply.1.console = c ∧ reply.1.ret = 0

theorem setVoiceParams_parsed :
    (setVoiceParams board c place cmd params before after).Yields (Parsed c) := by
  apply Scan.yields_bind
  intro kind
  cases kind with
  | none => exact Or.inl ⟨rfl, Or.inl rfl⟩
  | some kind =>
      dsimp only
      split
      · exact Or.inl ⟨rfl, Or.inr rfl⟩
      · apply Scan.yields_bind
        intro listed
        cases listed with
        | some mark => exact Or.inl ⟨rfl, Or.inr rfl⟩
        | none =>
            apply Scan.yields_bind
            intro found
            cases found with
            | none => exact Or.inl ⟨rfl, Or.inl rfl⟩
            | some found => exact Or.inr ⟨rfl, rfl⟩

theorem voiceSetting_leaves (store : List Nat → VoiceInfo → VoiceInfo) :
    (voiceSetting board c place cmd params store).Yields (LeavesAll c) := by
  apply setVoiceParams_parsed.bind
  rintro ⟨sub, vals⟩ (⟨none, failed | shown⟩ | ⟨-, accepted⟩)
  · dsimp only at none failed
    subst none failed
    exact fun _ => rfl
  · apply leavesAll_accepted
    dsimp only at shown ⊢
    omega
  · apply leavesAll_accepted
    dsimp only at accepted ⊢
    omega

theorem modemVoiceCommand_cases (board : Board) (c : Console) (cmd : VoiceCmd) :
    c.modemVoiceCommand board cmd = (c, -1) ∨ (c.modemVoiceCommand board cmd).2 = 1 := by
  unfold Console.modemVoiceCommand
  grind

theorem voiceState_leaves (cmd : VoiceCmd) : (voiceState board c cmd).Yields (LeavesAll c) := by
  rcases modemVoiceCommand_cases board c cmd with failed | done
  · unfold voiceState
    rw [failed]
    exact leavesAll_failed
  · intro rejected
    exact absurd (done.symm.trans rejected) (by decide)

/-! ### Tones and the line -/

theorem stands_at {count : Nat} {c : UInt8} (found : (text.drop count).head? = some c) :
    count < text.length ∧ ((text ++ [0]).drop count).head? = some c := by
  have inside : count < text.length := by
    by_contra short
    rw [List.drop_eq_nil_of_le (by omega)] at found
    cases found
  rw [drop_zero (by omega), List.head?_append, found]
  exact ⟨inside, rfl⟩

theorem not_stands_at {count : Nat} {c : UInt8} (inside : count ≤ text.length) (some_ : c ≠ 0)
    (absent : (text.drop count).head? ≠ some c) :
    ((text ++ [0]).drop count).head? = some ((text.drop count).headD 0) ∧
      (text.drop count).headD 0 ∉ [c] := by
  constructor
  · rw [drop_zero inside]
    exact head_zero _ []
  · intro present
    cases rest : text.drop count with
    | nil =>
        rw [rest] at present
        exact some_ (List.mem_singleton.mp present).symm
    | cons first after =>
        rw [rest] at present absent
        exact absent (congrArg some (List.mem_singleton.mp present))

theorem setVoiceParams_exec (board : Board) (c : Console) (cmd : List UInt8)
    (sets : SetsValues text) {found : Option (List Nat × Nat)}
    (list : (voiceList 3 params before after).exec Query.answer (text ++ [0]) = some found) :
    (setVoiceParams board c 2 cmd params before after).exec Query.answer (text ++ [0]) =
      some (found.elim (Sub.failed c, none) fun found =>
        ({ console := c, ret := 0, len := 1 + found.2 }, some found.1)) := by
  obtain ⟨inside, equals⟩ := stands_at sets.1
  obtain ⟨stands, absent⟩ := not_stands_at inside (by decide) sets.2
  unfold setVoiceParams question
  rw [exec_peek equals (by decide)]
  apply (exec_peek_none stands absent).trans
  apply (Scan.exec_bind list _).1.trans
  cases found with
  | none => rfl
  | some found => rfl

theorem valuesGiven_eq (sets : SetsValues text) {found : Option (List Nat × Nat)}
    (list : (voiceList 3 params before after).exec Query.answer (text ++ [0]) = some found) :
    valuesGiven text params before after = found.map Prod.fst := by
  unfold valuesGiven
  rw [list]
  cases found with
  | none => rfl
  | some found => exact if_pos sets

theorem voiceList_exec (params : List VoiceParam) (before after : Option UInt8)
    (inside : 3 ≤ text.length)
    (softBefore : ∀ c ∈ before, Soft opensCommand [c])
    (softAfter : ∀ c ∈ after, Soft opensCommand [c]) :
    ∃ found, (voiceList 3 params before after).exec Query.answer (text ++ [0]) = some found := by
  obtain ⟨found, list, -⟩ := voiceList_fits inside softBefore softAfter
  exact ⟨found, list⟩

theorem playTone_exec (sets : SetsValues text) {tones : List VoiceTone}
    (soft : ∀ tone ∈ tones, (∀ c ∈ tone.before, Soft opensCommand [c]) ∧
      ∀ c ∈ tone.after, Soft opensCommand [c]) :
    ∃ sub, (playTone board c 2 tones).exec Query.answer (text ++ [0]) = some sub ∧
      (sub.console, sub.ret) = (formGiven text tones).elim (c, -1) fun given =>
        ({ c with voiceInfo := given.1.store given.2 c.voiceInfo } : Console).modemVoiceCommand
          board given.1.cmd := by
  induction tones with
  | nil => exact ⟨_, rfl, rfl⟩
  | cons tone tones ih =>
      obtain ⟨⟨softBefore, softAfter⟩, others⟩ := List.forall_mem_cons.mp soft
      have inside : 3 ≤ text.length := (stands_at sets.1).1
      obtain ⟨found, list⟩ :=
        voiceList_exec tone.params tone.before tone.after inside softBefore softAfter
      have ran := setVoiceParams_exec board c (At.text "VTS") sets list
      rw [playTone, formGiven, List.findSome?_cons, valuesGiven_eq sets list]
      cases found with
      | none =>
          obtain ⟨sub, rest, result⟩ := ih others
          exact ⟨sub, (Scan.exec_bind ran _).1.trans rest, result⟩
      | some found => exact ⟨_, (Scan.exec_bind ran _).1, rfl⟩

/-- Behind anything but `=` and `?` there are no values. -/
theorem playTone_refuses {first : UInt8} (stands : ((text ++ [0]).drop 2).head? = some first)
    (other : first ∉ word ['=', '?']) (tones : List VoiceTone) :
    (playTone board c 2 tones).exec Query.answer (text ++ [0]) = some (Sub.failed c) := by
  induction tones with
  | nil => rfl
  | cons tone tones ih =>
      have refused : (setVoiceParams board c 2 (At.text "VTS") tone.params tone.before
          tone.after).exec Query.answer (text ++ [0]) = some (Sub.failed c, none) :=
        exec_peek_none stands other
      rw [playTone]
      exact (Scan.exec_bind refused _).1.trans ih

/-- The marks of a query: `?`, or `=` and `?`. -/
def Asks (text : List UInt8) : Prop :=
  ((text ++ [0]).drop 2).head? = some (ch '?') ∨
    ((text ++ [0]).drop 2).head? = some (ch '=') ∧ ((text ++ [0]).drop 3).head? = some (ch '?')

theorem marks_cases (inside : 2 ≤ text.length) :
    SetsValues text ∨ Asks text ∨
      ∃ first, ((text ++ [0]).drop 2).head? = some first ∧ first ∉ word ['=', '?'] := by
  by_cases query : (text.drop 2).head? = some (ch '?')
  · exact Or.inr (Or.inl (Or.inl (stands_at query).2))
  · by_cases equals : (text.drop 2).head? = some (ch '=')
    · by_cases second : (text.drop 3).head? = some (ch '?')
      · exact Or.inr (Or.inl (Or.inr ⟨(stands_at equals).2, (stands_at second).2⟩))
      · exact Or.inl ⟨equals, second⟩
    · obtain ⟨stands, noQuery⟩ := not_stands_at inside (by decide) query
      obtain ⟨-, noEquals⟩ := not_stands_at inside (by decide) equals
      refine Or.inr (Or.inr ⟨_, stands, ?_⟩)
      intro member
      rcases List.mem_cons.mp member with same | member
      · exact noEquals (List.mem_singleton.mpr same)
      · exact noQuery member

theorem listed_asks (asks : Asks text) :
    (listed 2).exec Query.answer (text ++ [0]) = some true := by
  rcases asks with query | ⟨equals, query⟩
  · exact exec_peek query (by decide)
  · exact (exec_peek equals (by decide)).trans (exec_peek query (by decide))

theorem listed_sets (sets : SetsValues text) :
    (listed 2).exec Query.answer (text ++ [0]) = some false := by
  obtain ⟨inside, equals⟩ := stands_at sets.1
  obtain ⟨stands, absent⟩ := not_stands_at inside (by decide) sets.2
  exact (exec_peek equals (by decide)).trans (exec_peek_none stands absent)

theorem listed_other {first : UInt8} (stands : ((text ++ [0]).drop 2).head? = some first)
    (other : first ∉ word ['=', '?']) :
    (listed 2).exec Query.answer (text ++ [0]) = some false := by
  have both : first ∉ word ['?', '='] := by
    intro member
    rcases List.mem_cons.mp member with same | member
    · exact other (List.mem_cons_of_mem _ (List.mem_singleton.mpr same))
    · exact other (List.mem_cons.mpr (Or.inl (List.mem_singleton.mp member)))
  exact exec_peek_none stands both

theorem asks_quiet (asks : Asks text) : ¬ SetsValues text := by
  intro sets
  cases (listed_asks asks).symm.trans (listed_sets sets)

theorem voiceText_voiceObj (items : List (List UInt8)) :
    (voiceText board cmd before after items c).modem.voiceObj = c.modem.voiceObj := by
  have sent : ∀ (parts : List (List UInt8)) (c : Console),
      (parts.foldl (fun c part => c.sendToTty board part) c).modem.voiceObj =
        c.modem.voiceObj := by
    intro parts
    induction parts with
    | nil => exact fun c => rfl
    | cons part parts ih => exact fun c => ih _
  have marked : ∀ (mark : Option UInt8) (c : Console),
      (mark.elim c fun mark => c.sendToTty board [mark]).modem.voiceObj = c.modem.voiceObj := by
    intro mark c
    cases mark with
    | none => rfl
    | some mark => rfl
  exact (marked _ _).trans ((sent _ _).trans (marked _ _))

theorem setVoiceParams_asks (board : Board) (c : Console) (cmd : List UInt8)
    (params : List VoiceParam) (before after : Option UInt8) (asks : Asks text) :
    ∃ sub, (setVoiceParams board c 2 cmd params before after).exec Query.answer (text ++ [0]) =
      some (sub, none) ∧ sub.ret = 0 ∧ sub.console.modem.voiceObj = c.modem.voiceObj := by
  rcases asks with query | ⟨equals, query⟩
  · exact ⟨_, exec_peek query (by decide), rfl, voiceText_voiceObj _⟩
  · exact ⟨_, (exec_peek equals (by decide)).trans (exec_peek query (by decide)), rfl,
      voiceText_voiceObj _⟩

theorem processVTS_quiet (board : Board) (c : Console) (inside : 2 ≤ text.length)
    (quiet : ¬ SetsValues text) :
    ∃ sub, (processVTS board c 0).exec Query.answer (text ++ [0]) = some sub ∧
      LeavesAll c sub := by
  rcases marks_cases inside with sets | asks | ⟨first, stands, other⟩
  · exact absurd sets quiet
  · obtain ⟨sub, shown, accepted, -⟩ := setVoiceParams_asks board c (At.text "VTS")
      (toneParams c) none none asks
    refine ⟨_, (Scan.exec_bind (listed_asks asks) _).1.trans (Scan.exec_bind shown _).1, ?_⟩
    exact leavesAll_accepted (by dsimp only; omega)
  · exact ⟨_, (Scan.exec_bind (listed_other stands other) _).1.trans
      (playTone_refuses stands other _), leavesAll_failed⟩

theorem modemVoiceCommand_eq {cmd : VoiceCmd} (plays : cmd ≠ .stateDuplex) :
    c.modemVoiceCommand board cmd =
      if c.modem.voiceObj then (c.call board .voiceCommand, 1) else (c, -1) := by
  cases cmd with
  | stateDuplex => exact absurd rfl plays
  | _ => rfl

theorem voiceTones_cmd : ∀ tone ∈ voiceTones c, tone.cmd ≠ .stateDuplex := by
  simp only [voiceTones, List.forall_mem_cons]
  exact ⟨by decide, by decide, by decide, fun _ absent => by cases absent⟩

theorem toneGiven_cmd {given : VoiceTone × List Nat} (found : toneGiven c text = some given) :
    given.1.cmd ≠ .stateDuplex := by
  obtain ⟨before, tone, after, split, values, -⟩ := List.findSome?_eq_some_iff.mp found
  obtain ⟨vals, -, rfl⟩ := Option.map_eq_some_iff.mp values
  apply voiceTones_cmd (c := c)
  rw [split]
  exact List.mem_append_right before List.mem_cons_self

theorem processVTS_keeps (board : Board) (c : Console) (sets : SetsValues text) :
    ∃ sub, (processVTS board c 0).exec Query.answer (text ++ [0]) = some sub ∧
      ((sub.ret = -1 → sub.console.voiceState = c.voiceState) ↔
        ∀ tone vals, toneGiven c text = some (tone, vals) →
          c.modem.voiceObj = true ∨ tone.store vals c.voiceInfo = c.voiceInfo) := by
  obtain ⟨sub, played, result⟩ := playTone_exec (c := c) sets (voiceTones_soft (c := c))
  refine ⟨sub, (Scan.exec_bind (listed_sets sets) _).1.trans played, ?_⟩
  change (sub.console, sub.ret) = (toneGiven c text).elim _ _ at result
  cases given : toneGiven c text with
  | none =>
      rw [given] at result
      obtain ⟨console, ret⟩ := Prod.mk.inj result
      rw [console]
      exact iff_of_true (fun _ => rfl) fun tone vals absent => by cases absent
  | some given' =>
      obtain ⟨tone, vals⟩ := given'
      rw [given, Option.elim_some, modemVoiceCommand_eq (toneGiven_cmd given)] at result
      by_cases object : c.modem.voiceObj = true
      · rw [if_pos object] at result
        have done : sub.ret = 1 := (Prod.mk.inj result).2
        refine iff_of_true (fun failed => ?_) fun _ _ _ => Or.inl object
        rw [done] at failed
        exact absurd failed (by decide)
      · rw [if_neg object] at result
        obtain ⟨console, ret⟩ := Prod.mk.inj result
        rw [console]
        constructor
        · intro kept other values same
          cases same
          exact Or.inr (congrArg VoiceState.info (kept ret))
        · intro stays _
          have same := (stays tone vals rfl).resolve_left object
          unfold Console.voiceState
          dsimp only
          rw [same]

theorem valuesGiven_quiet (quiet : ¬ SetsValues text) :
    valuesGiven text params before after = none := by
  unfold valuesGiven
  split
  · exact if_neg quiet
  · rfl

theorem formGiven_quiet (quiet : ¬ SetsValues text) (tones : List VoiceTone) :
    formGiven text tones = none := by
  apply List.findSome?_eq_none_iff.mpr
  intro tone member
  rw [valuesGiven_quiet quiet]
  rfl

theorem hooked_voiceObj (m : Modem) (device : Device) (hookState : Hook) :
    ((m.modemSetHook device hookState).1.doModemStart device).1.voiceObj = m.voiceObj := by
  unfold modemSetHook
  split
  · rfl
  · split
    · rfl
    · rfl

theorem voiceStart_kept (m : Modem) (device : Device) (closed : m.voiceObj = false)
    (fails : (m.modemVoiceStart device).2 = false) :
    ((m.modemVoiceStart device).1.command = m.command ∧
        (m.modemVoiceStart device).1.voiceObj = m.voiceObj) ↔ LineKept m device := by
  have shut : ¬ m.voiceObj = true := by simp [closed]
  unfold modemVoiceStart at fails ⊢
  rw [if_neg shut] at fails ⊢
  by_cases busy : (m.started && !m.rdObj) = true
  · rw [if_pos busy]
    have kept : m.started = true ∧ m.rdObj = false := by simpa using busy
    exact iff_of_true ⟨rfl, rfl⟩ (Or.inr (Or.inl kept))
  · rw [if_neg busy] at fails ⊢
    have free : ¬ (m.started = true ∧ m.rdObj = false) := by simpa using busy
    have line : LineKept m device ↔
        if device.voice then device.start = true else m.started = false ∨ m.command = true := by
      unfold LineKept
      simp [closed, free]
    rw [line]
    cases made : device.voice with
    | true =>
        rw [made] at fails
        have refused : device.start = false := fails
        constructor
        · rintro ⟨-, object⟩
          simp only [Bool.not_true, Bool.false_eq_true, if_false, closed, hooked_voiceObj] at object
          cases object
        · intro opens
          rw [if_pos rfl, refused] at opens
          cases opens
    | false =>
        cases started : m.started with
        | false => simp
        | true =>
            have stopped : (m.modemStop device).desk = _ :=
              (desk_stop m device).trans (Desk.stop_eq _ _)
            have command : (m.modemStop device).command = true := congrArg Desk.command stopped
            have object : (m.modemStop device).voiceObj = false := congrArg Desk.voiceObj stopped
            simp only [Bool.not_false, if_true, command, object, closed, and_true,
              Bool.false_eq_true, if_false, Bool.true_eq_false, false_or]
            exact eq_comm

theorem voiceStart_opens (m : Modem) (device : Device) (closed : m.voiceObj = false)
    (opens : (m.modemVoiceStart device).2 = true) : LineKept m device := by
  have shut : ¬ m.voiceObj = true := by simp [closed]
  unfold modemVoiceStart at opens
  rw [if_neg shut] at opens
  split at opens
  · cases opens
  · right
    right
    cases made : device.voice with
    | true =>
        rw [made] at opens
        exact opens
    | false =>
        rw [made] at opens
        cases opens

theorem modemVoiceSetDevice_keeps (voice : c.modem.mode = .voice) (device : Nat) :
    ((c.modemVoiceSetDevice board device).2 = -1 →
        (c.modemVoiceSetDevice board device).1.voiceState = c.voiceState) ↔
      (device ≠ 0 → LineKept c.modem (board.device c.calls)) := by
  by_cases line : device = 0
  · subst line
    exact iff_of_true (fun failed => by cases failed) fun none => absurd rfl none
  · have modem : (c.modemVoiceSetDevice board device).1.modem =
        (c.modem.modemVoiceStart (board.device c.calls)).1 := by
      unfold Console.modemVoiceSetDevice Console.call Modem.call Modem.modemVoiceSetDevice
      simp only [decide_eq_true line, if_pos voice, if_true]
    have info : (c.modemVoiceSetDevice board device).1.voiceInfo = c.voiceInfo := rfl
    have ret : (c.modemVoiceSetDevice board device).2 =
        if c.modem.voiceObj then 0
        else if (c.modem.modemVoiceStart (board.device c.calls)).2 then 1 else -1 := by
      unfold Console.modemVoiceSetDevice
      simp only [decide_eq_true line, if_true]
    rw [ret, Console.voiceState, Console.voiceState, modem, info, VoiceState.mk.injEq]
    cases object : c.modem.voiceObj with
    | true => exact iff_of_true (fun failed => by cases failed) fun _ => Or.inl object
    | false =>
        cases started : (c.modem.modemVoiceStart (board.device c.calls)).2 with
        | true =>
            exact iff_of_true (fun failed => by cases failed)
              fun _ => voiceStart_opens _ _ object started
        | false =>
            have kept := voiceStart_kept _ _ object started
            rw [object] at kept
            simp only [Bool.false_eq_true, if_false, forall_const, true_and, kept, ne_eq, line,
              not_false_eq_true]

theorem processVLS_keeps (board : Board) (voice : c.modem.mode = .voice)
    (inside : 2 ≤ text.length) :
    ∃ sub, (processVLS board c 0).exec Query.answer (text ++ [0]) = some sub ∧
      ((sub.ret = -1 → sub.console.voiceState = c.voiceState) ↔
        ∀ vals, deviceGiven c text = some vals → vals.getD 0 0 ≠ 0 →
          LineKept c.modem (board.device c.calls)) := by
  rcases marks_cases inside with sets | asks | ⟨first, stands, other⟩
  · obtain ⟨found, list⟩ := voiceList_exec
      [{ val := if c.modem.voiceObj then 1 else 0, min := 0, max := 1 }] none none
      (stands_at sets.1).1 (by simp) (by simp)
    have ran := setVoiceParams_exec board c (At.text "VLS") sets list
    have given := valuesGiven_eq sets list
    cases found with
    | none =>
        refine ⟨_, (Scan.exec_bind ran _).1, iff_of_true (fun _ => rfl) ?_⟩
        intro vals absent
        cases absent.symm.trans given
    | some found =>
        refine ⟨_, (Scan.exec_bind ran _).1, ?_⟩
        apply (modemVoiceSetDevice_keeps voice _).trans
        constructor
        · intro kept vals same
          cases same.symm.trans given
          exact kept
        · intro kept
          exact kept found.1 given
  · obtain ⟨sub, shown, accepted, object⟩ := setVoiceParams_asks board c (At.text "VLS")
      [{ val := if c.modem.voiceObj then 1 else 0, min := 0, max := 1 }] none none asks
    have given : deviceGiven c text = none := valuesGiven_quiet (asks_quiet asks)
    have stays : (sub.console.modemVoiceSetDevice board
        (if c.modem.voiceObj then 1 else 0)).2 ≠ -1 := by
      unfold Console.modemVoiceSetDevice
      cases open_ : c.modem.voiceObj with
      | true => simp [object, open_]
      | false => simp
    have ran : (processVLS board c 0).exec Query.answer (text ++ [0]) = some
        { console := (sub.console.modemVoiceSetDevice board
            (if c.modem.voiceObj then 1 else 0)).1
          ret := (sub.console.modemVoiceSetDevice board
            (if c.modem.voiceObj then 1 else 0)).2
          len := 2 + sub.len } := by
      apply (Scan.exec_bind shown _).1.trans
      simp only [accepted]
      rfl
    refine ⟨_, ran, iff_of_true (fun failed => absurd failed stays) ?_⟩
    intro vals absent
    cases absent.symm.trans given
  · have given : deviceGiven c text = none := by
      apply valuesGiven_quiet
      intro sets
      rw [(stands_at sets.1).2] at stands
      cases stands
      exact other (by decide)
    have refused : (setVoiceParams board c 2 (At.text "VLS")
        [{ val := if c.modem.voiceObj then 1 else 0, min := 0, max := 1 }] none none).exec
        Query.answer (text ++ [0]) = some (Sub.failed c, none) := exec_peek_none stands other
    refine ⟨Sub.failed c, (Scan.exec_bind refused _).1, iff_of_true (fun _ => rfl) ?_⟩
    intro vals absent
    cases absent.symm.trans given

/-! ### All voice commands -/

theorem begins_other {key other : List UInt8} (begins : Begins key text)
    (same : key.length = other.length) (differs : key ≠ other) : ¬ Begins other text := by
  intro starts
  apply differs
  rw [← starts, ← same]
  exact begins.symm

theorem begins_length {key : List UInt8} (begins : Begins key text) :
    key.length ≤ text.length := by
  have size := congrArg List.length begins
  rw [List.length_map, List.length_take] at size
  omega

/-- The commands other than `+VTS` and `+VLS` change nothing when they fail. -/
theorem voiceCommands_leave : ∀ entry ∈ voiceCommands board c 0,
    entry.2.Yields (LeavesAll c) ∧ entry.1 ≠ word ['T', 'S'] ∧ entry.1 ≠ word ['L', 'S'] ∧
        entry.1.length = 2 ∨
      entry = (word ['T', 'S'], processVTS board c 0) ∨
      entry = (word ['L', 'S'], processVLS board c 0) := by
  simp only [voiceCommands, List.forall_mem_cons]
  refine ⟨?_, ?_, ?_, ?_, ?_, ?_, ?_, ?_, ?_, ?_, ?_, ?_, fun entry absent => by cases absent⟩
  · exact Or.inl ⟨(fun failed => by cases failed), by decide, by decide, rfl⟩
  · exact Or.inl ⟨voiceSetting_leaves _, by decide, by decide, rfl⟩
  · exact Or.inl ⟨voiceSetting_leaves _, by decide, by decide, rfl⟩
  · exact Or.inl ⟨voiceSetting_leaves _, by decide, by decide, rfl⟩
  · exact Or.inl ⟨voiceSetting_leaves _, by decide, by decide, rfl⟩
  · exact Or.inl ⟨voiceSetting_leaves _, by decide, by decide, rfl⟩
  · exact Or.inl ⟨voiceSetting_leaves _, by decide, by decide, rfl⟩
  · exact Or.inr (Or.inr trivial)
  · exact Or.inl ⟨voiceState_leaves _, by decide, by decide, rfl⟩
  · exact Or.inl ⟨voiceState_leaves _, by decide, by decide, rfl⟩
  · exact Or.inl ⟨voiceState_leaves _, by decide, by decide, rfl⟩
  · exact Or.inr (Or.inl trivial)

theorem voiceCommands_tone :
    (word ['T', 'S'], processVTS board c 0) ∈ voiceCommands board c 0 := by simp [voiceCommands]

theorem voiceCommands_line :
    (word ['L', 'S'], processVLS board c 0) ∈ voiceCommands board c 0 := by simp [voiceCommands]

theorem processVoiceCommand_ends (board : Board) (c : Console) (text : List UInt8) :
    ∃ sub, (processVoiceCommand board c 0).exec Query.answer (text ++ [0]) = some sub := by
  obtain ⟨sub, ran, -⟩ := processVoiceCommand_fits (Nat.zero_le text.length)
  exact ⟨sub, ran⟩

theorem processVoiceCommand_exec (board : Board) (c : Console) (text : List UInt8) :
    (processVoiceCommand board c 0).exec Query.answer (text ++ [0]) =
      (((voiceCommands board c 0).find? fun entry => Begins entry.1 text).elim
        (pure (Sub.failed c)) Prod.snd).exec Query.answer (text ++ [0]) := by
  have keys : ∀ key ∈ (voiceCommands board c 0).map Prod.fst, 0 ∉ key := by
    simp only [voiceCommands, List.map_cons, List.map_nil]
    decide
  apply select_exec (Nat.zero_le _)
  intro entry member
  exact keys entry.1 (List.mem_map_of_mem member)

end Parsers

/-- A voice command that is rejected changes nothing exactly if it plays no tone with new values
without a voice object, and opens no line that fails when it is opened. -/
theorem voice_rejected_unchanged_iff (board : Board) (c : Console) (text : List UInt8)
    (voice : c.modem.mode = .voice) :
    ∃ sub, (processVoiceCommand board c 0).exec Query.answer (text ++ [0]) = some sub ∧
      ((sub.ret = -1 → sub.console.voiceState = c.voiceState) ↔ VoiceKept board c text) := by
  have exec := processVoiceCommand_exec board c text
  cases found : (voiceCommands board c 0).find? fun entry => Begins entry.1 text with
  | none =>
      rw [found] at exec
      refine ⟨_, exec, iff_of_true (fun _ => rfl) ?_⟩
      have none := List.find?_eq_none.mp found
      constructor
      · intro begins
        exact absurd (decide_eq_true begins) (none _ voiceCommands_tone)
      · intro begins
        exact absurd (decide_eq_true begins) (none _ voiceCommands_line)
  | some entry =>
      have begins : Begins entry.1 text := by simpa using List.find?_some found
      rw [found] at exec
      rcases voiceCommands_leave entry (List.mem_of_find?_eq_some found) with
        ⟨leaves, noTone, noLine, two⟩ | rfl | rfl
      · obtain ⟨sub, ran⟩ := processVoiceCommand_ends board c text
        have left := leaves.exec (exec.symm.trans ran)
        refine ⟨sub, ran, iff_of_true (fun failed => by rw [left failed]) ?_⟩
        constructor
        · intro tone
          exact absurd tone (begins_other begins two noTone)
        · intro line
          exact absurd line (begins_other begins two noLine)
      · have differs : word ['T', 'S'] ≠ word ['L', 'S'] := by decide
        have noLine : ¬ Begins (word ['L', 'S']) text := begins_other begins rfl differs
        by_cases sets : SetsValues text
        · obtain ⟨sub, ran, kept⟩ := processVTS_keeps board c sets
          refine ⟨sub, exec.trans ran, kept.trans ?_⟩
          constructor
          · exact fun tones => ⟨fun _ => tones, fun line => absurd line noLine⟩
          · exact fun both => both.1 begins
        · obtain ⟨sub, ran, left⟩ := processVTS_quiet board c (begins_length begins)
            sets
          refine ⟨sub, exec.trans ran, iff_of_true (fun failed => by rw [left failed]) ?_⟩
          refine ⟨fun _ tone vals given => ?_, fun line => absurd line noLine⟩
          cases given.symm.trans (formGiven_quiet sets _)
      · have differs : word ['L', 'S'] ≠ word ['T', 'S'] := by decide
        have noTone : ¬ Begins (word ['T', 'S']) text := begins_other begins rfl differs
        obtain ⟨sub, ran, kept⟩ := processVLS_keeps board voice (begins_length begins)
        refine ⟨sub, exec.trans ran, kept.trans ?_⟩
        constructor
        · exact fun lines => ⟨fun tone => absurd tone noTone, fun _ => lines⟩
        · exact fun both => both.2 begins

def voiceConsole : Console := { freshConsole with modem := { modemCreate with mode := .voice } }

def busyConsole : Console :=
  { voiceConsole with modem := { voiceConsole.modem with started := true } }

/-- `+VLS=1` is refused there before anything is changed. -/
theorem voice_rejected_unchanged_of_busy :
    ∃ sub,
      (processVoiceCommand plainBoard busyConsole 0).exec Query.answer
          (word ['L', 'S', '=', '1'] ++ [0]) = some sub ∧
        VoiceKept plainBoard busyConsole (word ['L', 'S', '=', '1']) ∧ sub.ret = -1 ∧
        sub.console.voiceState = busyConsole.voiceState := by
  obtain ⟨sub, ran, unchanged⟩ :=
    voice_rejected_unchanged_iff plainBoard busyConsole (word ['L', 'S', '=', '1']) rfl
  have refused : ((processVoiceCommand plainBoard busyConsole 0).exec Query.answer
      (word ['L', 'S', '=', '1'] ++ [0])).map Sub.ret = some (-1) := by decide +kernel
  rw [ran] at refused
  have ret : sub.ret = -1 := Option.some.inj refused
  have kept : VoiceKept plainBoard busyConsole (word ['L', 'S', '=', '1']) := by
    constructor
    · intro tone
      exact absurd tone (by decide)
    · intro _ vals _ _
      exact Or.inr (Or.inl ⟨rfl, rfl⟩)
  exact ⟨sub, ran, kept, ret, unchanged.mpr kept ret⟩

/-- Without a voice object `+VTS=7` is an error, and the symbol is 7 from then on; a line that
cannot be started leaves its voice object behind. -/
theorem voice_rejected_changed :
    ((processVoiceCommand plainBoard voiceConsole 0).exec Query.answer
        (word ['T', 'S', '=', '7'] ++ [0])).map
          (fun sub => (sub.ret, sub.console.voiceState.info.dtmfSymbol)) = some (-1, 7) ∧
      ((processVoiceCommand
          { plainBoard with device := fun _ => { obedient with start := false } } voiceConsole
          0).exec Query.answer (word ['L', 'S', '=', '1'] ++ [0])).map
          (fun sub => (sub.ret, sub.console.voiceState.voiceObj)) = some (-1, true) ∧
      voiceConsole.voiceState.info.dtmfSymbol = 0 ∧ voiceConsole.voiceState.voiceObj = false := by
  refine ⟨by decide +kernel, by decide +kernel, rfl, rfl⟩

end DModem.At
