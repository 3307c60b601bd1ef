/-
The parsers stay inside the command.

Each parser that accepts its sub-command has asked only about characters of the string, and
the length that it reports ends inside the string.  A command letter is never asked for
behind the end by a sub-command that is then accepted, except by `AT+M` with nothing behind
it, which skips the zero byte when `ret` is still 0 from the sub-command before.
-/

import DModem.At.Dispatch

namespace DModem.At

open DModem.Lib DModem.Lib.Reading DModem.Modem

/-- The characters that begin a sub-command. -/
def opensCommand (c : UInt8) : Bool :=
  decide (65 ≤ upper c ∧ upper c ≤ 90) || decide (c ∈ word ['#', '%', '&', '*', '+', '\\'])

/-- What an accepted sub-command has used lies inside the text, and it has not asked what a
sub-command behind it would change. -/
def Fits (text : List UInt8) (place : Nat) (sub : Sub) (queries : List (Nat × Query)) : Prop :=
  sub.ret = 0 → place + sub.len ≤ text.length ∧ AllSure opensCommand text queries

def Keeps (text : List UInt8) (passed : Passed) (queries : List (Nat × Query)) : Prop :=
  ∀ sub, passed = .breaks sub → Fits text 0 sub queries

section Parsers

variable {text : List UInt8} {place : Nat} {board : Board} {c : Console} {ret : Int}
  {queries : List (Nat × Query)} {sub : Sub}

theorem fits_failed : Fits text place (Sub.failed c) queries := by
  intro accepted
  cases accepted

theorem fits_of (inside : place + sub.len ≤ text.length)
    (sure : AllSure opensCommand text queries) : Fits text place sub queries :=
  fun _ => ⟨inside, sure⟩

theorem meets_mark {among : List UInt8} (inside : place ≤ text.length)
    (soft : Soft opensCommand among) :
    (peek among place).Meets text fun reply queries => AllSure opensCommand text queries ∧
      ∀ c, reply = some c → place < text.length ∧ c ∈ among := meets_peek inside soft

theorem meets_command {among : List UInt8} (inside : place ≤ text.length) (noZero : 0 ∉ among) :
    (letter among place).Meets text fun reply queries =>
      (place < text.length → AllSure opensCommand text queries) ∧
      ∀ c, reply = some c → place < text.length ∧ c ∈ among ∧
        (text.drop place).head?.map upper = some c := by
  apply (meets_letter inside noZero).imp
  rintro reply queries ⟨sure, -, found⟩
  exact ⟨sure, found⟩

theorem soft_digits : Soft opensCommand digits := by decide

theorem meets_digit (inside : place ≤ text.length) :
    (peek digits place).Meets text fun reply queries => AllSure opensCommand text queries ∧
      place + (if reply.isSome then 1 else 0) ≤ text.length := by
  apply (meets_peek inside soft_digits).imp
  rintro reply queries ⟨sure, found⟩
  refine ⟨sure, ?_⟩
  cases reply with
  | none => exact inside
  | some digit => exact (found digit rfl).1

theorem setSreg_fits (num low hi : Nat) (inside : place ≤ text.length) :
    (setSreg board c place num low hi).Meets text (Fits text place) := by
  apply Scan.Meets.bind (meets_digit inside)
  rintro digit queries ⟨sure, fits⟩
  dsimp only
  split
  · apply Scan.Meets.pure
    exact fits_of fits (by simpa using sure)
  · exact Scan.Meets.pure fits_failed

theorem processH_fits (inside : place ≤ text.length) :
    (processH board c place).Meets text (Fits text place) := by
  apply Scan.Meets.bind (meets_mark inside (by decide))
  rintro state queries ⟨sure, found⟩
  cases state with
  | none =>
      apply Scan.Meets.bind (meets_digit inside)
      rintro digit more ⟨sureMore, -⟩
      cases digit with
      | none =>
          apply Scan.Meets.pure
          exact fits_of inside (by simpa using ⟨sure, sureMore⟩)
      | some digit => exact Scan.Meets.pure fits_failed
  | some state =>
      obtain ⟨early, -⟩ := found state rfl
      dsimp only
      split
      · apply Scan.Meets.pure
        exact fits_of early (by simpa using sure)
      · apply Scan.Meets.bind (meets_digit early)
        rintro digit more ⟨sureMore, -⟩
        cases digit with
        | none =>
            apply Scan.Meets.pure
            exact fits_of early (by simpa using ⟨sure, sureMore⟩)
        | some digit => exact Scan.Meets.pure fits_failed

theorem processI_fits (inside : place ≤ text.length) :
    (processI board c place).Meets text (Fits text place) := by
  apply Scan.Meets.bind (meets_number 0 inside)
  rintro ⟨value, len⟩ queries ⟨sure, fits⟩
  dsimp only at fits ⊢
  split
  · exact Scan.Meets.pure fits_failed
  · apply Scan.Meets.pure
    exact fits_of fits (by simpa using sure)

theorem processS_fits (inside : place ≤ text.length) :
    (processS board c place).Meets text (Fits text place) := by
  apply Scan.Meets.bind (meets_number 0 inside)
  rintro ⟨num, len⟩ queries ⟨sure, fits⟩
  dsimp only at fits ⊢
  split
  · exact Scan.Meets.pure fits_failed
  · apply Scan.Meets.bind (meets_mark fits (by decide))
    rintro kind more ⟨sureMore, found⟩
    cases kind with
    | none => exact Scan.Meets.pure fits_failed
    | some kind =>
        obtain ⟨early, -⟩ := found kind rfl
        dsimp only
        split
        · apply Scan.Meets.pure
          exact fits_of early (by simpa using ⟨sure, sureMore⟩)
        · apply Scan.Meets.bind (meets_number 0 early)
          rintro ⟨val, digits⟩ rest ⟨sureRest, fitsRest⟩
          apply Scan.Meets.pure
          refine fits_of ?_ (by simpa using ⟨sure, sureMore, sureRest⟩)
          dsimp only at fitsRest ⊢
          omega

theorem question_meets {α : Type} {other shown : α} {set : Reading α}
    {post : α → List (Nat × Query) → Prop} (inside : place ≤ text.length)
    (fails : ∀ queries, post other queries)
    (shows : place < text.length → ∀ queries, AllSure opensCommand text queries →
      post shown queries)
    (sets : place < text.length → ∀ queries, AllSure opensCommand text queries →
      set.Meets text fun result more => post result (queries ++ more)) :
    (question place other shown set).Meets text post := by
  apply Scan.Meets.bind (meets_mark inside (by decide))
  rintro kind queries ⟨sure, found⟩
  cases kind with
  | none => exact Scan.Meets.pure (fails _)
  | some kind =>
      obtain ⟨early, -⟩ := found kind rfl
      dsimp only
      split
      · apply Scan.Meets.pure
        exact shows early _ (by simpa using sure)
      · exact sets early queries sure

theorem processPlusGCI_fits (inside : place ≤ text.length) :
    (processPlusGCI board c place).Meets text (Fits text place) := by
  apply question_meets inside (fun _ => fits_failed) (fun early _ sure => fits_of early sure)
  intro early queries sure
  apply Scan.Meets.bind (meets_mark early (by decide))
  rintro listed more ⟨sureMore, found⟩
  cases listed with
  | some mark =>
      apply Scan.Meets.pure
      exact fits_of (found mark rfl).1 (by simpa using ⟨sure, sureMore⟩)
  | none =>
      apply Scan.Meets.bind (meets_number 16 early)
      rintro ⟨id, len⟩ rest ⟨sureRest, fits⟩
      dsimp only at fits ⊢
      split
      · exact Scan.Meets.pure fits_failed
      · apply Scan.Meets.pure
        refine fits_of ?_ (by simpa using ⟨sure, sureMore, sureRest⟩)
        dsimp only
        omega

theorem msItems_fits (items : List Nat) (inside : place ≤ text.length) :
    (msItems items place).Meets text fun reply queries =>
      AllSure opensCommand text queries ∧ place + reply.2 ≤ text.length := by
  induction items generalizing place with
  | nil => exact Scan.Meets.pure ⟨allSure_nil, inside⟩
  | cons item rest ih =>
      apply Scan.Meets.bind (meets_number 0 inside)
      rintro ⟨value, len⟩ queries ⟨sure, fits⟩
      dsimp only at fits ⊢
      apply Scan.Meets.bind (meets_mark fits (by decide))
      rintro comma more ⟨sureMore, found⟩
      cases comma with
      | none =>
          apply Scan.Meets.pure
          exact ⟨by simpa using ⟨sure, sureMore⟩, fits⟩
      | some comma =>
          apply Scan.Meets.bind (ih (found comma rfl).1)
          rintro ⟨items, later⟩ others ⟨sureOthers, fitsOthers⟩
          apply Scan.Meets.pure
          refine ⟨by simpa using ⟨sure, sureMore, sureOthers⟩, ?_⟩
          dsimp only at fitsOthers ⊢
          omega

theorem setupMs_fits {items : List Nat} {len : Nat} (inside : place + len ≤ text.length)
    (sure : AllSure opensCommand text queries) :
    Fits text place (setupMs board c items len) queries := by
  unfold setupMs
  dsimp only
  split
  · exact fits_failed
  · split
    · exact fits_failed
    · exact fits_of inside sure

theorem processPlusMS_fits (inside : place ≤ text.length) :
    (processPlusMS board c place).Meets text (Fits text place) := by
  apply question_meets inside (fun _ => fits_failed) (fun early _ sure => fits_of early sure)
  intro early queries sure
  apply Scan.Meets.bind (meets_mark early (by decide))
  rintro listed more ⟨sureMore, found⟩
  cases listed with
  | some mark =>
      apply Scan.Meets.pure
      exact fits_of (found mark rfl).1 (by simpa using ⟨sure, sureMore⟩)
  | none =>
      apply Scan.Meets.bind (msItems_fits _ early)
      rintro ⟨items, len⟩ rest ⟨sureRest, fits⟩
      apply Scan.Meets.pure
      apply setupMs_fits
      · dsimp only at fits ⊢
        omega
      · simpa using ⟨sure, sureMore, sureRest⟩

theorem processPlusFCLASS_fits (inside : place ≤ text.length) :
    (processPlusFCLASS board c place).Meets text (Fits text place) := by
  apply question_meets inside (fun _ => fits_failed) (fun early _ sure => fits_of early sure)
  intro early queries sure
  apply Scan.Meets.bind (meets_mark early (by decide))
  rintro value more ⟨sureMore, found⟩
  cases value with
  | none => exact Scan.Meets.pure fits_failed
  | some value =>
      obtain ⟨before, -⟩ := found value rfl
      have all : AllSure opensCommand text (queries ++ (more ++ [])) := by
        simpa using ⟨sure, sureMore⟩
      dsimp only
      split
      · exact Scan.Meets.pure (fits_of before all)
      · split
        · exact Scan.Meets.pure fits_failed
        · exact Scan.Meets.pure (fits_of before all)

theorem processCID_fits (inside : place ≤ text.length) :
    (processCID board c place).Meets text (Fits text place) := by
  apply question_meets inside (fun _ => fits_failed) (fun early _ sure => fits_of early sure)
  intro early queries sure
  apply Scan.Meets.bind (meets_mark early (by decide))
  rintro value more ⟨sureMore, found⟩
  cases value with
  | none => exact Scan.Meets.pure fits_failed
  | some value =>
      obtain ⟨before, -⟩ := found value rfl
      have all : AllSure opensCommand text (queries ++ (more ++ [])) := by
        simpa using ⟨sure, sureMore⟩
      dsimp only
      split
      · exact Scan.Meets.pure (fits_of before all)
      · exact Scan.Meets.pure (fits_of before all)

/-! ### Voice and fax -/

theorem voiceValues_fits (params : List VoiceParam) (inside : place ≤ text.length) :
    (voiceValues params place).Meets text fun reply queries =>
      AllSure opensCommand text queries ∧
        ∀ vals len, reply = some (vals, len) → place + len ≤ text.length := by
  induction params generalizing place with
  | nil =>
      apply Scan.Meets.pure
      refine ⟨allSure_nil, ?_⟩
      rintro vals len same
      cases same
      exact inside
  | cons param rest ih =>
      apply Scan.Meets.bind (meets_number 0 inside)
      rintro ⟨val, len⟩ queries ⟨sure, fits⟩
      have alone : AllSure opensCommand text (queries ++ []) := by simpa using sure
      dsimp only at fits ⊢
      split
      · apply Scan.Meets.pure
        exact ⟨alone, fun vals len absent => by cases absent⟩
      · split
        · apply Scan.Meets.pure
          refine ⟨alone, ?_⟩
          rintro vals more same
          cases same
          exact fits
        · apply Scan.Meets.bind (meets_mark fits (by decide))
          rintro comma more ⟨sureMore, found⟩
          cases comma with
          | none =>
              apply Scan.Meets.pure
              exact ⟨by simpa using ⟨sure, sureMore⟩, fun vals len absent => by cases absent⟩
          | some comma =>
              apply Scan.Meets.bind (ih (found comma rfl).1)
              rintro later others ⟨sureOthers, fitsOthers⟩
              have all : AllSure opensCommand text (queries ++ (more ++ (others ++ []))) := by
                simpa using ⟨sure, sureMore, sureOthers⟩
              cases later with
              | none =>
                  apply Scan.Meets.pure
                  exact ⟨all, fun vals len absent => by cases absent⟩
              | some later =>
                  apply Scan.Meets.pure
                  refine ⟨all, ?_⟩
                  rintro vals total same
                  cases same
                  have fitsLater := fitsOthers _ _ rfl
                  omega

theorem bracket_fits {mark : Option UInt8} (inside : place ≤ text.length)
    (soft : ∀ c ∈ mark, Soft opensCommand [c]) :
    (bracket mark place).Meets text fun reply queries => AllSure opensCommand text queries ∧
      ∀ len, reply = some len → place + len ≤ text.length := by
  cases mark with
  | none =>
      apply Scan.Meets.pure
      refine ⟨allSure_nil, ?_⟩
      rintro len same
      cases same
      exact inside
  | some mark =>
      apply Scan.Meets.bind (meets_mark inside (soft mark rfl))
      rintro found queries ⟨sure, stands⟩
      apply Scan.Meets.pure
      refine ⟨by simpa using sure, ?_⟩
      intro len same
      cases found with
      | none => cases same
      | some c =>
          cases same
          exact (stands c rfl).1

theorem voiceList_fits {params : List VoiceParam} {before after : Option UInt8}
    (inside : place ≤ text.length) (softBefore : ∀ c ∈ before, Soft opensCommand [c])
    (softAfter : ∀ c ∈ after, Soft opensCommand [c]) :
    (voiceList place params before after).Meets text fun reply queries =>
      AllSure opensCommand text queries ∧
        ∀ vals len, reply = some (vals, len) → place + len ≤ text.length := by
  apply Scan.Meets.bind (bracket_fits inside softBefore)
  rintro opened queries ⟨sure, fitsOpened⟩
  cases opened with
  | none =>
      apply Scan.Meets.pure
      exact ⟨by simpa using sure, fun vals len absent => by cases absent⟩
  | some opened =>
      apply Scan.Meets.bind (voiceValues_fits params (fitsOpened opened rfl))
      rintro values more ⟨sureMore, fitsValues⟩
      cases values with
      | none =>
          apply Scan.Meets.pure
          exact ⟨by simpa using ⟨sure, sureMore⟩, fun vals len absent => by cases absent⟩
      | some values =>
          obtain ⟨vals, len⟩ := values
          apply Scan.Meets.bind (bracket_fits (fitsValues vals len rfl) softAfter)
          rintro closed rest ⟨sureRest, fitsClosed⟩
          have all : AllSure opensCommand text (queries ++ (more ++ (rest ++ []))) := by
            simpa using ⟨sure, sureMore, sureRest⟩
          cases closed with
          | none =>
              apply Scan.Meets.pure
              exact ⟨all, fun vals len absent => by cases absent⟩
          | some closed =>
              apply Scan.Meets.pure
              refine ⟨all, ?_⟩
              rintro vals total same
              cases same
              have last := fitsClosed closed rfl
              omega

theorem setVoiceParams_fits {cmd : List UInt8} {params : List VoiceParam}
    {before after : Option UInt8} (inside : place ≤ text.length)
    (softBefore : ∀ c ∈ before, Soft opensCommand [c])
    (softAfter : ∀ c ∈ after, Soft opensCommand [c]) :
    (setVoiceParams board c place cmd params before after).Meets text fun reply queries =>
      Fits text place reply.1 queries := by
  refine question_meets inside ?_ ?_ ?_
  · exact fun _ => fits_failed
  · exact fun early _ sure => fits_of early sure
  intro early queries sure
  apply Scan.Meets.bind (meets_mark early (by decide))
  rintro listed more ⟨sureMore, found⟩
  cases listed with
  | some mark =>
      apply Scan.Meets.pure
      exact fits_of (found mark rfl).1 (by simpa using ⟨sure, sureMore⟩)
  | none =>
      apply Scan.Meets.bind (voiceList_fits early softBefore softAfter)
      rintro values rest ⟨sureRest, fits⟩
      cases values with
      | none => exact Scan.Meets.pure fits_failed
      | some values =>
          obtain ⟨vals, len⟩ := values
          apply Scan.Meets.pure
          refine fits_of ?_ (by simpa using ⟨sure, sureMore, sureRest⟩)
          have last := fits vals len rfl
          dsimp only
          omega

theorem modemVoiceCommand_ret (cmd : VoiceCmd) : (c.modemVoiceCommand board cmd).2 ≠ 0 := by
  unfold Console.modemVoiceCommand
  cases cmd with
  | stateDuplex => exact fun zero => by cases zero
  | stateRx | stateTx | beep | dtmf =>
      dsimp only
      split
      · exact fun zero => by cases zero
      · exact fun zero => by cases zero

theorem voiceSetting_fits {cmd : List UInt8} {params : List VoiceParam}
    {store : List Nat → VoiceInfo → VoiceInfo} (inside : place + 2 ≤ text.length) :
    (voiceSetting board c place cmd params store).Meets text (Fits text place) := by
  apply Scan.Meets.bind (setVoiceParams_fits inside (by simp) (by simp))
  rintro ⟨sub, vals⟩ queries fits
  apply Scan.Meets.pure
  intro accepted
  obtain ⟨used, sure⟩ := fits accepted
  refine ⟨?_, by simpa using sure⟩
  dsimp only at used ⊢
  omega

theorem playTone_fits {tones : List VoiceTone} (inside : place ≤ text.length)
    (soft : ∀ tone ∈ tones, (∀ c ∈ tone.before, Soft opensCommand [c]) ∧
      ∀ c ∈ tone.after, Soft opensCommand [c]) :
    (playTone board c place tones).Meets text fun sub _ => sub.ret ≠ 0 := by
  induction tones with
  | nil =>
      apply Scan.Meets.pure
      exact fun accepted => by cases accepted
  | cons tone rest ih =>
      obtain ⟨first, others⟩ := List.forall_mem_cons.mp soft
      apply Scan.Meets.bind (setVoiceParams_fits inside first.1 first.2)
      rintro ⟨sub, vals⟩ queries -
      dsimp only
      split
      · apply Scan.Meets.pure
        exact modemVoiceCommand_ret tone.cmd
      · exact ih others

theorem listed_fits (inside : place ≤ text.length) :
    (listed place).Meets text fun _ queries => AllSure opensCommand text queries := by
  apply Scan.Meets.bind (meets_mark inside (by decide))
  rintro first queries ⟨sure, found⟩
  cases first with
  | none => exact Scan.Meets.pure (by simpa using sure)
  | some kind =>
      obtain ⟨early, -⟩ := found kind rfl
      dsimp only
      split
      · exact Scan.Meets.pure (by simpa using sure)
      · apply Scan.Meets.bind (meets_mark early (by decide))
        rintro second more ⟨sureMore, -⟩
        exact Scan.Meets.pure (by simpa using ⟨sure, sureMore⟩)

theorem voiceTones_soft : ∀ tone ∈ voiceTones c, (∀ c ∈ tone.before, Soft opensCommand [c]) ∧
    ∀ c ∈ tone.after, Soft opensCommand [c] := by
  simp only [voiceTones, List.forall_mem_cons, Option.mem_def, Option.some.injEq, forall_eq']
  refine ⟨⟨by decide, by decide⟩, ⟨by decide, by decide⟩, ?_, ?_⟩
  · exact ⟨by simp, by simp⟩
  · intro tone absent
    cases absent

theorem processVTS_fits (inside : place + 2 ≤ text.length) :
    (processVTS board c place).Meets text (Fits text place) := by
  apply Scan.Meets.bind (listed_fits inside)
  rintro shows queries sure
  dsimp only
  split
  · apply Scan.Meets.bind (setVoiceParams_fits inside (by simp) (by simp))
    rintro ⟨sub, vals⟩ more fits
    apply Scan.Meets.pure
    intro accepted
    obtain ⟨used, sureMore⟩ := fits accepted
    refine ⟨?_, by simpa using ⟨sure, sureMore⟩⟩
    dsimp only at used ⊢
    omega
  · apply (playTone_fits inside voiceTones_soft).imp
    intro sub more refused accepted
    exact absurd accepted refused

theorem processVLS_fits (inside : place + 2 ≤ text.length) :
    (processVLS board c place).Meets text (Fits text place) := by
  apply Scan.Meets.bind (setVoiceParams_fits inside (by simp) (by simp))
  rintro ⟨sub, vals⟩ queries fits
  dsimp only
  split
  · rename_i refused
    apply Scan.Meets.pure
    exact fun accepted => absurd accepted refused
  · rename_i accepted
    apply Scan.Meets.pure
    obtain ⟨used, sure⟩ := fits (not_not.mp accepted)
    refine fits_of ?_ (by simpa using sure)
    dsimp only at used ⊢
    omega

theorem voiceState_fits (cmd : VoiceCmd) :
    (voiceState board c cmd).Meets text (Fits text place) := by
  apply Scan.Meets.pure
  exact fun accepted => absurd accepted (modemVoiceCommand_ret cmd)

theorem select_fits {size : Nat} {cases : List (List UInt8 × Reading Sub)} {other : Reading Sub}
    {firsts : UInt8 → Bool} (inside : place ≤ text.length)
    (keys : ∀ key ∈ cases.map Prod.fst, key.length = size ∧ 0 ∉ key ∧ key.head?.any firsts = true)
    (actions : place + size ≤ text.length →
      ∀ entry ∈ cases, entry.2.Meets text (Fits text place))
    (refused : other.Meets text fun sub _ => sub.ret ≠ 0) :
    (select place cases other).Meets text fun sub queries => sub.ret = 0 →
      place + sub.len ≤ text.length ∧ AllSure opensCommand text queries ∧
        place + size ≤ text.length ∧
        ∃ c, firsts c = true ∧ (text.drop place).head?.map upper = some c := by
  induction cases with
  | nil =>
      apply refused.imp
      intro sub queries refused accepted
      exact absurd accepted refused
  | cons entry rest ih =>
      obtain ⟨key, action⟩ := entry
      obtain ⟨⟨sized, noZero, opens⟩, others⟩ := List.forall_mem_cons.mp keys
      dsimp only at sized noZero opens
      obtain ⟨first, head, opens⟩ := (Option.any_eq_true firsts key.head?).mp opens
      apply Scan.Meets.bind (meets_keyword inside noZero)
      rintro found queries ⟨holds, fails⟩
      cases found with
      | true =>
          obtain ⟨whole, sure, stands⟩ := holds rfl
          rw [sized] at whole
          apply (actions whole (key, action) List.mem_cons_self).imp
          intro sub more fits accepted
          obtain ⟨used, sureMore⟩ := fits accepted
          refine ⟨used, ?_, whole, first, opens, stands first head⟩
          rw [allSure_append]
          exact ⟨sure, sureMore⟩
      | false =>
          apply (ih others fun whole entry member =>
            actions whole entry (List.mem_cons_of_mem _ member)).imp
          intro sub more fits accepted
          obtain ⟨used, sureMore, whole, stands⟩ := fits accepted
          refine ⟨used, ?_, whole, stands⟩
          rw [allSure_append]
          refine ⟨?_, sureMore⟩
          rcases fails rfl with sure | ⟨short, -⟩
          · exact sure
          · omega

theorem processVoiceCommand_fits (inside : place ≤ text.length) :
    (processVoiceCommand board c place).Meets text fun sub queries => sub.ret = 0 →
      place + sub.len ≤ text.length ∧ AllSure opensCommand text queries ∧
        place + 2 ≤ text.length ∧
        ∃ first, (first != ch 'C') = true ∧ (text.drop place).head?.map upper = some first := by
  refine select_fits inside ?_ ?_ ?_
  · have keys : ∀ key ∈ (voiceCommands board c place).map Prod.fst,
        key.length = 2 ∧ 0 ∉ key ∧ key.head?.any (· != ch 'C') = true := by
      simp only [voiceCommands, List.map_cons, List.map_nil]
      decide
    exact keys
  · intro whole
    simp only [voiceCommands, List.forall_mem_cons]
    refine ⟨?_, voiceSetting_fits whole, voiceSetting_fits whole, voiceSetting_fits whole,
      voiceSetting_fits whole, voiceSetting_fits whole, voiceSetting_fits whole,
      processVLS_fits whole, voiceState_fits _, voiceState_fits _, voiceState_fits _,
      processVTS_fits whole, ?_⟩
    · exact Scan.Meets.pure (fits_of whole allSure_nil)
    · intro entry absent
      cases absent
  · exact Scan.Meets.pure fun accepted => by cases accepted

theorem faxSilence_fits (cmd : FaxCmd) (inside : place + 3 ≤ text.length) :
    (faxSilence board c place cmd).Meets text (Fits text place) := by
  apply Scan.Meets.bind (meets_number 0 inside)
  rintro ⟨val, len⟩ queries ⟨sure, fits⟩
  dsimp only at fits ⊢
  split
  · exact Scan.Meets.pure fits_failed
  · apply Scan.Meets.pure
    refine fits_of ?_ (by simpa using sure)
    dsimp only [faxCommand]
    omega

theorem faxData_fits (cmd : FaxCmd) (inside : place + 3 ≤ text.length) :
    (faxData board c place cmd).Meets text (Fits text place) := by
  apply Scan.Meets.bind (meets_mark inside (by decide))
  rintro listed queries ⟨sure, found⟩
  cases listed with
  | some mark =>
      apply Scan.Meets.pure
      exact fits_of (found mark rfl).1 (by simpa using sure)
  | none =>
      apply Scan.Meets.bind (meets_number 0 inside)
      rintro ⟨val, len⟩ more ⟨sureMore, fits⟩
      dsimp only at fits ⊢
      split
      · exact Scan.Meets.pure fits_failed
      · apply Scan.Meets.pure
        refine fits_of ?_ (by simpa using ⟨sure, sureMore⟩)
        dsimp only [faxCommand]
        omega

theorem faxHdlc_fits (cmd : FaxCmd) (inside : place + 3 ≤ text.length) :
    (faxHdlc board c place cmd).Meets text (Fits text place) := by
  apply Scan.Meets.bind (meets_mark inside (by decide))
  rintro value queries ⟨sure, found⟩
  cases value with
  | none => exact Scan.Meets.pure fits_failed
  | some value =>
      obtain ⟨early, -⟩ := found value rfl
      have all : AllSure opensCommand text (queries ++ []) := by simpa using sure
      dsimp only
      split
      · exact Scan.Meets.pure (fits_of early all)
      · exact Scan.Meets.pure (fits_of early all)

theorem processFaxCommand_fits (inside : place ≤ text.length) :
    (processFaxCommand board c place).Meets text fun sub queries => sub.ret = 0 →
      place + sub.len ≤ text.length ∧ AllSure opensCommand text queries ∧
        place + 3 ≤ text.length ∧
        ∃ first, (first != ch 'C') = true ∧ (text.drop place).head?.map upper = some first := by
  refine select_fits inside ?_ ?_ ?_
  · have keys : ∀ key ∈ (faxCommands board c place).map Prod.fst,
        key.length = 3 ∧ 0 ∉ key ∧ key.head?.any (· != ch 'C') = true := by
      simp only [faxCommands, List.map_cons, List.map_nil]
      decide
    exact keys
  · intro whole
    simp only [faxCommands, List.forall_mem_cons]
    refine ⟨faxSilence_fits _ whole, faxSilence_fits _ whole, faxData_fits _ whole,
      faxData_fits _ whole, faxHdlc_fits _ whole, faxHdlc_fits _ whole, ?_⟩
    intro entry absent
    cases absent
  · exact Scan.Meets.pure fun accepted => by cases accepted

end Parsers

/-! ### The switches -/

section Switches

variable {text : List UInt8} {place : Nat} {board : Board} {c : Console} {ret : Int}

theorem keeps_returns {queries : List (Nat × Query)} :
    Keeps text (.returns c ret) queries := by
  intro sub same
  cases same

theorem keeps_breakAt {queries : List (Nat × Query)} {sub : Sub}
    (fits : Fits text place sub queries) : Keeps text (breakAt place sub) queries := by
  intro other same accepted
  cases same
  obtain ⟨used, sure⟩ := fits accepted
  exact ⟨by dsimp only; omega, sure⟩

theorem parsed_keeps {parser : Board → Console → Nat → Reading Sub}
    (fits : (parser board c place).Meets text (Fits text place)) :
    (parsed parser board c ret place).Meets text (Keeps text) := by
  apply Scan.Meets.bind fits
  intro sub queries fits
  apply Scan.Meets.pure
  apply keeps_breakAt
  intro accepted
  simpa using fits accepted

theorem switch_keeps {cases : List (UInt8 × Handler)} (inside : place ≤ text.length)
    (noZero : 0 ∉ cases.map Prod.fst)
    (each : ∀ entry ∈ cases, place + 1 ≤ text.length →
      (text.drop place).head?.map upper = some entry.1 →
      (entry.2 board c ret (place + 1)).Meets text (Keeps text)) :
    (switch cases board c ret place).Meets text (Keeps text) := by
  apply Scan.Meets.bind (meets_command inside noZero)
  rintro key queries ⟨sure, found⟩
  cases key with
  | none => exact Scan.Meets.pure keeps_returns
  | some key =>
      obtain ⟨early, -, stands⟩ := found key rfl
      dsimp only
      cases chosen : cases.lookup key with
      | none => exact Scan.Meets.pure keeps_returns
      | some handler =>
          have member : (key, handler) ∈ cases := by
            obtain ⟨before, after, rfl, -⟩ := List.lookup_eq_some_iff.mp chosen
            exact List.mem_append_right before List.mem_cons_self
          apply (each _ member early stands).imp
          intro passed more keeps sub same accepted
          obtain ⟨used, sureMore⟩ := keeps sub same accepted
          refine ⟨used, ?_⟩
          rw [allSure_append]
          exact ⟨sure early, sureMore⟩

theorem sregCommand_keeps (num low hi : Nat) (inside : place ≤ text.length) :
    (sregCommand num low hi board c ret place).Meets text (Keeps text) :=
  parsed_keeps (setSreg_fits num low hi inside)

theorem silent_keeps {act : Board → Console → Sub} (inside : place ≤ text.length)
    (short : (act board c).len = 0) :
    (parsed (fun board c _ => pure (act board c)) board c ret place).Meets text (Keeps text) := by
  apply parsed_keeps
  apply Scan.Meets.pure
  exact fits_of (by omega) allSure_nil

theorem ignored_keeps (inside : place ≤ text.length) :
    (ignored board c ret place).Meets text (Keeps text) := by
  apply parsed_keeps
  apply Scan.Meets.bind (meets_digit inside)
  rintro digit queries ⟨sure, fits⟩
  apply Scan.Meets.pure
  exact fits_of fits (by simpa using sure)

theorem starB_keeps (inside : place ≤ text.length) :
    (starB board c ret place).Meets text (Keeps text) := by
  apply Scan.Meets.pure
  exact keeps_breakAt (fits_of inside allSure_nil)

theorem backslashA_keeps (inside : place ≤ text.length) :
    (backslashA board c ret place).Meets text (Keeps text) := by
  apply Scan.Meets.bind (meets_digit inside)
  rintro digit queries ⟨sure, fits⟩
  apply Scan.Meets.pure
  exact keeps_breakAt (fits_of fits (by simpa using sure))

theorem keeps_append {queries rest : List (Nat × Query)} {passed : Passed}
    (sure : AllSure opensCommand text queries) (keeps : Keeps text passed rest) :
    Keeps text passed (queries ++ rest) := by
  intro sub same accepted
  obtain ⟨used, sureRest⟩ := keeps sub same accepted
  refine ⟨used, ?_⟩
  rw [allSure_append]
  exact ⟨sure, sureRest⟩

/-- `AT+M` skips a character; that is the zero byte when the command ends there. -/
theorem plusM_keeps (inside : place ≤ text.length) (more : ret = 0 → place < text.length) :
    (plusM board c ret place).Meets text (Keeps text) := by
  apply Scan.Meets.bind (meets_command inside (by decide))
  rintro reply queries ⟨sure, found⟩
  cases reply with
  | none =>
      apply Scan.Meets.pure
      apply keeps_breakAt
      intro accepted
      have early := more accepted
      exact ⟨early, by simpa using sure early⟩
  | some s =>
      obtain ⟨early, -, -⟩ := found s rfl
      apply (parsed_keeps (processPlusMS_fits early)).imp
      exact fun passed rest => keeps_append (sure early)

/-- What an accepted sub-command that does not begin with `opens` has asked. -/
def KeepsOther (text : List UInt8) (place : Nat) (opens : UInt8) (passed : Passed)
    (queries : List (Nat × Query)) : Prop :=
  ∀ sub, passed = .breaks sub → sub.ret = 0 → sub.len ≤ text.length ∧
    AllSure opensCommand text queries ∧
    ∃ first, (first != opens) = true ∧ (text.drop place).head?.map upper = some first

theorem keyword_keeps {key : List UInt8} {opens : UInt8} {taken other : Reading Passed}
    (inside : place ≤ text.length) (head : key.head? = some opens) (noZero : 0 ∉ key)
    (takes : place + key.length ≤ text.length → taken.Meets text (Keeps text))
    (others : other.Meets text (KeepsOther text place opens)) :
    Meets text (keyword key place >>= fun found => if found = true then taken else other)
      (Keeps text) := by
  apply Scan.Meets.bind (meets_keyword inside noZero)
  rintro found queries ⟨holds, fails⟩
  cases found with
  | true =>
      obtain ⟨whole, sure, -⟩ := holds rfl
      apply (takes whole).imp
      exact fun passed rest => keeps_append sure
  | false =>
      apply others.imp
      intro passed rest keeps sub same accepted
      obtain ⟨used, sureRest, first, different, stands⟩ := keeps sub same accepted
      refine ⟨by omega, ?_⟩
      rw [allSure_append]
      refine ⟨?_, sureRest⟩
      rcases fails rfl with sure | ⟨-, atEnd | begins⟩
      · exact sure
      · rw [List.drop_eq_nil_of_le (Nat.le_of_eq atEnd.symm)] at stands
        cases stands
      · rw [begins opens head] at stands
        rw [Option.some.inj stands] at different
        simp at different

theorem keepsOther_failed {opens : UInt8} {queries : List (Nat × Query)} :
    KeepsOther text place opens (breakAt place (Sub.failed c)) queries := by
  intro sub same accepted
  cases same
  cases accepted

theorem parsed_keepsOther {parser : Board → Console → Nat → Reading Sub} {size : Nat}
    {opens : UInt8}
    (fits : (parser board c place).Meets text fun sub queries => sub.ret = 0 →
      place + sub.len ≤ text.length ∧ AllSure opensCommand text queries ∧
        place + size ≤ text.length ∧
        ∃ first, (first != opens) = true ∧ (text.drop place).head?.map upper = some first) :
    (parsed parser board c ret place).Meets text (KeepsOther text place opens) := by
  apply Scan.Meets.bind fits
  intro sub queries fits
  apply Scan.Meets.pure
  intro other same accepted
  cases same
  obtain ⟨used, sure, -, stands⟩ := fits accepted
  exact ⟨used, by simpa using sure, stands⟩

theorem hashCommand_keeps (inside : place ≤ text.length) :
    (hashCommand board c ret place).Meets text (Keeps text) := by
  refine keyword_keeps inside rfl (by decide) ?_ ?_
  · exact fun whole => parsed_keeps (processCID_fits whole)
  · exact Scan.Meets.pure keepsOther_failed

theorem plusI_keeps (inside : place ≤ text.length) :
    (plusI board c ret place).Meets text (Keeps text) := by
  refine keyword_keeps inside rfl (by decide) ?_ ?_
  · exact fun whole => Scan.Meets.pure (keeps_breakAt (fits_of whole allSure_nil))
  · exact Scan.Meets.pure keepsOther_failed

theorem plusF_keeps (inside : place ≤ text.length) :
    (plusF board c ret place).Meets text (Keeps text) := by
  refine keyword_keeps inside rfl (by decide) ?_ ?_
  · exact fun whole => parsed_keeps (processPlusFCLASS_fits whole)
  · exact parsed_keepsOther (processFaxCommand_fits inside)

theorem plusV_keeps (inside : place ≤ text.length) :
    (plusV board c ret place).Meets text (Keeps text) := by
  unfold plusV
  split
  · exact Scan.Meets.pure keeps_returns
  · refine keyword_keeps inside rfl (by decide) ?_ ?_
    · exact fun whole => parsed_keeps (processCID_fits whole)
    · exact parsed_keepsOther (processVoiceCommand_fits inside)

theorem processD_keeps (inside : place ≤ text.length) :
    Meets text (processD board c place >>= fun result => pure (returnWith result))
      (Keeps text) := by
  have finishes : (processD board c place).Meets text fun _ _ => True := by
    apply Scan.Meets.bind (meets_command inside (by decide))
    rintro kind queries -
    cases kind with
    | none =>
        apply Scan.Meets.bind (meets_copy 128 inside)
        intro number more _
        exact Scan.Meets.pure trivial
    | some kind =>
        dsimp only
        split
        · exact Scan.Meets.pure trivial
        · apply Scan.Meets.bind (meets_copy 128 inside)
          intro number more _
          exact Scan.Meets.pure trivial
  apply Scan.Meets.bind finishes
  intro result queries _
  exact Scan.Meets.pure keeps_returns

theorem processZ_keeps (inside : place ≤ text.length) :
    Meets text (processZ board c place >>= fun result => pure (returnWith result))
      (Keeps text) := by
  have finishes : (processZ board c place).Meets text fun _ _ => True := by
    apply Scan.Meets.bind (meets_mark inside (by decide))
    intro profile queries _
    exact Scan.Meets.pure trivial
  apply Scan.Meets.bind finishes
  intro result queries _
  exact Scan.Meets.pure keeps_returns

/-- `+M` with nothing behind it. -/
def EndsWithM (text : List UInt8) : Prop := text.map upper = word ['+', 'M']

instance (text : List UInt8) : Decidable (EndsWithM text) := by
  unfold EndsWithM
  infer_instance

theorem endsWithM_of {text : List UInt8} (plus : (text.drop 0).head?.map upper = some (ch '+'))
    (m : (text.drop 1).head?.map upper = some (ch 'M')) (short : text.length ≤ 2) :
    EndsWithM text := by
  rcases text with _ | ⟨first, _ | ⟨second, _ | ⟨third, rest⟩⟩⟩
  · cases plus
  · cases m
  · have firstEq := Option.some.inj plus
    have secondEq := Option.some.inj m
    simp only [EndsWithM, List.map_cons, List.map_nil, firstEq, secondEq]
    rfl
  · simp only [List.length_cons] at short
    omega

theorem percent_keeps (inside : place ≤ text.length) :
    (switch percentCases board c ret place).Meets text (Keeps text) := by
  apply switch_keeps inside (by decide)
  simp only [percentCases, List.forall_mem_cons]
  refine ⟨fun early _ => sregCommand_keeps _ _ _ early,
    fun early _ => sregCommand_keeps _ _ _ early, ?_⟩
  intro entry absent
  cases absent

theorem ampersand_keeps (inside : place ≤ text.length) :
    (switch ampersandCases board c ret place).Meets text (Keeps text) := by
  apply switch_keeps inside (by decide)
  simp only [ampersandCases, List.forall_mem_cons]
  refine ⟨fun early _ => sregCommand_keeps _ _ _ early,
    fun early _ => sregCommand_keeps _ _ _ early, fun early _ => ignored_keeps early,
    fun early _ => ignored_keeps early, fun early _ => ignored_keeps early,
    fun early _ => sregCommand_keeps _ _ _ early, fun early _ => ignored_keeps early,
    fun early _ => sregCommand_keeps _ _ _ early, fun early _ => sregCommand_keeps _ _ _ early,
    fun early _ => sregCommand_keeps _ _ _ early, fun early _ => silent_keeps early rfl,
    fun early _ => silent_keeps early rfl, ?_⟩
  intro entry absent
  cases absent

theorem plusG_keeps (inside : place ≤ text.length) :
    (switch plusGCases board c ret place).Meets text (Keeps text) := by
  apply switch_keeps inside (by decide)
  simp only [plusGCases, List.forall_mem_cons]
  refine ⟨?_, ?_, ?_⟩
  · intro early _
    apply switch_keeps early (by decide)
    simp only [List.forall_mem_cons]
    refine ⟨fun before _ => parsed_keeps (processPlusGCI_fits before), ?_⟩
    intro entry absent
    cases absent
  · intro early _
    apply switch_keeps early (by decide)
    simp only [List.forall_mem_cons]
    refine ⟨fun before _ => silent_keeps before rfl, fun before _ => silent_keeps before rfl,
      fun before _ => silent_keeps before rfl, ?_⟩
    intro entry absent
    cases absent
  · intro entry absent
    cases absent

theorem backslash_keeps (inside : place ≤ text.length) :
    (switch backslashCases board c ret place).Meets text (Keeps text) := by
  apply switch_keeps inside (by decide)
  simp only [backslashCases, List.forall_mem_cons]
  refine ⟨fun early _ => backslashA_keeps early, fun early _ => sregCommand_keeps _ _ _ early, ?_⟩
  intro entry absent
  cases absent

theorem plus_keeps (begins : (text.drop 0).head?.map upper = some (ch '+'))
    (more : ret = 0 → ¬ EndsWithM text) (inside : 1 ≤ text.length) :
    (switch plusCases board c ret 1).Meets text (Keeps text) := by
  apply switch_keeps inside (by decide)
  simp only [plusCases, List.forall_mem_cons]
  refine ⟨fun early _ => plusG_keeps early, fun early _ => plusF_keeps early,
    fun early _ => plusI_keeps early, ?_, fun early _ => plusV_keeps early, ?_⟩
  · intro early stands
    apply plusM_keeps early
    intro accepted
    by_contra short
    exact more accepted (endsWithM_of begins stands (Nat.le_of_not_lt short))
  · intro entry absent
    cases absent

theorem pass_keeps (more : ret = 0 → ¬ EndsWithM text) :
    (pass board c ret).Meets text (Keeps text) := by
  apply switch_keeps (Nat.zero_le _) (by decide)
  simp only [commandCases, List.forall_mem_cons]
  refine ⟨fun _ _ => Scan.Meets.pure keeps_returns, fun early _ => silent_keeps early rfl,
    fun early _ => processD_keeps early, fun early _ => sregCommand_keeps _ _ _ early,
    fun early _ => parsed_keeps (processH_fits early),
    fun early _ => parsed_keeps (processI_fits early),
    fun early _ => sregCommand_keeps _ _ _ early, fun early _ => sregCommand_keeps _ _ _ early,
    fun early _ => sregCommand_keeps _ _ _ early, fun early _ => silent_keeps early rfl,
    fun early _ => silent_keeps early rfl, fun early _ => sregCommand_keeps _ _ _ early,
    fun early _ => parsed_keeps (processS_fits early), fun early _ => silent_keeps early rfl,
    fun early _ => sregCommand_keeps _ _ _ early, fun early _ => sregCommand_keeps _ _ _ early,
    fun early _ => sregCommand_keeps _ _ _ early, fun early _ => processZ_keeps early,
    fun early _ => hashCommand_keeps early, fun early _ => percent_keeps early,
    fun early _ => ampersand_keeps early, ?_, ?_, fun early _ => backslash_keeps early, ?_⟩
  · intro early _
    apply switch_keeps early (by decide)
    simp only [List.forall_mem_cons]
    refine ⟨fun before _ => starB_keeps before, ?_⟩
    intro entry absent
    cases absent
  · exact fun early begins => plus_keeps begins more early
  · intro entry absent
    cases absent

end Switches

end DModem.At
