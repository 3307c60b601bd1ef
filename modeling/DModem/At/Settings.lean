/-
The calls of a command.

Every sub-command but A, D and O only changes settings, and leaves the number that was typed
last.  A, D and O end the command, with the answer of their call as its result.
-/

import DModem.At.Compose

namespace DModem.Modem

def Call.isSetting : Call → Bool
  | .answer | .dial | .online => false
  | _ => true

def answers (m : Modem) (device : Device) : Call → Bool
  | .answer => (m.modemAnswer device).2
  | .dial => (m.modemDial device).2
  | .online => m.modemOnline.2
  | _ => true

def AtLine.AllSettings (line : AtLine) : Prop := ∀ made ∈ line.calls, made.1.isSetting = true

def AtLine.andThen (line later : AtLine) : AtLine :=
  { calls := line.calls ++ later.calls, ret := later.ret }

/-- Settings, and at the end perhaps a call whose answer is the result. -/
inductive AtLine.Made (m : Modem) : AtLine → Prop
  | settings {line : AtLine} (each : line.AllSettings) : Made m line
  | last {line : AtLine} {final : Call} {device : Device} (each : line.AllSettings)
      (connects : final.isSetting = false) :
      Made m (line.andThen
        { calls := [(final, device)]
          ret := if (m.processAtCommand line).answers device final then 1 else -1 })

def Sets (m m' : Modem) : Prop :=
  ∃ line : AtLine, line.AllSettings ∧ m.processAtCommand line = m'

def Makes (m m' : Modem) (ret : Int) : Prop :=
  ∃ line : AtLine, line.Made m ∧ m.processAtCommand line = m' ∧ line.ret = ret

section Lines

variable {m m' m'' : Modem}

theorem AtLine.AllSettings.andThen {line later : AtLine} (first : line.AllSettings)
    (second : later.AllSettings) : (line.andThen later).AllSettings := by
  intro made member
  cases List.mem_append.mp member with
  | inl early => exact first made early
  | inr late => exact second made late

theorem process_andThen (m : Modem) (line later : AtLine) :
    m.processAtCommand (line.andThen later) =
      (m.processAtCommand line).processAtCommand later :=
  List.foldl_append

theorem AtLine.andThen_assoc (line later last : AtLine) :
    (line.andThen later).andThen last = line.andThen (later.andThen last) := by
  unfold AtLine.andThen
  rw [List.append_assoc]

theorem AtLine.Made.andThen {line later : AtLine} (first : line.AllSettings)
    (made : later.Made (m.processAtCommand line)) : (line.andThen later).Made m := by
  cases made with
  | settings each => exact .settings (first.andThen each)
  | @last settings final device each connects =>
      rw [← AtLine.andThen_assoc, ← process_andThen]
      exact .last (first.andThen each) connects

theorem Sets.refl : m.Sets m :=
  ⟨{ calls := [], ret := 0 }, fun _ absent => absurd absent List.not_mem_nil, rfl⟩

theorem Sets.call (device : Device) {made : Call} (setting : made.isSetting = true) :
    m.Sets (m.call device made) := by
  refine ⟨{ calls := [(made, device)], ret := 0 }, ?_, rfl⟩
  intro other member
  rw [List.mem_singleton.mp member]
  exact setting

theorem Sets.trans (first : m.Sets m') (second : m'.Sets m'') : m.Sets m'' := by
  obtain ⟨line, each, rfl⟩ := first
  obtain ⟨later, eachLater, rfl⟩ := second
  exact ⟨line.andThen later, each.andThen eachLater, process_andThen m line later⟩

theorem Sets.makes (sets : m.Sets m') (ret : Int) : m.Makes m' ret := by
  obtain ⟨line, each, same⟩ := sets
  exact ⟨{ calls := line.calls, ret := ret }, .settings each, same, rfl⟩

theorem Sets.andThen {ret : Int} (sets : m.Sets m') (makes : m'.Makes m'' ret) :
    m.Makes m'' ret := by
  obtain ⟨line, each, rfl⟩ := sets
  obtain ⟨later, made, rfl, rfl⟩ := makes
  exact ⟨line.andThen later, .andThen each made, process_andThen m line later, rfl⟩

theorem makes_last (device : Device) (final : Call) (connects : final.isSetting = false) :
    m.Makes (m.call device final) (if m.answers device final then 1 else -1) := by
  have none : AtLine.AllSettings { calls := [], ret := 0 } :=
    fun _ absent => absurd absent List.not_mem_nil
  exact ⟨_, .last none connects, rfl, rfl⟩

end Lines

end DModem.Modem

namespace DModem.At

open DModem.Lib DModem.Lib.Reading DModem.Modem

/-! ### Sub-commands that change settings -/

structure Settles (c c' : Console) : Prop where
  number : c'.dialString = c.dialString
  sets : c.modem.Sets c'.modem

def Passed.console : Passed → Console
  | .returns console _ => console
  | .breaks sub => sub.console

def SettlesAll (c : Console) (parser : Reading Sub) : Prop :=
  parser.Yields fun sub => Settles c sub.console

def Handler.Settles (handler : Handler) : Prop :=
  ∀ board c ret place,
    (handler board c ret place).Yields fun passed => At.Settles c passed.console

section Settings

variable {board : Board} {c c' c'' : Console} {place : Nat}

theorem settles_same (modem : c'.modem = c.modem) (number : c'.dialString = c.dialString) :
    Settles c c' := by
  constructor
  · exact number
  · rw [modem]
    exact Sets.refl

theorem settles_refl : Settles c c := settles_same rfl rfl

theorem settles_failed : Settles c (Sub.failed c).console := settles_refl

theorem sets_call (board : Board) (made : Call) (setting : made.isSetting = true) :
    c.modem.Sets (c.call board made).modem := Sets.call _ setting

theorem settles_call {made : Call} (setting : made.isSetting = true) :
    Settles c (c.call board made) := ⟨rfl, sets_call board made setting⟩

theorem Settles.trans (first : Settles c c') (second : Settles c' c'') : Settles c c'' :=
  ⟨second.number.trans first.number, first.sets.trans second.sets⟩

theorem settles_foldl {α : Type} {step : Console → α → Console}
    (each : ∀ c item, Settles c (step c item)) (items : List α) (c : Console) :
    Settles c (items.foldl step c) := by
  induction items generalizing c with
  | nil => exact settles_refl
  | cons item items ih => exact (each c item).trans (ih (step c item))

theorem settles_send (bytes : List UInt8) : Settles c (c.sendToTty board bytes) :=
  settles_call rfl

theorem settles_crlf : Settles c (c.sendCrlf board) := settles_send _

theorem settles_line (bytes : List UInt8) : Settles c (c.sendLine board bytes) :=
  (settles_send bytes).trans settles_crlf

theorem settles_sreg (num val : Nat) : Settles c (c.modemSetSreg board num val) :=
  settles_call rfl

theorem settles_homolog (id : Nat) : Settles c (c.modemHomologInit board id).1 := by
  unfold Console.modemHomologInit
  split
  · exact settles_refl
  · rename_i set _
    have named : Settles c { c with homolog := set } := settles_same rfl rfl
    exact named.trans ((settles_sreg _ _).trans (settles_sreg _ _))

theorem settles_reset : Settles c (c.modemReset board) := by
  unfold Console.modemReset
  have reset : Settles c (c.call board .reset) := settles_call rfl
  have rates : Settles (c.call board .reset)
      { c.call board .reset with minRate := modemMinRate, maxRate := modemMaxRate } :=
    settles_same rfl rfl
  exact (reset.trans rates).trans (settles_homolog _)

theorem question_settles {shown : Sub} {set : Reading Sub} (shows : Settles c shown.console)
    (sets : SettlesAll c set) :
    SettlesAll c (question place (Sub.failed c) shown set) := by
  apply Scan.yields_bind
  intro kind
  cases kind with
  | none => exact settles_failed
  | some kind =>
      dsimp only
      split
      · exact shows
      · exact sets

theorem setSreg_settles (num low hi : Nat) : SettlesAll c (setSreg board c place num low hi) := by
  apply Scan.yields_bind
  intro digit
  dsimp only
  split
  · exact settles_sreg _ _
  · exact settles_failed

theorem hook_settles (hookState : Hook) (len : Nat) :
    Settles c (hook board c hookState len).console := settles_call rfl

theorem processH_settles : SettlesAll c (processH board c place) := by
  apply Scan.yields_bind
  intro state
  cases state with
  | none =>
      apply Scan.yields_bind
      intro digit
      cases digit with
      | none => exact hook_settles .on 0
      | some digit => exact settles_failed
  | some state =>
      dsimp only
      split
      · exact hook_settles .off 1
      · apply Scan.yields_bind
        intro digit
        cases digit with
        | none => exact hook_settles .on 1
        | some digit => exact settles_failed

theorem sregTexts_settles : Settles c (sregTexts board c) := by
  unfold sregTexts
  refine (settles_foldl ?_ _ c).trans settles_crlf
  intro c i
  dsimp only
  split
  · exact (settles_send _).trans settles_crlf
  · exact settles_send _

theorem information_settles (number : Nat) :
    ∀ after ∈ information board c number, Settles c after := by
  unfold information
  dsimp only
  intro after shown
  split_ifs at shown
  · cases shown
    exact settles_line _
  · cases shown
    exact ((settles_send _).trans (settles_send _)).trans
      ((settles_line _).trans (settles_line _))
  · cases shown
    exact (settles_line _).trans (settles_line _)
  · cases shown
    exact sregTexts_settles
  · cases shown
    exact settles_line _
  · cases shown
    exact settles_line _
  · cases shown
    exact (settles_send _).trans (settles_line _)
  · cases shown

theorem processI_settles : SettlesAll c (processI board c place) := by
  apply Scan.yields_bind
  rintro ⟨value, len⟩
  dsimp only
  cases shown : information board c value with
  | none => exact settles_failed
  | some after => exact information_settles value after shown

theorem processS_settles : SettlesAll c (processS board c place) := by
  apply Scan.yields_bind
  rintro ⟨num, len⟩
  dsimp only
  split
  · exact settles_failed
  · apply Scan.yields_bind
    intro kind
    cases kind with
    | none => exact settles_failed
    | some kind =>
        dsimp only
        split
        · exact settles_line _
        · exact Scan.yields_bind _ fun _ => settles_sreg _ _

theorem gciTexts_settles : Settles c (gciTexts board c) := by
  unfold gciTexts
  dsimp only
  refine Settles.trans ?_ (settles_line _)
  refine Settles.trans ?_ (settles_foldl (fun _ _ => settles_send _) _ _)
  exact (settles_send _).trans (settles_send _)

theorem processPlusGCI_settles : SettlesAll c (processPlusGCI board c place) := by
  apply question_settles
  · exact (settles_send _).trans (settles_line _)
  · apply Scan.yields_bind
    intro asked
    cases asked with
    | some asked => exact gciTexts_settles
    | none =>
        apply Scan.yields_bind
        rintro ⟨id, len⟩
        dsimp only
        split
        · exact settles_failed
        · exact settles_homolog id

theorem sends_settles (parts : List (List UInt8)) :
    Settles c (parts.foldl (fun c part => c.sendToTty board part) c) :=
  settles_foldl (fun _ => settles_send) parts c

theorem msTexts_settles : Settles c (msTexts board c) := by
  unfold msTexts
  dsimp only
  exact ((settles_send _).trans (sends_settles _)).trans
    (((settles_send _).trans (settles_send _)).trans (settles_line _))

theorem setupMs_settles (items : List Nat) (len : Nat) :
    Settles c (setupMs board c items len).console := by
  unfold setupMs
  dsimp only
  split_ifs
  · exact settles_failed
  · exact settles_failed
  · have registers : Settles c ((c.modemSetSreg board sregDp (items.getD 0 0)).modemSetSreg board
        sregAutomode (asInt (items.getD 1 0)).toNat) :=
      (settles_sreg _ _).trans (settles_sreg _ _)
    exact ⟨registers.number, registers.sets⟩

theorem processPlusMS_settles : SettlesAll c (processPlusMS board c place) := by
  apply question_settles
  · exact settles_line _
  · apply Scan.yields_bind
    intro asked
    cases asked with
    | some asked => exact msTexts_settles
    | none => exact Scan.yields_bind _ fun _ => setupMs_settles _ _

theorem processPlusFCLASS_settles : SettlesAll c (processPlusFCLASS board c place) := by
  apply question_settles
  · exact settles_line _
  · apply Scan.yields_bind
    intro value
    cases value with
    | none => exact settles_failed
    | some value =>
        dsimp only
        split
        · exact ((settles_send _).trans (settles_send _)).trans (settles_line _)
        · cases modeOf value with
          | none => exact settles_failed
          | some mode => exact settles_call rfl

theorem processCID_settles : SettlesAll c (processCID board c place) := by
  apply question_settles
  · exact settles_line _
  · apply Scan.yields_bind
    intro value
    cases value with
    | none => exact settles_failed
    | some value =>
        dsimp only
        split
        · exact settles_line _
        · exact ⟨rfl, sets_call board (.setCid _) rfl⟩

/-! ### Voice and fax -/

theorem settles_mark (mark : Option UInt8) (c : Console) :
    Settles c (mark.elim c fun mark => c.sendToTty board [mark]) := by
  cases mark with
  | none => exact settles_refl
  | some mark => exact settles_send [mark]

theorem voiceText_settles (cmd : List UInt8) (before after : Option UInt8)
    (items : List (List UInt8)) :
    Settles c (voiceText board cmd before after items c) := by
  unfold voiceText
  refine Settles.trans ?_ settles_crlf
  refine Settles.trans ?_ (settles_mark after _)
  refine Settles.trans ?_ (sends_settles _)
  exact (settles_send _).trans (settles_mark before _)

theorem setVoiceParams_settles (cmd : List UInt8) (params : List VoiceParam)
    (before after : Option UInt8) :
    (setVoiceParams board c place cmd params before after).Yields
      fun reply => Settles c reply.1.console := by
  apply Scan.yields_bind
  intro kind
  cases kind with
  | none => exact settles_failed
  | some kind =>
      dsimp only
      split
      · exact voiceText_settles cmd before after _
      · apply Scan.yields_bind
        intro asked
        cases asked with
        | some asked => exact voiceText_settles cmd before after _
        | none =>
            apply Scan.yields_bind
            intro found
            cases found with
            | none => exact settles_failed
            | some found => exact settles_refl

theorem voiceSetting_settles (cmd : List UInt8) (params : List VoiceParam)
    (store : List Nat → VoiceInfo → VoiceInfo) :
    SettlesAll c (voiceSetting board c place cmd params store) := by
  apply Scan.Yields.bind (setVoiceParams_settles cmd params none none)
  rintro ⟨sub, vals⟩ settled
  cases vals with
  | none => exact settled
  | some vals => exact ⟨settled.number, settled.sets⟩

theorem voiceCommand_settles (board : Board) (cmd : VoiceCmd) :
    Settles c (c.modemVoiceCommand board cmd).1 := by
  unfold Console.modemVoiceCommand
  cases cmd with
  | stateDuplex => exact settles_refl
  | _ =>
      dsimp only
      split
      · exact settles_call rfl
      · exact settles_refl

theorem playTone_settles (tones : List VoiceTone) :
    SettlesAll c (playTone board c place tones) := by
  induction tones with
  | nil => exact settles_failed
  | cons tone tones ih =>
      apply Scan.Yields.bind (setVoiceParams_settles _ _ _ _)
      rintro ⟨sub, vals⟩ settled
      dsimp only
      split
      · cases vals with
        | none => exact settled.trans (voiceCommand_settles board tone.cmd)
        | some vals =>
            have stored : Settles c
                { sub.console with voiceInfo := tone.store vals sub.console.voiceInfo } :=
              ⟨settled.number, settled.sets⟩
            exact stored.trans (voiceCommand_settles board tone.cmd)
      · exact ih

theorem processVTS_settles : SettlesAll c (processVTS board c place) := by
  apply Scan.yields_bind
  intro asked
  cases asked with
  | true =>
      apply Scan.Yields.bind (setVoiceParams_settles _ _ _ _)
      rintro ⟨sub, vals⟩ settled
      exact settled
  | false => exact playTone_settles (voiceTones c)

theorem processVLS_settles : SettlesAll c (processVLS board c place) := by
  apply Scan.Yields.bind (setVoiceParams_settles _ _ _ _)
  rintro ⟨sub, vals⟩ settled
  dsimp only
  split
  · exact settled
  · exact settled.trans (settles_call rfl)

theorem select_settles {entries : List (List UInt8 × Reading Sub)} {other : Reading Sub}
    (each : ∀ entry ∈ entries, SettlesAll c entry.2) (otherwise : SettlesAll c other) :
    SettlesAll c (select place entries other) := by
  induction entries with
  | nil => exact otherwise
  | cons entry entries ih =>
      apply Scan.yields_bind
      intro found
      cases found with
      | true => exact each entry List.mem_cons_self
      | false => exact ih fun later member => each later (List.mem_cons_of_mem entry member)

theorem processVoiceCommand_settles : SettlesAll c (processVoiceCommand board c place) := by
  apply select_settles
  · unfold voiceCommands
    simp only [List.forall_mem_cons, List.not_mem_nil, false_implies, implies_true, and_true]
    exact ⟨settles_same rfl rfl, voiceSetting_settles _ _ _, voiceSetting_settles _ _ _,
      voiceSetting_settles _ _ _, voiceSetting_settles _ _ _, voiceSetting_settles _ _ _,
      voiceSetting_settles _ _ _, processVLS_settles, voiceCommand_settles board .stateTx,
      voiceCommand_settles board .stateRx, voiceCommand_settles board .stateDuplex,
      processVTS_settles⟩
  · exact settles_failed

theorem faxCommand_settles (cmd : FaxCmd) (val len : Nat) :
    Settles c (faxCommand board c cmd val len).console := settles_same rfl rfl

theorem faxSilence_settles (cmd : FaxCmd) : SettlesAll c (faxSilence board c place cmd) := by
  apply Scan.yields_bind
  rintro ⟨val, len⟩
  dsimp only
  split
  · exact settles_failed
  · exact faxCommand_settles cmd _ _

theorem faxData_settles (cmd : FaxCmd) : SettlesAll c (faxData board c place cmd) := by
  apply Scan.yields_bind
  intro asked
  cases asked with
  | some asked => exact settles_line _
  | none =>
      apply Scan.yields_bind
      rintro ⟨val, len⟩
      dsimp only
      split
      · exact settles_failed
      · exact faxCommand_settles cmd _ _

theorem faxHdlc_settles (cmd : FaxCmd) : SettlesAll c (faxHdlc board c place cmd) := by
  apply Scan.yields_bind
  intro value
  cases value with
  | none => exact settles_failed
  | some value =>
      dsimp only
      split
      · exact settles_line _
      · exact faxCommand_settles cmd _ _

theorem processFaxCommand_settles : SettlesAll c (processFaxCommand board c place) := by
  apply select_settles
  · unfold faxCommands
    simp only [List.forall_mem_cons, List.not_mem_nil, false_implies, implies_true, and_true]
    exact ⟨faxSilence_settles .fts, faxSilence_settles .frs, faxData_settles .ftm,
      faxData_settles .frm, faxHdlc_settles .frh, faxHdlc_settles .fth⟩
  · exact settles_failed

/-! ### Cases of the switch -/

theorem parsed_settles {parser : Board → Console → Nat → Reading Sub}
    (settles : ∀ board c place, SettlesAll c (parser board c place)) :
    Handler.Settles (parsed parser) := by
  intro board c _ place
  apply Scan.Yields.bind (settles board c place)
  intro sub settled
  exact settled

theorem sregCommand_settles (num low hi : Nat) : Handler.Settles (sregCommand num low hi) :=
  parsed_settles fun _ _ _ => setSreg_settles num low hi

theorem ignored_settles : Handler.Settles ignored :=
  parsed_settles fun _ _ _ => Scan.yields_bind _ fun _ => settles_refl

theorem sendText_settles (bytes : Board → List UInt8) : Handler.Settles (sendText bytes) :=
  parsed_settles fun _ _ _ => settles_line _

theorem switch_settles {cases : List (UInt8 × Handler)}
    (each : ∀ entry ∈ cases, Handler.Settles entry.2) : Handler.Settles (switch cases) := by
  intro board c ret place
  apply Scan.yields_bind
  intro key
  cases key with
  | none => exact settles_refl
  | some key =>
      dsimp only
      cases chosen : cases.lookup key with
      | none => exact settles_refl
      | some handler =>
          obtain ⟨before, after, rfl, -⟩ := List.lookup_eq_some_iff.mp chosen
          exact each (key, handler) (List.mem_append_right before List.mem_cons_self) board c ret
            (place + 1)

theorem backslashA_settles : Handler.Settles backslashA := by
  intro board c ret place
  exact Scan.yields_bind _ fun _ => settles_refl

theorem plusM_settles : Handler.Settles plusM := by
  intro board c ret place
  apply Scan.yields_bind
  intro found
  cases found with
  | none => exact settles_refl
  | some found =>
      exact parsed_settles (fun _ _ _ => processPlusMS_settles) board c ret (place + 1)

theorem hashCommand_settles : Handler.Settles hashCommand := by
  intro board c ret place
  apply Scan.yields_bind
  intro found
  cases found with
  | false => exact settles_refl
  | true => exact parsed_settles (fun _ _ _ => processCID_settles) board c ret (place + 3)

theorem plusF_settles : Handler.Settles plusF := by
  intro board c ret place
  apply Scan.yields_bind
  intro found
  cases found with
  | false => exact parsed_settles (fun _ _ _ => processFaxCommand_settles) board c ret place
  | true => exact parsed_settles (fun _ _ _ => processPlusFCLASS_settles) board c ret (place + 5)

theorem plusI_settles : Handler.Settles plusI := by
  intro board c ret place
  apply Scan.yields_bind
  intro found
  cases found with
  | false => exact settles_refl
  | true => exact settles_refl

theorem plusV_settles : Handler.Settles plusV := by
  intro board c ret place
  unfold plusV
  split
  · exact settles_refl
  · apply Scan.yields_bind
    intro found
    cases found with
    | false => exact parsed_settles (fun _ _ _ => processVoiceCommand_settles) board c ret place
    | true => exact parsed_settles (fun _ _ _ => processCID_settles) board c ret (place + 3)

theorem plusG_settles : Handler.Settles (switch plusGCases) := by
  apply switch_settles
  unfold plusGCases
  simp only [List.forall_mem_cons, List.not_mem_nil, false_implies, implies_true, and_true]
  constructor
  · apply switch_settles
    simp only [List.forall_mem_cons, List.not_mem_nil, false_implies, implies_true, and_true]
    exact parsed_settles fun _ _ _ => processPlusGCI_settles
  · apply switch_settles
    simp only [List.forall_mem_cons, List.not_mem_nil, false_implies, implies_true, and_true]
    exact ⟨sendText_settles _, sendText_settles _, sendText_settles _⟩

theorem plus_settles : Handler.Settles (switch plusCases) := by
  apply switch_settles
  unfold plusCases
  simp only [List.forall_mem_cons, List.not_mem_nil, false_implies, implies_true, and_true]
  exact ⟨plusG_settles, plusF_settles, plusI_settles, plusM_settles, plusV_settles⟩

theorem percent_settles : Handler.Settles (switch percentCases) := by
  apply switch_settles
  unfold percentCases
  simp only [List.forall_mem_cons, List.not_mem_nil, false_implies, implies_true, and_true]
  exact ⟨sregCommand_settles _ _ _, sregCommand_settles _ _ _⟩

theorem ampersand_settles : Handler.Settles (switch ampersandCases) := by
  apply switch_settles
  unfold ampersandCases
  simp only [List.forall_mem_cons, List.not_mem_nil, false_implies, implies_true, and_true]
  exact ⟨sregCommand_settles _ _ _, sregCommand_settles _ _ _, ignored_settles, ignored_settles,
    ignored_settles, sregCommand_settles _ _ _, ignored_settles, sregCommand_settles _ _ _,
    sregCommand_settles _ _ _, sregCommand_settles _ _ _, parsed_settles fun _ _ _ => settles_refl,
    parsed_settles fun _ _ _ => settles_refl⟩

theorem backslash_settles : Handler.Settles (switch backslashCases) := by
  apply switch_settles
  unfold backslashCases
  simp only [List.forall_mem_cons, List.not_mem_nil, false_implies, implies_true, and_true]
  exact ⟨backslashA_settles, sregCommand_settles _ _ _⟩

theorem fixedSreg_settles (num val : Nat) : Handler.Settles (fixedSreg num val) :=
  parsed_settles fun _ _ _ => settles_sreg _ _

theorem processB_settles : Settles c (processB board c) := by
  have registers : Settles c
      ((c.modemSetSreg board sregDp dpV22).modemSetSreg board sregAutomode 0) :=
    (settles_sreg _ _).trans (settles_sreg _ _)
  exact ⟨registers.number, registers.sets⟩

theorem processZ_settles :
    (processZ board c place).Yields fun result => Settles c result.1 :=
  Scan.yields_bind _ fun _ => settles_reset

/-! ### A, D and O -/

def Passed.ret : Passed → Int
  | .returns _ ret => ret
  | .breaks sub => sub.ret

def Passed.Connects (c : Console) (passed : Passed) : Prop :=
  c.modem.Makes passed.console.modem passed.ret ∧ ∀ sub, passed = .breaks sub → sub.ret ≠ 0

def Handler.Connects (handler : Handler) : Prop :=
  ∀ board c ret place, (handler board c ret place).Yields (Passed.Connects c)

def Handler.LeavesNumber (handler : Handler) : Prop :=
  ∀ board c ret place,
    (handler board c ret place).Yields fun passed => passed.console.dialString = c.dialString

theorem dial_makes {ready : Console} (sets : c.modem.Sets ready.modem) :
    c.modem.Makes (dial board ready).1.modem (dial board ready).2 :=
  sets.andThen (makes_last _ .dial rfl)

theorem connects_returns {result : Console × Int} (makes : c.modem.Makes result.1.modem result.2) :
    Passed.Connects c (returnWith result) := by
  refine ⟨makes, ?_⟩
  intro sub impossible
  cases impossible

theorem answer_connects :
    Handler.Connects fun board c _ _ => pure (returnWith (processA board c)) :=
  fun _ _ _ _ => connects_returns (makes_last _ .answer rfl)

def dialHandler : Handler := fun board c _ place => do
  let result ← processD board c place
  pure (returnWith result)

theorem dial_connects : Handler.Connects dialHandler := by
  intro board c ret place
  have makes : (processD board c place).Yields
      fun result => c.modem.Makes result.1.modem result.2 := by
    apply Scan.yields_bind
    intro modifier
    cases modifier with
    | none => exact Scan.yields_bind _ fun number => dial_makes Sets.refl
    | some kind =>
        dsimp only
        split
        · apply dial_makes
          exact ((settles_send _).trans ((settles_send _).trans (settles_line _))).sets
        · exact Scan.yields_bind _ fun number => dial_makes (sets_call board (.setSreg _ _) rfl)
  apply Scan.Yields.bind makes
  intro result made
  exact connects_returns made

theorem online_connects : Handler.Connects (parsed fun board c _ =>
    let result := processO board c
    pure { console := result.1, ret := result.2, len := 0 }) := by
  intro board c ret place
  refine ⟨makes_last (board.device c.calls) .online rfl, ?_⟩
  intro sub same
  cases same
  change (if c.modem.modemOnline.2 then (1 : Int) else -1) ≠ 0
  split
  · decide
  · decide

/-- Every letter but `A`, `D` and `O` changes settings, and only `D` takes another number. -/
theorem command_cases :
    ∀ entry ∈ commandCases, Handler.Settles entry.2 ∨
      Handler.Connects entry.2 ∧ (entry.1 = ch 'D' ∨ Handler.LeavesNumber entry.2) := by
  unfold commandCases
  simp only [List.forall_mem_cons, List.not_mem_nil, false_implies, implies_true, and_true]
  refine ⟨.inr ⟨answer_connects, .inr ?_⟩, .inl ?_, .inr ⟨dial_connects, .inl trivial⟩, .inl ?_,
    .inl ?_, .inl ?_, .inl ?_, .inl ?_, .inl ?_, .inr ⟨online_connects, .inr ?_⟩, .inl ?_,
    .inl ?_, .inl ?_, .inl ?_, .inl ?_, .inl ?_, .inl ?_, .inl ?_, .inl ?_, .inl ?_, .inl ?_,
    .inl ?_, .inl ?_, .inl ?_⟩
  · exact fun _ _ _ _ => rfl
  · exact parsed_settles fun _ _ _ => processB_settles
  · exact sregCommand_settles _ _ _
  · exact parsed_settles fun _ _ _ => processH_settles
  · exact parsed_settles fun _ _ _ => processI_settles
  · exact sregCommand_settles _ _ _
  · exact sregCommand_settles _ _ _
  · exact sregCommand_settles _ _ _
  · exact fun _ _ _ _ => rfl
  · exact fixedSreg_settles _ _
  · exact sregCommand_settles _ _ _
  · exact parsed_settles fun _ _ _ => processS_settles
  · exact fixedSreg_settles _ _
  · exact sregCommand_settles _ _ _
  · exact sregCommand_settles _ _ _
  · exact sregCommand_settles _ _ _
  · exact fun _ _ _ _ => Scan.Yields.bind processZ_settles fun _ settled => settled
  · exact hashCommand_settles
  · exact percent_settles
  · exact ampersand_settles
  · apply switch_settles
    simp only [List.forall_mem_cons, List.not_mem_nil, false_implies, implies_true, and_true]
    exact fun _ _ _ _ => settles_refl
  · exact plus_settles
  · exact backslash_settles

theorem pass_cases {ret : Int} {text : List UInt8} {first : UInt8} {passed : Passed}
    (stands : text.head? = some first)
    (ran : (pass board c ret).exec Query.answer text = some passed) :
    Settles c passed.console ∨
      passed.Connects c ∧ (upper first = ch 'D' ∨ passed.console.dialString = c.dialString) := by
  have here : (text.drop 0).head? = some first := stands
  cases chosen : commandCases.lookup (upper first) with
  | none =>
      rw [pass, exec_refused here chosen] at ran
      cases ran
      exact Or.inl settles_refl
  | some handler =>
      rw [pass, exec_letter here rfl chosen] at ran
      obtain ⟨before, after, split, -⟩ := List.lookup_eq_some_iff.mp chosen
      have member : (upper first, handler) ∈ commandCases := by
        rw [split]
        exact List.mem_append_right before List.mem_cons_self
      rcases command_cases _ member with settles | ⟨connects, number⟩
      · exact Or.inl ((settles board c ret 1).exec ran)
      · refine Or.inr ⟨(connects board c ret 1).exec ran, ?_⟩
        cases number with
        | inl letter => exact Or.inl letter
        | inr leaves => exact Or.inr ((leaves board c ret 1).exec ran)

/-! ### The command -/

theorem atLoop_makes {fuel : Nat} {text : List UInt8} {ret : Int} {run : Run}
    (ran : atLoop board fuel c text ret = some run) :
    c.modem.Makes run.console.modem run.ret := by
  induction fuel generalizing c text ret run with
  | zero => cases ran
  | succ fuel ih =>
      cases stands : text.head? with
      | none => simp [atLoop, stands] at ran
      | some first =>
          by_cases nonzero : first = 0
          · simp only [atLoop, stands, if_pos nonzero, Option.some.injEq] at ran
            rw [← ran]
            exact Sets.refl.makes 0
          · cases passed : (pass board c ret).exec Query.answer text with
            | none => simp [atLoop, stands, nonzero, passed] at ran
            | some result =>
                have made : c.modem.Makes result.console.modem result.ret ∧
                    ((∀ sub, result = .breaks sub → sub.ret ≠ 0) ∨
                      c.modem.Sets result.console.modem) := by
                  rcases pass_cases stands passed with settles | ⟨connects, -⟩
                  · exact ⟨settles.sets.makes _, Or.inr settles.sets⟩
                  · exact ⟨connects.1, Or.inl connects.2⟩
                cases result with
                | returns after value =>
                    rw [atLoop_returns stands nonzero passed] at ran
                    cases ran
                    exact made.1
                | breaks sub =>
                    by_cases accepted : sub.ret = 0
                    · rw [atLoop_accepts stands nonzero passed accepted] at ran
                      obtain ⟨rest, found, rfl⟩ := Option.map_eq_some_iff.mp ran
                      cases made.2 with
                      | inl ends => exact absurd accepted (ends sub rfl)
                      | inr sets =>
                          have later := ih found
                          exact sets.andThen later
                    · rw [atLoop_refuses stands nonzero passed accepted] at ran
                      cases ran
                      exact made.1

theorem processAtCommand_makes {text : List UInt8} {run : Run}
    (ran : processAtCommand board c text = some run) :
    c.modem.Makes run.console.modem run.ret := by
  unfold processAtCommand at ran
  cases first : text.head? with
  | none => rw [first] at ran; cases ran
  | some a =>
      rw [first] at ran
      simp only at ran
      split at ran
      · cases ran
        exact Sets.refl.makes (-1)
      · cases second : (text.drop 1).head? with
        | none => rw [second] at ran; cases ran
        | some t =>
            rw [second] at ran
            simp only at ran
            split at ran
            · cases ran
              exact Sets.refl.makes (-1)
            · exact atLoop_makes ran

end Settings

end DModem.At
