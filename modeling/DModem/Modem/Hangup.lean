/-
After a hang-up.

The data pump goes on for 48 samples and brings frames, ticks of the bit timer and its
status.  The status reports that they lead to do not look at the state, so that a link can
come up again.
-/

import DModem.Modem.Connect
import DModem.Modem.SessionRule

namespace DModem

namespace Desk

/-- What a hang-up leads to in the session that `d₀` belongs to. -/
def Down (d₀ d : Desk) : Prop :=
  (d.state = d₀.state ∨ d.state = .dpDisc ∨ d.state = .modemIdle) ∧ d.connects = d₀.connects ∧
    d.resultCode ≠ .connect

/-- The hang-up of `d₀` is final, unless `modem_start` was called since. -/
def Final (d₀ d : Desk) : Prop := d₀.starts ≤ d.starts ∧ (d.starts = d₀.starts → Down d₀ d)

section Final

variable {d₀ d d' : Desk}

theorem final_of (kept : Final d₀ d) (starts : d'.starts = d.starts)
    (down : Down d₀ d → Down d₀ d') : Final d₀ d' := by
  unfold Final
  rw [starts]
  exact ⟨kept.1, fun same => down (kept.2 same)⟩

theorem final_of_absurd (kept : Final d₀ d) (starts : d'.starts = d.starts)
    (other : d.starts = d₀.starts → False) : Final d₀ d' := by
  unfold Final
  rw [starts]
  exact ⟨kept.1, fun same => (other same).elim⟩

/-- After `modem_start` nothing more is asked. -/
theorem final_of_started (more : d₀.starts < d.starts) : Final d₀ d :=
  ⟨Nat.le_of_lt more, fun same => absurd same (by omega)⟩

theorem Down.at_rest (hung : d₀.state.disc = true) (down : Down d₀ d) :
    d.state = .modemIdle ∨ d.state = .dpDisc ∨ d.state = .ecDisc := by
  rcases down.1 with same | disc | idle
  · rw [same]
    revert hung
    cases d₀.state <;> decide
  · exact Or.inr (Or.inl disc)
  · exact Or.inl idle

theorem Down.not_online (hung : d₀.state.disc = true) (down : Down d₀ d)
    (online : d.state = .dpEstab ∨ d.state = .modemOnline ∨ d.state = .commandOnline) : False := by
  revert online
  rcases down.at_rest hung with idle | disc | disc
  · rw [idle]
    decide
  · rw [disc]
    decide
  · rw [disc]
    decide

theorem Down.hup (hung : d₀.state.disc = true) (down : Down d₀ d) (release : Bool) :
    Down d₀ (d.hup release) := by
  rcases hup_cases d release with ⟨_, same⟩ | ⟨_, same⟩ | ⟨busy, live, _⟩
  · rw [same]
    exact down
  · rw [same]
    exact ⟨Or.inr (Or.inl rfl), down.2⟩
  · rcases down.at_rest hung with idle | disc | disc
    · exact absurd idle busy
    · rw [disc] at live
      cases live
    · rw [disc] at live
      cases live

theorem starts_hup (d : Desk) (release : Bool) : (d.hup release).starts = d.starts := by
  rcases hup_cases d release with ⟨_, same⟩ | ⟨_, same⟩ | ⟨_, _, _, _, _, _, _, _, _, same⟩
  · rw [same]
  · rw [same]
  · rw [same]

theorem connects_hup (d : Desk) (release : Bool) : (d.hup release).connects = d.connects := by
  rcases hup_cases d release with ⟨_, same⟩ | ⟨_, same⟩ | ⟨_, _, _, _, _, _, _, _, _, same⟩
  · rw [same]
  · rw [same]
  · rw [same]

theorem Final.hup (kept : Final d₀ d) (hung : d₀.state.disc = true) (release : Bool) :
    Final d₀ (d.hup release) :=
  final_of kept (starts_hup d release) fun down => down.hup hung release

theorem Final.fail (kept : Final d₀ d) (hung : d₀.state.disc = true) {code : ModemResult}
    (other : code ≠ .connect) (release : Bool) : Final d₀ (d.fail code release) := by
  have told : Final d₀ { d with resultCode := code } :=
    final_of kept rfl fun down => ⟨down.1, down.2.1, other⟩
  exact told.hup hung release

variable (device : Device)

theorem Final.stop (kept : Final d₀ d) : Final d₀ (d.stop device) := by
  apply final_of kept (starts_stop d device)
  intro down
  have ended := Ended.stop d device
  refine ⟨Or.inr (Or.inr ended.state), (ended.connects down.2.2).trans down.2.1, ?_⟩
  rw [ended.resultCode]
  decide

theorem final_start (kept : Final d₀ d) : Final d₀ (d.start device).1 := by
  apply final_of_started
  rw [starts_start]
  exact Nat.lt_succ_of_le kept.1

theorem Final.idle (kept : Final d₀ d) : Final d₀ (d.setState .modemIdle) := by
  rcases setState_frame d .modemIdle with ⟨_, _, _, same⟩
  rw [same]
  exact final_of kept rfl fun down => ⟨Or.inr (Or.inr rfl), down.2⟩

theorem starts_setState (d : Desk) (newState : ModemState) :
    (d.setState newState).starts = d.starts := by
  rcases setState_frame d newState with ⟨_, _, _, same⟩
  rw [same]

theorem starts_link (d : Desk) : d.link.starts = d.starts := starts_setState d .modemOnline

theorem Final.online (kept : Final d₀ d) (hung : d₀.state.disc = true) : Final d₀ d.online := by
  unfold Desk.online
  split
  · exact kept
  · rename_i escaped
    exact final_of_absurd kept (starts_link d) fun same =>
      (kept.2 same).not_online hung (Or.inr (Or.inr (not_not.mp escaped)))

theorem finalSession (hung : d₀.state.disc = true) : SessionSafe (Final d₀) where
  edit := by
    intro d d' kept state code connects starts
    apply final_of kept starts
    unfold Down
    rw [state, code, connects]
    exact id
  hup := fun release kept => kept.hup hung release
  stop := fun device kept => kept.stop device
  start := fun device kept => final_start device kept
  idle := fun kept => kept.idle

def Relinked (d₀ d : Desk) : Prop :=
  d.starts = d₀.starts → Down d₀ d ∨ d₀.connects < d.connects

theorem Relinked.fail (kept : Relinked d₀ d) (hung : d₀.state.disc = true) {code : ModemResult}
    (other : code ≠ .connect) (release : Bool) : Relinked d₀ (d.fail code release) := by
  intro same
  rw [Desk.fail, starts_hup] at same
  rcases kept same with down | more
  · have told : Down d₀ { d with resultCode := code } := ⟨down.1, down.2.1, other⟩
    exact Or.inl (told.hup hung release)
  · right
    rw [Desk.fail, connects_hup]
    exact more

theorem Relinked.link (kept : Relinked d₀ d) : Relinked d₀ d.link := by
  rcases link_eq d with ⟨_, _, _, same⟩
  rw [same]
  intro starts
  right
  rcases kept starts with down | more
  · exact Nat.lt_succ_of_le (Nat.le_of_eq down.2.1.symm)
  · exact Nat.lt_succ_of_lt more

end Final

end Desk

namespace Modem

/-! ### Links -/

/-- The step makes the link come up again: a frame that LAPM reports a link for, the end of
a detection without error correction, or a data pump that connects while the modem is
idle. -/
def LinksAgain (m : Modem) : Event → Prop
  | .frame f _ => m.pumps = true ∧ m.reportsLink f ≠ none
  | .tick bits =>
      m.pumps = true ∧ m.bitsExpire bits = true ∧ m.bitTimerFunc = some .detectorFinish ∧
        m.detector.ecEnable = false
  | .dpStat .connect _ => m.pumps = true ∧ m.state = .modemIdle
  | _ => False

def InDataMode (m : Modem) : Prop :=
  m.mode = .data ∧ m.process ≠ some .voice ∧ m.process ≠ some .fax

/-- What the hang-up of `m₀` asks of a step in data mode. -/
def StaysDown (m₀ m : Modem) (event : Event) : Prop :=
  m.InDataMode ∧ (m.starts = m₀.starts → ¬ m.LinksAgain event)

theorem pumps_iff {m : Modem} : m.pumps = true ↔ m.desk.Pumps := by
  rw [pumps, Bool.and_eq_true, Option.isSome_iff_ne_none]
  exact Iff.rfl

theorem rxComplete_outer (m : Modem) (f : Hdlc.Frame) (chars : Chars) :
    (m.lapmRxComplete f chars).starts = m.starts ∧
      (m.lapmRxComplete f chars).connects =
        m.connects + if m.reportsLink f = none then 0 else 1 := by
  have outer := outer_rxComplete m f chars
  have starts := congrArg Outer.starts outer
  have connects := congrArg Outer.connects outer
  unfold outerAfter at starts connects
  cases reported : m.reportsLink f with
  | none =>
      rw [reported] at starts connects
      exact ⟨starts, connects⟩
  | some phase =>
      rw [reported] at starts connects
      exact ⟨starts, connects⟩

theorem final_frame {d₀ : Desk} (hung : d₀.state.disc = true) {m : Modem}
    (kept : Desk.Final d₀ m.desk) (pumps : m.desk.Pumps) (f : Hdlc.Frame) (chars : Chars)
    (quiet : m.starts = d₀.starts → m.reportsLink f = none) :
    Desk.Final d₀ (m.lapmRxComplete f chars).desk := by
  rcases rxComplete_outer m f chars with ⟨starts, connects⟩
  -- a link that was reported would show in the count
  have safe := lapmSafe_of (P := Desk.Relinked d₀) (fun _ _ kept _ => kept)
    (fun _ release kept other => kept.fail hung other release) (fun kept _ => kept.link)
  have relinked : Desk.Relinked d₀ m.desk := fun same => Or.inl (kept.2 same)
  have after := (safe.rxComplete ⟨relinked, pumps⟩ f chars).1
  constructor
  · change d₀.starts ≤ (m.lapmRxComplete f chars).starts
    rw [starts]
    exact kept.1
  · intro same
    have before : m.starts = d₀.starts := starts.symm.trans same
    rw [if_pos (quiet before)] at connects
    rcases after same with down | more
    · exact down
    · have counted : m.connects = d₀.connects := (kept.2 before).2.1
      have more' : d₀.connects < (m.lapmRxComplete f chars).connects := more
      omega

theorem finalSafe {m₀ : Modem} (hung : m₀.desk.state.disc = true) :
    StepSafe (Desk.Final m₀.desk) (StaysDown m₀) (fun _ _ _ => True) := by
  apply stepSafe_of_session (Desk.finalSession hung)
  · exact fun _ release kept other => kept.fail hung other release
  · exact fun kept => kept.online hung
  · intro d kept online
    exact Desk.final_of_absurd kept (Desk.starts_setState d .commandOnline) fun same =>
      (kept.2 same).not_online hung (Or.inr (Or.inl online))
  · intro m f chars kept pumps fine
    apply final_frame hung kept pumps
    intro same
    by_contra reported
    exact fine.2 same ⟨pumps_iff.mpr pumps, reported⟩
  · intro m bits kept pumps fine expires func plain
    exact Desk.final_of_absurd kept (Desk.starts_link _) fun same =>
      fine.2 same ⟨pumps_iff.mpr pumps, expires, func, plain⟩
  · intro m device kept pumps fine open_
    have other : m.desk.starts = m₀.desk.starts → False := by
      intro same
      rcases open_ with idle | calling
      · exact fine.2 same ⟨pumps_iff.mpr pumps, idle⟩
      · exact (kept.2 same).not_online hung (Or.inl calling)
    have begun := Desk.starts_setState m.desk .ecEstab
    exact ⟨Desk.final_of_absurd kept begun other,
      Desk.final_of_absurd kept ((Desk.starts_link _).trans begun) other⟩
  · intro m status device _ fine voice
    rw [processes, Bool.and_eq_true, decide_eq_true_eq] at voice
    exact absurd voice.2 fine.1.2.1
  · intro m ret device _ fine fax
    rw [processes, Bool.and_eq_true, decide_eq_true_eq] at fax
    exact absurd fax.2 fine.1.2.2

/-! ### Runs -/

/-- Until `modem_start` is called, the hang-up of `m₀` is final and nothing reports CONNECT. -/
def HangupFinal (m₀ : Modem) (events : List Event) : Prop :=
  ∀ before, before <+: events → (m₀.blockRun before).starts = m₀.starts →
    ((m₀.blockRun before).state = m₀.state ∨ (m₀.blockRun before).state = .dpDisc ∨
      (m₀.blockRun before).state = .modemIdle) ∧
    (m₀.blockRun before).connects = m₀.connects

/-- Until `modem_start` is called, no step makes a link come up again. -/
def NeverLinksAgain (m₀ : Modem) (events : List Event) : Prop :=
  ∀ before event, before ++ [event] <+: events → (m₀.blockRun before).starts = m₀.starts →
    ¬ (m₀.blockRun before).LinksAgain event

def AlwaysInDataMode (m₀ : Modem) (events : List Event) : Prop :=
  ∀ before, before <+: events → (m₀.blockRun before).InDataMode

theorem prefix_of_snoc {events : List Event} {before : List Event} {event : Event}
    (within : before ++ [event] <+: events) : before <+: events :=
  (List.prefix_append before [event]).trans within

theorem final_blockRun {m₀ : Modem} (hung : m₀.state.disc = true)
    (unconnected : m₀.resultCode ≠ .connect) {events : List Event}
    (mode : m₀.AlwaysInDataMode events) (quiet : m₀.NeverLinksAgain events) :
    ∀ before, before <+: events → Desk.Final m₀.desk (m₀.blockRun before).desk := by
  intro before
  induction before using List.reverseRecOn with
  | nil =>
      intro _
      exact ⟨Nat.le_refl _, fun _ => ⟨Or.inl rfl, rfl, unconnected⟩⟩
  | append_singleton before event ih =>
      intro within
      have earlier := prefix_of_snoc within
      rw [blockRun_snoc]
      exact (finalSafe hung).blockStep event (ih earlier) ⟨mode before earlier, quiet before event within⟩

theorem detectorFinish_plain (m : Modem) (plain : m.detector.ecEnable = false) :
    (m.detectorFinish).desk = (m.desk.pack .async 0 none).link := by
  unfold detectorFinish modemUpdateStatus packLink
  simp only [plain, Bool.false_eq_true, if_false]
  rw [desk_ecLink]
  rfl

theorem shows_of_link {m m' : Modem} {d : Desk} (linked : m'.desk = d.link)
    (starts : d.starts = m.starts) (connects : d.connects = m.connects) :
    m'.starts = m.starts ∧ m'.connects = m.connects + 1 := by
  rcases Desk.link_eq d with ⟨_, _, _, same⟩
  rw [same] at linked
  constructor
  · exact (congrArg Desk.starts linked).trans starts
  · exact (congrArg Desk.connects linked).trans (congrArg (· + 1) connects)

theorem linksAgain_shows (m : Modem) (event : Event) (again : m.LinksAgain event) :
    (m.blockStep event).starts = m.starts ∧
      ((m.blockStep event).connects = m.connects + 1 ∨ (m.blockStep event).state = .ecEstab ∨
        (m.blockStep event).state = .modemOnline) := by
  unfold LinksAgain at again
  unfold blockStep
  cases event with
  | frame f chars =>
      rw [if_pos (show m.OccursInBlock (.frame f chars) = true from again.1)]
      rcases rxComplete_outer m f chars with ⟨starts, connects⟩
      rw [if_neg again.2] at connects
      exact ⟨starts, Or.inl connects⟩
  | tick bits =>
      rcases again with ⟨pumps, expires, func, plain⟩
      rw [if_pos (show m.OccursInBlock (.tick bits) = true from pumps)]
      have finished : m.tickBits bits = detectorFinish { m with bitTimer := 0 } := by
        unfold tickBits runBitTimer
        rw [if_pos expires]
        simp only [func]
      have linked := detectorFinish_plain { m with bitTimer := 0 } plain
      rw [← finished] at linked
      rcases shows_of_link (m := m) linked rfl rfl with ⟨starts, connects⟩
      exact ⟨starts, Or.inl connects⟩
  | dpStat stat device =>
      cases stat with
      | connect =>
          rcases again with ⟨pumps, idle⟩
          rw [if_pos (show m.OccursInBlock (.dpStat .connect device) = true from pumps)]
          have returned : m.dpReturns .connect device = m.dpLink := by
            unfold dpReturns
            rw [idle]
            rfl
          have begun := Desk.starts_setState m.desk .ecEstab
          have counted : (m.desk.setState .ecEstab).connects = m.connects := by
            rcases Desk.setState_frame m.desk .ecEstab with ⟨_, _, _, same⟩
            rw [same]
            rfl
          change (m.dpReturns .connect device).starts = m.starts ∧ _
          rw [perform, returned]
          rcases desk_dpLink m (pumps_iff.mp pumps).2 with ⟨_, _, _, packed, _⟩ | linked
          · constructor
            · exact (congrArg Desk.starts packed).trans begun
            · right
              left
              rcases Desk.setState_frame m.desk .ecEstab with ⟨_, _, _, same⟩
              rw [same] at packed
              exact congrArg Desk.state packed
          · rcases shows_of_link (m := m) linked begun counted with ⟨starts, connects⟩
            exact ⟨starts, Or.inl connects⟩
      | ok | error | nodialtone | busy | noanswer | changedp | other => exact again.elim
  | hangup | write | escape | ringCheck | ring | ringDetectorStart | select | readFails | take
  | fetch | push | detect | receive | cidStatus | ringDetails | voiceStatus | faxStatus | samples =>
      exact again.elim

theorem unconnected_blockRun (events : List Event) :
    (modemCreate.blockRun events).desk.Unconnected := by
  induction events using List.reverseRecOn with
  | nil =>
      intro pending
      cases pending
  | append_singleton before event ih =>
      rw [blockRun_snoc]
      exact unconnectedSafe.blockStep event ih trivial

/-- In every run in data mode, the hang-up of a call is final exactly if no step makes a
link come up again before the next start. -/
theorem hangup_final_iff (before after : List Event) :
    let hung := modemCreate.blockRun before
    hung.state = .ecDisc ∨ hung.state = .dpDisc → hung.AlwaysInDataMode after →
    (hung.HangupFinal after ↔ hung.NeverLinksAgain after) := by
  intro hung down mode
  have disc : hung.state.disc = true ∧ hung.state ≠ .ecEstab ∧ hung.state ≠ .modemOnline := by
    rcases down with same | same
    · rw [same]
      decide
    · rw [same]
      decide
  constructor
  · intro final earlier event within session again
    have now := final earlier (prefix_of_snoc within) session
    have next := final (earlier ++ [event]) within
    rcases linksAgain_shows _ event again with ⟨starts, shown⟩
    rw [blockRun_snoc] at next
    rcases next (starts.trans session) with ⟨states, connects⟩
    rcases shown with reported | estab | online
    · have counted := now.2
      omega
    · rw [estab] at states
      rcases states with state | state | state
      · exact disc.2.1 state.symm
      · cases state
      · cases state
    · rw [online] at states
      rcases states with state | state | state
      · exact disc.2.2 state.symm
      · cases state
      · cases state
  · intro quiet earlier within session
    have final := final_blockRun disc.1 (unconnected_blockRun before) mode quiet earlier within
    rcases final.2 session with ⟨states, connects, _⟩
    exact ⟨states, connects⟩

def v34Device : Device := { obedient with dp := some .v34 }

def hungUpCall : List Event :=
  [.write [65, 84, 65, 13] 0 [{ calls := [(.answer, v34Device)], ret := 1 }],
    .samples 19200 v34Device, .dpStat .connect v34Device, .detect 0x7e, .tick 36,
    .frame sabmeFrame noChars, .hangup]

theorem prefix_singleton {α : Type*} {a : α} {before : List α} (within : before <+: [a]) :
    before = [] ∨ before = [a] := by
  rcases List.prefix_cons_iff.mp within with none | ⟨rest, same, nothing⟩
  · exact Or.inl none
  · rw [List.prefix_nil.mp nothing] at same
    exact Or.inr same

/-- The modem stops 48 samples later. -/
theorem hangup_final_stopped :
    (modemCreate.blockRun hungUpCall).HangupFinal [.samples 48 v34Device] := by
  have mode : (modemCreate.blockRun hungUpCall).AlwaysInDataMode [.samples 48 v34Device] := by
    intro before within
    unfold InDataMode
    rcases prefix_singleton within with rfl | rfl
    · decide +kernel
    · decide +kernel
  apply (hangup_final_iff hungUpCall [.samples 48 v34Device] (Or.inl (by decide +kernel)) mode).mpr
  intro before event within _ again
  rcases prefix_singleton within with none | same
  · exact absurd none (by simp)
  · have last : event = .samples 48 v34Device := by
      have whole := congrArg List.getLast? same
      simpa using whole
    rw [last] at again
    exact again

/-- The peer asks for a new link before the modem has stopped. -/
theorem hangup_undone_by_sabme :
    let hung := modemCreate.blockRun hungUpCall
    let again : List Event := [.frame sabmeFrame noChars]
    hung.state = .ecDisc ∧ hung.AlwaysInDataMode again ∧ ¬ hung.HangupFinal again ∧
      (hung.blockRun again).state = .modemOnline ∧
      (hung.blockRun again).connects = hung.connects + 1 := by
  intro hung again
  have online : (hung.blockRun again).state = .modemOnline := by decide +kernel
  refine ⟨by decide +kernel, ?_, ?_, online, by decide +kernel⟩
  · intro before within
    unfold InDataMode
    rcases prefix_singleton within with rfl | rfl
    · decide +kernel
    · decide +kernel
  · intro final
    rcases (final again (List.prefix_refl _) (by decide +kernel)).1 with same | disc | idle
    · rw [online] at same
      exact absurd same (by decide +kernel)
    · rw [online] at disc
      cases disc
    · rw [online] at idle
      cases idle

end Modem

end DModem
