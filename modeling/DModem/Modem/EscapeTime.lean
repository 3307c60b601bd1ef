/-
The escape sequence in time.

`modem_check_escape` keeps a counter and the time of the last write; the event that it
schedules is handled half a second later, before anything that is written then.  The
counter of an attempt that was broken off is only cleared by the next write, which is then
not taken as the beginning of a new attempt.
-/

import Mathlib.Data.List.Chain
import DModem.Modem.Run

namespace DModem.Modem

/-- `ESCAPE_TIMEOUT`. -/
def guardTime : Nat := modemHz / 2

structure TimedWrite where
  time : Nat
  bytes : List UInt8
  deriving DecidableEq, Repr

/-- The modem, with the time at which its event timer expires. -/
structure TimedModem where
  modem : Modem
  due : Option Nat

namespace TimedModem

def expire (c : TimedModem) (now : Nat) : TimedModem :=
  match c.due with
  | none => c
  | some due => if due ≤ now then { modem := c.modem.modemEscape, due := none } else c

/-- A write; `schedule_event` is called when the counter gets to three. -/
def write (c : TimedModem) (w : TimedWrite) : TimedModem :=
  let c := c.expire w.time
  let m := c.modem.modemWrite w.bytes (BitVec.ofNat 32 w.time) []
  { modem := m, due := if m.escapeCount = 3 then some (w.time + guardTime) else c.due }

def run (c : TimedModem) (writes : List TimedWrite) : TimedModem := writes.foldl write c

theorem run_append (c : TimedModem) (front back : List TimedWrite) :
    c.run (front ++ back) = (c.run front).run back := List.foldl_append

theorem run_concat (c : TimedModem) (front : List TimedWrite) (w : TimedWrite) :
    c.run (front ++ [w]) = (c.run front).write w := by
  rw [run_append]
  rfl

/-- The event at the time `due` puts the modem into command mode. -/
def EntersAt (c : TimedModem) (due : Nat) : Prop :=
  c.due = some due ∧ c.modem.modemEscape.state = .commandOnline

/-- Of these writes, those before the time `due` have set the event that is handled then, and
it puts the modem into command mode. -/
def Enters (c : TimedModem) (writes : List TimedWrite) (due : Nat) : Prop :=
  ∃ before after, writes = before ++ after ∧ (∀ w ∈ after.head?, due ≤ w.time) ∧
    (c.run before).EntersAt due

end TimedModem

/-! ### The escape sequence -/

/-- The time of the last write; `last` is that of the one before all of them. -/
def lastTime (last : Nat) (writes : List TimedWrite) : Nat :=
  (writes.getLast?.map TimedWrite.time).getD last

/-- Writes in the order of time, none empty, and none so late that the difference of the
32-bit times wraps. -/
def Ordered : Nat → List TimedWrite → Prop
  | _, [] => True
  | last, w :: rest =>
      last ≤ w.time ∧ w.time ≤ last + (2 ^ 31 + guardTime) ∧ w.bytes ≠ [] ∧ Ordered w.time rest

def written (writes : List TimedWrite) : Nat := (writes.map fun w => w.bytes.length).sum

/-- `run` is an attempt at the escape sequence after the writes `front`: escape characters
only, with a guard time before the first and less than that between its writes. -/
structure Attempt (esc : UInt8) (last : Nat) (front run : List TimedWrite) : Prop where
  nonempty : run ≠ []
  only : ∀ w ∈ run, ∀ ch ∈ w.bytes, ch = esc
  silence : ∀ w ∈ run.head?, lastTime last front + guardTime ≤ w.time
  close : run.IsChain fun first second => second.time < first.time + guardTime

/-- The writes end with three escape characters and the guard time before them; the time
for silence ends at `due`. -/
def Escapes (esc : UInt8) (last : Nat) (front run : List TimedWrite) (due : Nat) : Prop :=
  Attempt esc last front run ∧ written run = 3 ∧ due = lastTime last (front ++ run) + guardTime

/-- The escape sequence is among the writes, with nothing written for the guard time after
it. -/
def EscapeSequence (esc : UInt8) (last : Nat) (writes : List TimedWrite) (due : Nat) : Prop :=
  ∃ front run after, writes = front ++ run ++ after ∧ Escapes esc last front run due ∧
    ∀ w ∈ after.head?, due ≤ w.time

section Times

variable {last : Nat} {writes : List TimedWrite} {w : TimedWrite}

@[simp]
theorem lastTime_concat (last : Nat) (front : List TimedWrite) (w : TimedWrite) :
    lastTime last (front ++ [w]) = w.time := by
  simp [lastTime]

theorem lastTime_cons (last : Nat) (w : TimedWrite) (rest : List TimedWrite) :
    lastTime last (w :: rest) = lastTime w.time rest := by
  cases rest with
  | nil => rfl
  | cons next rest => simp [lastTime, List.getLast?_cons]

theorem ordered_concat (last : Nat) (front : List TimedWrite) (w : TimedWrite) :
    Ordered last (front ++ [w]) ↔ Ordered last front ∧ lastTime last front ≤ w.time ∧
      w.time ≤ lastTime last front + (2 ^ 31 + guardTime) ∧ w.bytes ≠ [] := by
  induction front generalizing last with
  | nil => simp [Ordered, lastTime]
  | cons first rest ih =>
      rw [List.cons_append, Ordered, ih, Ordered, lastTime_cons]
      tauto

theorem Ordered.nonempty (ordered : Ordered last writes) : ∀ w ∈ writes, w.bytes ≠ [] := by
  induction writes generalizing last with
  | nil =>
      intro w absent
      cases absent
  | cons first rest ih =>
      obtain ⟨-, -, some, later⟩ := ordered
      exact List.forall_mem_cons.mpr ⟨some, ih later⟩

theorem Ordered.le_lastTime (ordered : Ordered last writes) : last ≤ lastTime last writes := by
  induction writes generalizing last with
  | nil => exact Nat.le_refl last
  | cons first rest ih =>
      obtain ⟨after, -, -, later⟩ := ordered
      rw [lastTime_cons]
      exact Nat.le_trans after (ih later)

theorem Ordered.time_le (ordered : Ordered last writes) :
    ∀ w ∈ writes, w.time ≤ lastTime last writes := by
  induction writes generalizing last with
  | nil =>
      intro w absent
      cases absent
  | cons first rest ih =>
      obtain ⟨-, -, -, later⟩ := ordered
      rw [lastTime_cons]
      exact List.forall_mem_cons.mpr ⟨later.le_lastTime, ih later⟩

theorem written_concat (front : List TimedWrite) (w : TimedWrite) :
    written (front ++ [w]) = written front + w.bytes.length := by
  simp [written]

theorem written_pos {run : List TimedWrite} (some : run ≠ [])
    (nonempty : ∀ w ∈ run, w.bytes ≠ []) : 0 < written run := by
  cases run with
  | nil => exact absurd rfl some
  | cons w rest =>
      have long := List.length_pos_iff.mpr (nonempty w List.mem_cons_self)
      simp only [written, List.map_cons, List.sum_cons]
      omega

theorem timeBefore_ofNat {last now : Nat} (after : last ≤ now)
    (near : now ≤ last + (2 ^ 31 + guardTime)) :
    timeBefore (BitVec.ofNat 32 now) (BitVec.ofNat 32 last + escapeTimeout) =
      decide (now < last + guardTime) := by
  obtain ⟨gap, gapEq⟩ := Nat.exists_eq_add_of_le after
  have guard : guardTime = 50 := rfl
  rw [guard] at near ⊢
  unfold timeBefore
  rw [decide_eq_decide, BitVec.toInt_eq_toNat_cond, BitVec.toNat_sub, BitVec.toNat_add,
    BitVec.toNat_ofNat, BitVec.toNat_ofNat]
  simp only [escapeTimeout, BitVec.reduceToNat]
  subst gapEq
  split_ifs with low
  · omega
  · omega

/-- A `char` is equal to an ASCII escape character only if it is that character. -/
theorem charValue_eq_iff {esc : UInt8} (ascii : esc.toNat ≤ 127) (ch : UInt8) :
    charValue ch = esc.toNat ↔ ch = esc := by
  unfold charValue
  rw [BitVec.toInt_eq_toNat_cond, ← UInt8.toNat_inj]
  have bound := ch.toNat_lt
  change (if 2 * ch.toNat < 2 ^ 8 then (ch.toNat : Int) else ch.toNat - (2 ^ 8 : Nat)) = _ ↔ _
  split_ifs with low
  · omega
  · omega

end Times

/-! ### One write -/

/-- A modem that is online, with the counter and the time of the last write. -/
structure Online (esc : UInt8) (count last : Nat) (m : Modem) : Prop where
  state : m.state = .modemOnline
  command : m.command = false
  escapeChar : m.sregs sregEscapeChar = esc
  escapeCount : m.escapeCount = count
  lastEscCheck : m.lastEscCheck = BitVec.ofNat 32 last

/-- `goto noescape_out`. -/
def refuses (esc : UInt8) (count last : Nat) (w : TimedWrite) : Prop :=
  3 < w.bytes.length + count ∨ (∃ ch ∈ w.bytes, ch ≠ esc) ∨
    (if count = 0 then w.time < last + guardTime else last + guardTime ≤ w.time)

section Write

variable {esc : UInt8} {count last : Nat} {m : Modem} {w : TimedWrite}

theorem checkEscape_eq (online : Online esc count last m) (after : last ≤ w.time)
    (near : w.time ≤ last + (2 ^ 31 + guardTime)) (ascii : esc.toNat ≤ 127) :
    (refuses esc count last w →
      m.modemCheckEscape w.bytes (BitVec.ofNat 32 w.time) =
        { m with escapeCount := 0, lastEscCheck := BitVec.ofNat 32 w.time }) ∧
    (¬ refuses esc count last w →
      m.modemCheckEscape w.bytes (BitVec.ofNat 32 w.time) =
        { m with
          escapeCount := count + w.bytes.length
          escapeTimer := m.escapeTimer || decide (count + w.bytes.length = 3)
          lastEscCheck := BitVec.ofNat 32 w.time }) := by
  have condition : (3 < w.bytes.length + m.escapeCount ∨
      w.bytes.any (fun byte => charValue byte != (m.sregs sregEscapeChar).toNat) = true ∨
      (if m.escapeCount = 0 then
        timeBefore (BitVec.ofNat 32 w.time) (m.lastEscCheck + escapeTimeout)
      else !timeBefore (BitVec.ofNat 32 w.time) (m.lastEscCheck + escapeTimeout)) = true) ↔
      refuses esc count last w := by
    rw [online.escapeCount, online.escapeChar, online.lastEscCheck, timeBefore_ofNat after near]
    unfold refuses
    apply or_congr Iff.rfl
    apply or_congr
    · simp [charValue_eq_iff ascii]
    · by_cases none : count = 0
      · simp [none]
      · simp [none]
  unfold modemCheckEscape
  simp only
  constructor
  · intro refused
    rw [if_pos (condition.mpr refused)]
  · intro accepted
    rw [if_neg (fun met => accepted (condition.mp met)), online.escapeCount]

theorem modemWrite_online {now : BitVec 32} (state : m.state = .modemOnline)
    (command : m.command = false) (bytes : List UInt8)
    (kept : (m.modemCheckEscape bytes now).command = m.command) :
    m.modemWrite bytes now [] = (m.modemCheckEscape bytes now).queueBytes bytes := by
  have calm : m.state.connecting = false := by rw [state]; rfl
  unfold modemWrite
  rw [if_neg (by rw [calm]; exact Bool.false_ne_true)]
  simp only [if_pos state]
  generalize m.modemCheckEscape bytes now = checked at kept ⊢
  have online : ¬ (checked.command = true) := by
    rw [kept, command]
    exact Bool.false_ne_true
  exact if_neg online

theorem Online.write_refused (online : Online esc count last m) (after : last ≤ w.time)
    (near : w.time ≤ last + (2 ^ 31 + guardTime)) (ascii : esc.toNat ≤ 127)
    (refused : refuses esc count last w) :
    Online esc 0 w.time (m.modemWrite w.bytes (BitVec.ofNat 32 w.time) []) := by
  have checked := (checkEscape_eq online after near ascii).1 refused
  rw [modemWrite_online online.state online.command w.bytes (by rw [checked]), checked]
  exact ⟨online.state, online.command, online.escapeChar, rfl, rfl⟩

theorem Online.write_counted (online : Online esc count last m) (after : last ≤ w.time)
    (near : w.time ≤ last + (2 ^ 31 + guardTime)) (ascii : esc.toNat ≤ 127)
    (accepted : ¬ refuses esc count last w) :
    Online esc (count + w.bytes.length) w.time
      (m.modemWrite w.bytes (BitVec.ofNat 32 w.time) []) := by
  have checked := (checkEscape_eq online after near ascii).2 accepted
  rw [modemWrite_online online.state online.command w.bytes (by rw [checked]), checked]
  exact ⟨online.state, online.command, online.escapeChar, rfl, rfl⟩

theorem Online.escape (online : Online esc count last m) (other : count ≠ 3) :
    Online esc 0 last m.modemEscape := by
  have incomplete : ¬(m.state = .modemOnline ∧ m.escapeCount = 3) := by
    rw [online.escapeCount]
    exact fun met => other met.2
  unfold modemEscape
  rw [if_neg incomplete]
  exact ⟨online.state, online.command, online.escapeChar, rfl, online.lastEscCheck⟩

theorem Online.escape_complete (online : Online esc 3 last m) :
    m.modemEscape.state = .commandOnline := by
  unfold modemEscape
  rw [if_pos ⟨online.state, online.escapeCount⟩]
  have other : m.state ≠ .commandOnline := by
    rw [online.state]
    decide
  simp only [report_eq, putEcho, modemSetState, if_neg other]

end Write

/-! ### Attempts -/

section Attempts

variable {esc : UInt8} {last : Nat} {front rest : List TimedWrite} {w : TimedWrite}

theorem attempt_single : Attempt esc last front [w] ↔
    (∀ ch ∈ w.bytes, ch = esc) ∧ lastTime last front + guardTime ≤ w.time := by
  constructor
  · intro attempt
    exact ⟨attempt.only w List.mem_cons_self, attempt.silence w rfl⟩
  · rintro ⟨only, silence⟩
    refine ⟨List.cons_ne_nil w [], ?_, ?_, List.isChain_singleton w⟩
    · intro other member
      rw [List.mem_singleton.mp member]
      exact only
    · intro other first
      rw [← Option.some.inj first]
      exact silence

theorem lastTime_append (nonempty : rest ≠ []) :
    lastTime last (front ++ rest) = (rest.getLast nonempty).time := by
  rw [lastTime, List.getLast?_append_of_ne_nil front nonempty,
    List.getLast?_eq_some_getLast nonempty]
  rfl

theorem attempt_concat (nonempty : rest ≠ []) : Attempt esc last front (rest ++ [w]) ↔
    Attempt esc last front rest ∧ (∀ ch ∈ w.bytes, ch = esc) ∧
      w.time < lastTime last (front ++ rest) + guardTime := by
  have head : (rest ++ [w]).head? = rest.head? := by
    cases rest with
    | nil => exact absurd rfl nonempty
    | cons first rest => rfl
  have final : ∀ other, other ∈ rest.getLast? ↔ other = rest.getLast nonempty := by
    intro other
    rw [List.getLast?_eq_some_getLast nonempty]
    exact Option.some_inj.trans eq_comm
  rw [lastTime_append nonempty]
  constructor
  · intro attempt
    obtain ⟨close, -, next⟩ := List.isChain_append.mp attempt.close
    refine ⟨⟨nonempty, ?_, ?_, close⟩, ?_, ?_⟩
    · intro other member
      exact attempt.only other (List.mem_append_left [w] member)
    · rw [← head]
      exact attempt.silence
    · exact attempt.only w (List.mem_append_right rest List.mem_cons_self)
    · exact next _ ((final _).mpr rfl) w rfl
  · rintro ⟨attempt, only, soon⟩
    refine ⟨List.append_ne_nil_of_left_ne_nil nonempty [w], ?_, ?_, ?_⟩
    · intro other member
      rcases List.mem_append.mp member with earlier | now
      · exact attempt.only other earlier
      · rw [List.mem_singleton.mp now]
        exact only
    · rw [head]
      exact attempt.silence
    · apply List.isChain_append.mpr
      refine ⟨attempt.close, List.isChain_singleton w, ?_⟩
      intro first member second next
      rw [(final first).mp member, ← Option.some.inj next]
      exact soon

end Attempts

/-! ### Runs -/

def TimedModem.InDataMode (c : TimedModem) (writes : List TimedWrite) : Prop :=
  ∀ front w, front ++ [w] <+: writes → ((c.run front).expire w.time).modem.state = .modemOnline

/-- Writes to a modem that is online, with no escape character counted yet. -/
structure Session (esc : UInt8) (last : Nat) (start : TimedModem) (writes : List TimedWrite) :
    Prop where
  online : Online esc 0 last start.modem
  idle : start.due = none
  ascii : esc.toNat ≤ 127
  ordered : Ordered last writes
  inDataMode : start.InDataMode writes

/-- What the counter and the timer are after a write at the time `last`. -/
structure Tracked (esc : UInt8) (last : Nat) (c : TimedModem) : Prop where
  online : Online esc c.modem.escapeCount last c.modem
  bounded : c.modem.escapeCount ≤ 3
  due : ∀ due ∈ c.due, due ≤ last + guardTime ∧
    (c.modem.escapeCount = 0 ∨ c.modem.escapeCount = 3 ∧ due = last + guardTime)
  pending : c.modem.escapeCount = 3 → c.due = some (last + guardTime)

section Tracked

variable {esc : UInt8} {last : Nat} {c : TimedModem} {w : TimedWrite}

theorem Tracked.entersAt_iff (tracked : Tracked esc last c) (due : Nat) :
    c.EntersAt due ↔ c.modem.escapeCount = 3 ∧ due = last + guardTime := by
  constructor
  · rintro ⟨timer, entered⟩
    by_cases complete : c.modem.escapeCount = 3
    · rw [tracked.pending complete] at timer
      exact ⟨complete, (Option.some.inj timer).symm⟩
    · rw [(tracked.online.escape complete).state] at entered
      cases entered
  · rintro ⟨complete, rfl⟩
    have online := tracked.online
    rw [complete] at online
    exact ⟨tracked.pending complete, online.escape_complete⟩

theorem TimedModem.EntersAt.leaves {due now : Nat} (enters : c.EntersAt due) (late : due ≤ now) :
    (c.expire now).modem.state = .commandOnline := by
  unfold TimedModem.expire
  rw [enters.1]
  simp only [if_pos late]
  exact enters.2

theorem Tracked.expire {now : Nat} (tracked : Tracked esc last c)
    (stays : (c.expire now).modem.state = .modemOnline) :
    Online esc c.modem.escapeCount last (c.expire now).modem ∧
      ∀ due ∈ (c.expire now).due, due ∈ c.due ∧ now < due := by
  unfold TimedModem.expire at stays ⊢
  cases timer : c.due with
  | none =>
      simp only [timer] at stays ⊢
      exact ⟨tracked.online, fun due absent => by cases absent⟩
  | some due =>
      simp only [timer] at stays ⊢
      by_cases late : due ≤ now
      · rw [if_pos late] at stays ⊢
        have incomplete : c.modem.escapeCount ≠ 3 := by
          intro complete
          have enters : c.EntersAt due := by
            apply (tracked.entersAt_iff due).mpr
            rw [tracked.pending complete] at timer
            exact ⟨complete, (Option.some.inj timer).symm⟩
          rw [enters.2] at stays
          cases stays
        have none : c.modem.escapeCount = 0 := by
          rcases (tracked.due due timer).2 with none | ⟨complete, -⟩
          · exact none
          · exact absurd complete incomplete
        constructor
        · rw [none]
          exact tracked.online.escape incomplete
        · intro other absent
          cases absent
      · rw [if_neg late]
        refine ⟨tracked.online, ?_⟩
        intro other same
        rw [timer] at same
        obtain rfl := Option.some.inj same
        exact ⟨rfl, Nat.lt_of_not_le late⟩

theorem Tracked.write (tracked : Tracked esc last c) (ascii : esc.toNat ≤ 127)
    (after : last ≤ w.time) (near : w.time ≤ last + (2 ^ 31 + guardTime)) (some : w.bytes ≠ [])
    (stays : (c.expire w.time).modem.state = .modemOnline) :
    Tracked esc w.time (c.write w) ∧
      (refuses esc c.modem.escapeCount last w → (c.write w).modem.escapeCount = 0) ∧
      (¬ refuses esc c.modem.escapeCount last w →
        (c.write w).modem.escapeCount = c.modem.escapeCount + w.bytes.length) := by
  obtain ⟨online, timer⟩ := tracked.expire stays
  have long := List.length_pos_iff.mpr some
  unfold TimedModem.write
  simp only
  by_cases refused : refuses esc c.modem.escapeCount last w
  · have written := online.write_refused after near ascii refused
    have cleared := written.escapeCount
    generalize (c.expire w.time).modem.modemWrite _ _ _ = m at written cleared ⊢
    have incomplete : ¬ m.escapeCount = 3 := by omega
    rw [if_neg incomplete]
    refine ⟨⟨?_, ?_, ?_, ?_⟩, fun _ => cleared, fun accepted => absurd refused accepted⟩
    · rw [cleared]
      exact written
    · rw [cleared]
      exact Nat.zero_le 3
    · intro due member
      have bound := (tracked.due due (timer due member).1).1
      exact ⟨by omega, Or.inl cleared⟩
    · intro complete
      exact absurd complete incomplete
  · have written := online.write_counted after near ascii refused
    have counted := written.escapeCount
    generalize (c.expire w.time).modem.modemWrite _ _ _ = m at written counted ⊢
    have bound : w.bytes.length + c.modem.escapeCount ≤ 3 := by
      by_contra more
      exact refused (Or.inl (Nat.lt_of_not_le more))
    refine ⟨⟨?_, ?_, ?_, ?_⟩, fun met => absurd met refused, fun _ => counted⟩
    · rw [counted]
      exact written
    · rw [counted]
      omega
    · intro due member
      by_cases complete : m.escapeCount = 3
      · rw [if_pos complete] at member
        obtain rfl := Option.some.inj member
        exact ⟨Nat.le_refl _, Or.inr ⟨complete, rfl⟩⟩
      · rw [if_neg complete] at member
        obtain ⟨earlier, late⟩ := timer due member
        have soon := (tracked.due due earlier).1
        exfalso
        rcases (tracked.due due earlier).2 with none | ⟨three, -⟩
        · apply refused
          refine Or.inr (Or.inr ?_)
          rw [if_pos none]
          omega
        · omega
    · intro complete
      rw [if_pos complete]

end Tracked

/-- The writes end with `count` attempts, one after the other, that were each broken off
after one or two escape characters. -/
inductive BrokenOff (esc : UInt8) (last : Nat) : Nat → List TimedWrite → Prop
  | none {writes : List TimedWrite}
      (other : ∀ front run, writes = front ++ run → Attempt esc last front run →
        2 < written run) : BrokenOff esc last 0 writes
  | more {count : Nat} {front run : List TimedWrite} (earlier : BrokenOff esc last count front)
      (attempt : Attempt esc last front run) (short : written run ≤ 2) :
      BrokenOff esc last (count + 1) (front ++ run)

section Session

variable {esc : UInt8} {last : Nat} {start : TimedModem} {front run back writes : List TimedWrite}
  {w : TimedWrite}

theorem Session.concat (session : Session esc last start (front ++ [w])) :
    Session esc last start front ∧ lastTime last front ≤ w.time ∧
      w.time ≤ lastTime last front + (2 ^ 31 + guardTime) ∧ w.bytes ≠ [] ∧
      ((start.run front).expire w.time).modem.state = .modemOnline := by
  obtain ⟨ordered, after, near, some⟩ := (ordered_concat last front w).mp session.ordered
  refine ⟨⟨session.online, session.idle, session.ascii, ordered, ?_⟩, after, near, some, ?_⟩
  · intro before next first
    exact session.inDataMode before next (first.trans (List.prefix_append front [w]))
  · exact session.inDataMode front w (List.prefix_refl _)

theorem Session.append (session : Session esc last start (front ++ back)) :
    Session esc last start front := by
  induction back using List.reverseRecOn with
  | nil => rwa [List.append_nil] at session
  | append_singleton back w ih =>
      rw [← List.append_assoc] at session
      exact ih session.concat.1

theorem Session.tracked (session : Session esc last start writes) :
    Tracked esc (lastTime last writes) (start.run writes) := by
  induction writes using List.reverseRecOn with
  | nil =>
      have none := session.online.escapeCount
      refine ⟨?_, ?_, ?_, ?_⟩
      · exact none ▸ session.online
      · exact none ▸ Nat.zero_le 3
      · intro due member
        have idle : start.due = Option.some due := member
        rw [session.idle] at idle
        cases idle
      · intro complete
        exact absurd (none.symm.trans complete) (by decide)
  | append_singleton front w ih =>
      obtain ⟨earlier, after, near, some, stays⟩ := session.concat
      rw [TimedModem.run_concat, lastTime_concat]
      exact ((ih earlier).write session.ascii after near some stays).1

theorem Session.count (session : Session esc last start (front ++ [w])) :
    (refuses esc (start.run front).modem.escapeCount (lastTime last front) w →
      (start.run (front ++ [w])).modem.escapeCount = 0) ∧
    (¬ refuses esc (start.run front).modem.escapeCount (lastTime last front) w →
      (start.run (front ++ [w])).modem.escapeCount =
        (start.run front).modem.escapeCount + w.bytes.length) := by
  obtain ⟨earlier, after, near, some, stays⟩ := session.concat
  rw [TimedModem.run_concat]
  exact (earlier.tracked.write session.ascii after near some stays).2

theorem Session.attempt_of_count (session : Session esc last start writes)
    (counted : (start.run writes).modem.escapeCount ≠ 0) :
    ∃ front run, writes = front ++ run ∧ Attempt esc last front run ∧
      written run = (start.run writes).modem.escapeCount := by
  induction writes using List.reverseRecOn with
  | nil => exact absurd session.online.escapeCount counted
  | append_singleton front w ih =>
      obtain ⟨cleared, added⟩ := session.count
      by_cases refused : refuses esc (start.run front).modem.escapeCount (lastTime last front) w
      · exact absurd (cleared refused) counted
      · rw [added refused]
        have only : ∀ ch ∈ w.bytes, ch = esc := by
          intro ch member
          by_contra other
          exact refused (Or.inr (Or.inl ⟨ch, member, other⟩))
        by_cases none : (start.run front).modem.escapeCount = 0
        · refine ⟨front, [w], rfl, attempt_single.mpr ⟨only, ?_⟩, ?_⟩
          · by_contra early
            refine refused (Or.inr (Or.inr ?_))
            rw [if_pos none]
            exact Nat.lt_of_not_le early
          · rw [none]
            simp [written]
        · obtain ⟨before, run, rfl, attempt, length⟩ := ih session.concat.1 none
          refine ⟨before, run ++ [w], List.append_assoc before run [w], ?_, ?_⟩
          · apply (attempt_concat attempt.nonempty).mpr
            refine ⟨attempt, only, ?_⟩
            by_contra late
            refine refused (Or.inr (Or.inr ?_))
            rw [if_neg none]
            exact Nat.le_of_not_lt late
          · rw [written_concat, length]

theorem Session.count_attempt (session : Session esc last start (front ++ run))
    (attempt : Attempt esc last front run) (short : written run ≤ 3)
    (none : (start.run front).modem.escapeCount = 0) :
    (start.run (front ++ run)).modem.escapeCount = written run := by
  induction run using List.reverseRecOn with
  | nil => exact absurd rfl attempt.nonempty
  | append_singleton rest w ih =>
      rw [written_concat] at short ⊢
      rw [← List.append_assoc] at session ⊢
      obtain ⟨earlier, -, -, some, -⟩ := session.concat
      by_cases first : rest = []
      · subst first
        obtain ⟨only, silence⟩ := attempt_single.mp attempt
        rw [List.append_nil] at session ⊢
        have accepted : ¬ refuses esc (start.run front).modem.escapeCount
            (lastTime last front) w := by
          rw [none]
          rintro (long | ⟨ch, member, other⟩ | early)
          · omega
          · exact other (only ch member)
          · rw [if_pos rfl] at early
            omega
        rw [session.count.2 accepted, none]
        rfl
      · obtain ⟨begun, only, soon⟩ := (attempt_concat first).mp attempt
        have counted := ih earlier begun (by omega)
        have positive : written rest ≠ 0 := by
          have every : ∀ write ∈ rest, write.bytes ≠ [] := by
            intro write member
            exact earlier.ordered.nonempty write (List.mem_append_right front member)
          have positive := written_pos first every
          omega
        have accepted : ¬ refuses esc (start.run (front ++ rest)).modem.escapeCount
            (lastTime last (front ++ rest)) w := by
          rw [counted]
          rintro (long | ⟨ch, member, other⟩ | late)
          · omega
          · exact other (only ch member)
          · rw [if_neg positive] at late
            omega
        rw [session.count.2 accepted, counted]

theorem Session.skip_attempt (session : Session esc last start (front ++ run))
    (attempt : Attempt esc last front run)
    (counted : (start.run front).modem.escapeCount ≠ 0) :
    (start.run (front ++ run)).modem.escapeCount = 0 := by
  induction run using List.reverseRecOn with
  | nil => exact absurd rfl attempt.nonempty
  | append_singleton rest w ih =>
      rw [← List.append_assoc] at session ⊢
      by_cases first : rest = []
      · subst first
        rw [List.append_nil] at session ⊢
        apply session.count.1
        refine Or.inr (Or.inr ?_)
        rw [if_neg counted]
        exact (attempt_single.mp attempt).2
      · obtain ⟨begun, -, soon⟩ := (attempt_concat first).mp attempt
        apply session.count.1
        refine Or.inr (Or.inr ?_)
        rw [if_pos (ih session.concat.1 begun)]
        exact soon

theorem Session.incomplete (session : Session esc last start (front ++ run))
    (attempt : Attempt esc last front run) : (start.run front).modem.escapeCount ≠ 3 := by
  intro complete
  cases run with
  | nil => exact attempt.nonempty rfl
  | cons w rest =>
      have enters := (session.append.tracked.entersAt_iff _).mpr ⟨complete, rfl⟩
      have stays := session.inDataMode front w ⟨rest, by simp⟩
      rw [enters.leaves (attempt.silence w rfl)] at stays
      cases stays

theorem Session.count_brokenOff {count : Nat} (session : Session esc last start writes)
    (broken : BrokenOff esc last count writes)
    (incomplete : (start.run writes).modem.escapeCount ≠ 3) :
    (start.run writes).modem.escapeCount = 0 ↔ Even count := by
  induction broken with
  | none other =>
      refine iff_of_true ?_ Even.zero
      by_contra counted
      obtain ⟨front, run, split, attempt, length⟩ := session.attempt_of_count counted
      have long := other front run split attempt
      have bounded := session.tracked.bounded
      omega
  | @more count front run earlier attempt short ih =>
      rw [Nat.even_add_one, ← ih session.append (session.incomplete attempt)]
      by_cases none : (start.run front).modem.escapeCount = 0
      · have counted := session.count_attempt attempt (by omega) none
        have positive : 0 < written run := by
          apply written_pos attempt.nonempty
          intro w member
          exact session.ordered.nonempty w (List.mem_append_right front member)
        refine iff_of_false ?_ (fun other => other none)
        omega
      · exact iff_of_true (session.skip_attempt attempt none) none

theorem brokenOff_exists (esc : UInt8) (last : Nat) (writes : List TimedWrite) :
    ∃ count, BrokenOff esc last count writes := by
  by_cases broken : ∃ front run, writes = front ++ run ∧ Attempt esc last front run ∧
      written run ≤ 2
  · obtain ⟨front, run, split, attempt, short⟩ := broken
    have shorter : front.length < writes.length := by
      have some := List.length_pos_iff.mpr attempt.nonempty
      rw [split, List.length_append]
      omega
    obtain ⟨count, earlier⟩ := brokenOff_exists esc last front
    rw [split]
    exact ⟨count + 1, BrokenOff.more earlier attempt short⟩
  · refine ⟨0, BrokenOff.none ?_⟩
    intro front run split attempt
    by_contra short
    exact broken ⟨front, run, split, attempt, Nat.le_of_not_lt short⟩
termination_by writes.length

theorem Session.enters_iff (session : Session esc last start writes) (due : Nat) :
    start.Enters writes due ↔
      (start.run writes).modem.escapeCount = 3 ∧ due = lastTime last writes + guardTime := by
  rw [← session.tracked.entersAt_iff]
  constructor
  · rintro ⟨before, after, rfl, late, enters⟩
    cases after with
    | nil => rwa [List.append_nil]
    | cons w rest =>
        have stays := session.inDataMode before w ⟨rest, by simp⟩
        rw [enters.leaves (late w rfl)] at stays
        cases stays
  · intro enters
    refine ⟨writes, [], (List.append_nil writes).symm, ?_, enters⟩
    intro w absent
    cases absent

/-- The escape sequence puts the modem into command mode, and nothing else does, exactly if
an even number of attempts that were broken off come directly before it. -/
theorem escape_exact_iff (session : Session esc last start writes) :
    (∀ due, start.Enters writes due ↔ EscapeSequence esc last writes due) ↔
      ∀ front run after due, writes = front ++ run ++ after → Escapes esc last front run due →
        (∀ w ∈ after.head?, due ≤ w.time) →
        ∃ count, Even count ∧ BrokenOff esc last count front := by
  constructor
  · rintro exact_ front run after due rfl escapes late
    obtain ⟨attempt, three, rfl⟩ := escapes
    have enters := (exact_ _).mpr ⟨front, run, after, rfl, ⟨attempt, three, rfl⟩, late⟩
    obtain ⟨complete, due⟩ := (session.enters_iff _).mp enters
    have final : after = [] := by
      cases after with
      | nil => rfl
      | cons w rest =>
          have later := session.ordered.time_le w (by simp)
          have late := late w rfl
          have guard : 0 < guardTime := by decide
          omega
    subst final
    rw [List.append_nil] at complete session
    obtain ⟨count, broken⟩ := brokenOff_exists esc last front
    refine ⟨count, ?_, broken⟩
    apply (session.append.count_brokenOff broken (session.incomplete attempt)).mp
    by_contra counted
    rw [session.skip_attempt attempt counted] at complete
    cases complete
  · intro even due
    constructor
    · intro enters
      obtain ⟨complete, rfl⟩ := (session.enters_iff due).mp enters
      obtain ⟨front, run, rfl, attempt, length⟩ := session.attempt_of_count (by omega)
      refine ⟨front, run, [], (List.append_nil _).symm, ⟨attempt, length.trans complete, rfl⟩, ?_⟩
      intro w absent
      cases absent
    · rintro ⟨front, run, after, rfl, escapes, late⟩
      obtain ⟨count, two, broken⟩ := even front run after due rfl escapes late
      obtain ⟨attempt, three, rfl⟩ := escapes
      have before := session.append
      have none := (before.append.count_brokenOff broken (before.incomplete attempt)).mpr two
      have counted := before.count_attempt attempt (by omega) none
      refine ⟨front ++ run, after, rfl, late, ?_⟩
      exact (before.tracked.entersAt_iff _).mpr ⟨counted.trans three, rfl⟩

theorem Session.extend (session : Session esc last start front)
    (timed : lastTime last front ≤ w.time ∧
      w.time ≤ lastTime last front + (2 ^ 31 + guardTime) ∧ w.bytes ≠ [])
    (stays : ((start.run front).expire w.time).modem.state = .modemOnline) :
    Session esc last start (front ++ [w]) := by
  have ordered := (ordered_concat last front w).mpr ⟨session.ordered, timed⟩
  refine ⟨session.online, session.idle, session.ascii, ordered, ?_⟩
  intro before next first
  rcases List.prefix_concat_iff.mp first with whole | earlier
  · obtain ⟨rfl, same⟩ := List.append_inj' whole rfl
    cases same
    exact stays
  · exact session.inDataMode before next earlier

end Session

/-- The line after `answeredCall`, before anything is written. -/
def quietLine : TimedModem := { modem := modemCreate.run answeredCall, due := none }

theorem quietLine_session : Session 43 0 quietLine [] := by
  refine ⟨⟨?_, ?_, ?_, ?_, ?_⟩, rfl, by decide, trivial, ?_⟩
  · decide +kernel
  · decide +kernel
  · decide +kernel
  · decide +kernel
  · decide +kernel
  · intro front w first
    exact absurd (List.prefix_nil.mp first) (by simp)

theorem escape_exact_single :
    Session 43 0 quietLine [⟨1000, [43, 43, 43]⟩] ∧
      (∀ due, quietLine.Enters [⟨1000, [43, 43, 43]⟩] due ↔
        EscapeSequence 43 0 [⟨1000, [43, 43, 43]⟩] due) ∧
      quietLine.Enters [⟨1000, [43, 43, 43]⟩] 1050 := by
  have session : Session 43 0 quietLine ([] ++ [⟨1000, [43, 43, 43]⟩]) :=
    quietLine_session.extend (by decide) (by decide +kernel)
  refine ⟨session, (escape_exact_iff session).mpr ?_, ?_⟩
  · intro front run after due split escapes late
    refine ⟨0, Even.zero, BrokenOff.none ?_⟩
    intro earlier attempt parts begun
    have some := begun.nonempty
    have other := escapes.1.nonempty
    have length := congrArg List.length split
    have lengths := congrArg List.length parts
    have first := List.length_pos_iff.mpr some
    have second := List.length_pos_iff.mpr other
    simp only [List.length_append, List.length_cons, List.length_nil] at length lengths
    omega
  · exact (session.enters_iff 1050).mpr (by decide +kernel)

/-- One escape character, then after the guard time three more: the first of these clears
the counter of the attempt before it, and the escape sequence is not seen. -/
theorem escape_missed_after_attempt :
    Session 43 0 quietLine [⟨1000, [43]⟩, ⟨1100, [43]⟩, ⟨1110, [43]⟩, ⟨1120, [43]⟩] ∧
      EscapeSequence 43 0 [⟨1000, [43]⟩, ⟨1100, [43]⟩, ⟨1110, [43]⟩, ⟨1120, [43]⟩] 1170 ∧
      ¬ quietLine.Enters [⟨1000, [43]⟩, ⟨1100, [43]⟩, ⟨1110, [43]⟩, ⟨1120, [43]⟩] 1170 := by
  have first : Session 43 0 quietLine ([] ++ [⟨1000, [43]⟩]) :=
    quietLine_session.extend (by decide) (by decide +kernel)
  have second : Session 43 0 quietLine ([⟨1000, [43]⟩] ++ [⟨1100, [43]⟩]) :=
    first.extend (by decide) (by decide +kernel)
  have third : Session 43 0 quietLine ([⟨1000, [43]⟩, ⟨1100, [43]⟩] ++ [⟨1110, [43]⟩]) :=
    second.extend (by decide) (by decide +kernel)
  have session : Session 43 0 quietLine
      ([⟨1000, [43]⟩, ⟨1100, [43]⟩, ⟨1110, [43]⟩] ++ [⟨1120, [43]⟩]) :=
    third.extend (by decide) (by decide +kernel)
  refine ⟨session, ?_, ?_⟩
  · refine ⟨[⟨1000, [43]⟩], [⟨1100, [43]⟩, ⟨1110, [43]⟩, ⟨1120, [43]⟩], [], rfl, ?_, by simp⟩
    refine ⟨⟨by simp, by simp, by simp [lastTime, guardTime, modemHz], ?_⟩, rfl, rfl⟩
    simp [guardTime, modemHz]
  · intro enters
    have complete := ((session.enters_iff 1170).mp enters).1
    revert complete
    decide +kernel

end DModem.Modem
