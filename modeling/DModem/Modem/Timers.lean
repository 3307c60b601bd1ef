/-
The timers of `modem_timer.c`.

One alarm serves all timers: it is set for the time `when`, and its handler calls back the
timers that have expired.  Times are 32-bit words that wrap.
-/

import DModem.Lib.Agenda

namespace DModem.Timers

open DModem.Lib

/-! ### The list of timers -/

def modemHz : Int := 100

/-- `MAX_TIME`. -/
def maxTime : Int := 2 ^ 31 - 1

/-- A time as an `unsigned long`, of which `get_time` returns the last 32 bits. -/
abbrev ticks (time : Int) : BitVec 32 := BitVec.ofInt 32 time

/-- `func` stands for the function and its `data`. -/
structure Timer (κ : Type) where
  added : Nat
  expires : BitVec 32
  func : Option κ

def Timer.Expired {κ : Type} (t : Timer κ) (now : BitVec 32) : Prop := (t.expires - now).toInt ≤ 0

instance {κ : Type} (t : Timer κ) (now : BitVec 32) : Decidable (t.Expired now) :=
  inferInstanceAs (Decidable (_ ≤ _))

/-- The timer structures in memory, which of them the list holds, and the alarm of
`setitimer` in seconds and microseconds. -/
structure TimerList (ι κ : Type) where
  timers : ι → Timer κ
  list : List ι
  when : BitVec 32
  alarm : Int × Int

variable {ι κ : Type} [DecidableEq ι]

namespace TimerList

def setTimer (s : TimerList ι κ) (when now : BitVec 32) : TimerList ι κ :=
  let diff := (when - now).toInt
  let t := if diff ≤ 0 then 1 else diff
  { s with alarm := (t.tdiv modemHz, t.tmod modemHz * Int.tdiv 1000000 modemHz) }

/-- The timers `t` of the list that was detached; the calls of their functions are returned. -/
def sweep (now : BitVec 32) : List ι → TimerList ι κ → TimerList ι κ × List (ι × κ)
  | [], s => (s, [])
  | t :: next, s =>
      if (s.timers t).Expired now then
        let cleared := { s.timers t with added := 0 }
        let swept := sweep now next { s with timers := Function.update s.timers t cleared }
        (swept.1, ((s.timers t).func.map fun func => (t, func)).toList ++ swept.2)
      else sweep now next { s with list := t :: s.list }

def earliest (timers : ι → Timer κ) (when : BitVec 32) (list : List ι) : BitVec 32 :=
  list.foldl (fun when t =>
    if 0 < (when - (timers t).expires).toInt then (timers t).expires else when) when

def timerListHandler (s : TimerList ι κ) (now : BitVec 32) : TimerList ι κ × List (ι × κ) :=
  let swept := sweep now s.list { s with list := [] }
  let s := swept.1
  let when := earliest s.timers (now + ticks maxTime) s.list
  ({ s with when := when }.setTimer when now, swept.2)

/-- `now` is the time at which `set_timer` looks. -/
def timerAdd (s : TimerList ι κ) (t : ι) (now : BitVec 32) : TimerList ι κ :=
  let s :=
    if (s.timers t).added ≠ 0 then s
    else
      { s with
        timers := Function.update s.timers t { s.timers t with added := 1 }
        list := t :: s.list }
  let expires := (s.timers t).expires
  if 0 < (s.when - expires).toInt then { s with when := expires }.setTimer expires now else s

def timerDel (s : TimerList ι κ) (t : ι) : TimerList ι κ :=
  if (s.timers t).added ≠ 0 ∧ t ∈ s.list then
    { s with
      timers := Function.update s.timers t { s.timers t with added := 0 }
      list := s.list.erase t }
  else s

/-- `modem_timer_init`, with the timers that `timer_init` has cleared. -/
def modemTimerInit (func : ι → Option κ) (now : BitVec 32) : TimerList ι κ :=
  TimerList.setTimer
    { timers := fun t => { added := 0, expires := 0, func := func t }
      list := []
      when := now + ticks maxTime
      alarm := (0, 0) }
    (now + ticks maxTime) now

end TimerList

/-- What a program does with timers; the expiry is set before `timer_add`. -/
inductive TimerOp (ι : Type) where
  | add (t : ι) (expires now : Int)
  | del (t : ι)
  | handler (now : Int)

namespace TimerList

def setExpires (s : TimerList ι κ) (t : ι) (expires : BitVec 32) : TimerList ι κ :=
  { s with timers := Function.update s.timers t { s.timers t with expires := expires } }

def step (s : TimerList ι κ) : TimerOp ι → TimerList ι κ
  | .add t expires now => (s.setExpires t (ticks expires)).timerAdd t (ticks now)
  | .del t => s.timerDel t
  | .handler now => (s.timerListHandler (ticks now)).1

def run (s : TimerList ι κ) (ops : List (TimerOp ι)) : TimerList ι κ := ops.foldl step s

end TimerList

/-! ### The agenda of the timers -/

def TimerOp.plan : TimerOp ι → AgendaOp ι Int
  | .add t expires _ => .arm t expires
  | .del t => .cancel t
  | .handler now => .poll now

/-- The agenda that begins when the clock shows `start`. -/
def agenda (start : Int) (ops : List (TimerOp ι)) : Agenda ι Int :=
  Agenda.run maxTime { entries := ∅, wake := start + maxTime } (ops.map TimerOp.plan)

def Fits (g : Agenda ι Int) : TimerOp ι → Prop
  | .add _ expires _ => Near 32 g.wake expires
  | .del _ => True
  | .handler now => ∀ entry ∈ g.entries, Near 32 entry.2 now

instance (g : Agenda ι Int) (op : TimerOp ι) : Decidable (Fits g op) :=
  match op with
  | .add _ expires _ => inferInstanceAs (Decidable (Near 32 g.wake expires))
  | .del _ => inferInstanceAs (Decidable True)
  | .handler now => inferInstanceAs (Decidable (∀ entry ∈ g.entries, Near 32 entry.2 now))

/-- All differences are below half the range. -/
def AllFit (start : Int) (ops : List (TimerOp ι)) : Prop :=
  ∀ before op after, ops = before ++ op :: after → Fits (agenda start before) op

/-! ### The list follows the agenda -/

namespace TimerList

section Sweep

variable {now : BitVec 32} {list : List ι} {s : TimerList ι κ}

theorem expired_cleared {t : ι} (other : ι) :
    (Function.update s.timers t { s.timers t with added := 0 } other).Expired now =
      (s.timers other).Expired now := by
  by_cases same : other = t
  · rw [same, Function.update_self]
    rfl
  · rw [Function.update_of_ne same]

theorem func_cleared {t : ι} (other : ι) :
    (Function.update s.timers t { s.timers t with added := 0 } other).func =
      (s.timers other).func := by
  by_cases same : other = t
  · rw [same, Function.update_self]
  · rw [Function.update_of_ne same]

theorem sweep_list (now : BitVec 32) (list : List ι) (s : TimerList ι κ) :
    (sweep now list s).1.list =
    (list.filter fun t => ¬ (s.timers t).Expired now).reverse ++ s.list := by
  induction list generalizing s with
  | nil => rfl
  | cons t next ih =>
      by_cases expired : (s.timers t).Expired now
      · rw [sweep, if_pos expired, List.filter_cons_of_neg (by simpa using expired)]
        simp only [ih, expired_cleared]
      · rw [sweep, if_neg expired, List.filter_cons_of_pos (by simpa using expired)]
        simp only [ih, List.reverse_cons, List.append_assoc, List.singleton_append]

theorem sweep_timer (t : ι) : (sweep now list s).1.timers t =
    if t ∈ list ∧ (s.timers t).Expired now then { s.timers t with added := 0 }
    else s.timers t := by
  induction list generalizing s with
  | nil => rfl
  | cons head next ih =>
      by_cases expired : (s.timers head).Expired now
      · rw [sweep, if_pos expired]
        simp only [ih, expired_cleared, List.mem_cons]
        by_cases same : t = head
        · subst same
          simp [expired]
        · simp only [Function.update_of_ne same, same, false_or]
      · rw [sweep, if_neg expired, ih]
        by_cases same : t = head
        · subst same
          simp [expired]
        · simp only [List.mem_cons, same, false_or]

theorem sweep_calls (now : BitVec 32) (list : List ι) (s : TimerList ι κ) :
    (sweep now list s).2 =
    (list.filter fun t => (s.timers t).Expired now).filterMap
      fun t => (s.timers t).func.map fun func => (t, func) := by
  induction list generalizing s with
  | nil => rfl
  | cons t next ih =>
      by_cases expired : (s.timers t).Expired now
      · rw [sweep, if_pos expired, List.filter_cons_of_pos (by simpa using expired)]
        simp only [ih, expired_cleared, func_cleared, List.filterMap_cons]
        cases (s.timers t).func with
        | none => rfl
        | some func => rfl
      · rw [sweep, if_neg expired, List.filter_cons_of_neg (by simpa using expired)]
        exact ih _

end Sweep

/-- The timer list is what the agenda says. -/
structure Follows (g : Agenda ι Int) (func : ι → Option κ) (s : TimerList ι κ) : Prop where
  single : g.Wf
  nodup : s.list.Nodup
  marked : ∀ t, (s.timers t).added = if t ∈ s.list then 1 else 0
  listed : ∀ t ∈ s.list, ∃ due, (t, due) ∈ g.entries
  entered : ∀ t due, (t, due) ∈ g.entries → t ∈ s.list ∧ (s.timers t).expires = ticks due
  when : s.when = ticks g.wake
  func : ∀ t, (s.timers t).func = func t

section Steps

variable {g : Agenda ι Int} {func : ι → Option κ} {s : TimerList ι κ} {t : ι}
  {expires now start : Int}

theorem ticks_sub {a b : Int} (near : Near 32 a b) : (ticks a - ticks b).toInt = a - b :=
  wrapped_sub (by decide) near

theorem Follows.init : Follows (agenda start []) func (modemTimerInit func (ticks start)) where
  single := Agenda.wf_empty _
  nodup := List.nodup_nil
  marked _ := rfl
  listed _ member := by cases member
  entered _ _ member := absurd member (Finset.notMem_empty _)
  when := (BitVec.ofInt_add start maxTime).symm
  func _ := rfl

theorem Follows.added_iff (follows : Follows g func s) : (s.timers t).added ≠ 0 ↔ t ∈ s.list := by
  rw [follows.marked t]
  split
  · simp [*]
  · simp [*]

/-- The list after `timer_add`: a timer that was in it stays where it is. -/
theorem Follows.timerAdd_eq (follows : Follows g func s) (t : ι) (expires : Int)
    (time : BitVec 32) :
    ∃ alarm,
      (s.setExpires t (ticks expires)).timerAdd t time =
        { timers :=
            Function.update s.timers t { s.timers t with added := 1, expires := ticks expires }
          list := if t ∈ s.list then s.list else t :: s.list
          when := if 0 < (s.when - ticks expires).toInt then ticks expires else s.when
          alarm := alarm } := by
  have added := follows.added_iff (t := t)
  have marked := follows.marked t
  by_cases inside : t ∈ s.list
  · rw [if_pos inside] at marked
    simp only [timerAdd, setExpires, Function.update_self, marked, ne_eq, one_ne_zero,
      not_false_eq_true, if_true, if_pos inside]
    split
    · exact ⟨_, rfl⟩
    · exact ⟨_, rfl⟩
  · rw [if_neg inside] at marked
    simp only [timerAdd, setExpires, Function.update_self, marked, ne_eq, not_true_eq_false,
      if_false, if_neg inside, Function.update_idem]
    split
    · exact ⟨_, rfl⟩
    · exact ⟨_, rfl⟩

omit [DecidableEq ι] in
theorem wake_min (near : Near 32 g.wake expires) :
    (if 0 < (ticks g.wake - ticks expires).toInt then ticks expires else ticks g.wake) =
      ticks (min g.wake expires) := by
  rw [ticks_sub near]
  split
  · rw [min_eq_right (by omega)]
  · rw [min_eq_left (by omega)]

theorem Follows.add (follows : Follows g func s) (near : Near 32 g.wake expires) :
    Follows (g.step maxTime (.arm t expires)) func (s.step (.add t expires now)) := by
  obtain ⟨alarm, after⟩ := follows.timerAdd_eq t expires (ticks now)
  have present : ∀ other, other ∈ (if t ∈ s.list then s.list else t :: s.list) ↔
      other = t ∨ other ∈ s.list := by
    intro other
    split
    · next inside => exact ⟨Or.inr, fun either => either.elim (fun same => same ▸ inside) id⟩
    · exact List.mem_cons
  rw [step, after]
  constructor
  · exact follows.single.step _
  · split
    · exact follows.nodup
    · next outside => exact List.nodup_cons.mpr ⟨outside, follows.nodup⟩
  · intro other
    simp only [present]
    by_cases same : other = t
    · simp [same]
    · simp only [Function.update_of_ne same, same, false_or, follows.marked]
  · intro other member
    rcases (present other).mp member with rfl | inside
    · exact ⟨expires, Agenda.mem_step.mpr (Or.inl rfl)⟩
    · by_cases same : t = other
      · subst same
        exact ⟨expires, Agenda.mem_step.mpr (Or.inl rfl)⟩
      · obtain ⟨due, entry⟩ := follows.listed other inside
        exact ⟨due, Agenda.mem_step.mpr (Or.inr ⟨same, entry⟩)⟩
  · intro other due entry
    simp only [present]
    rcases Agenda.mem_step.mp entry with same | ⟨distinct, kept⟩
    · cases same
      exact ⟨Or.inl rfl, by rw [Function.update_self]⟩
    · have differs : other ≠ t := fun same => distinct same.symm
      rw [Function.update_of_ne differs]
      exact ⟨Or.inr (follows.entered other due kept).1, (follows.entered other due kept).2⟩
  · simp only [follows.when]
    exact wake_min near
  · intro other
    by_cases same : other = t
    · subst same
      simp only [Function.update_self, follows.func]
    · simp only [Function.update_of_ne same, follows.func]

theorem Follows.timerDel_eq (follows : Follows g func s) :
    s.timerDel t =
      { s with
        timers := Function.update s.timers t { s.timers t with added := 0 }
        list := s.list.erase t } := by
  have added := follows.added_iff (t := t)
  unfold timerDel
  by_cases inside : t ∈ s.list
  · rw [if_pos ⟨added.mpr inside, inside⟩]
  · have zero : (s.timers t).added = 0 := by rw [follows.marked, if_neg inside]
    have same : { s.timers t with added := 0 } = s.timers t := by rw [← zero]
    rw [if_neg (fun both => inside both.2), same, Function.update_eq_self,
      List.erase_of_not_mem inside]

theorem Follows.del (follows : Follows g func s) :
    Follows (g.step maxTime (.cancel t)) func (s.step (.del t)) := by
  rw [step, follows.timerDel_eq]
  constructor
  · exact follows.single.step _
  · exact follows.nodup.erase t
  · intro other
    by_cases same : other = t
    · subst same
      simp [follows.nodup.mem_erase_iff]
    · simp only [Function.update_of_ne same, follows.marked, List.mem_erase_of_ne same]
  · intro other member
    obtain ⟨distinct, inside⟩ := follows.nodup.mem_erase_iff.mp member
    obtain ⟨due, entry⟩ := follows.listed other inside
    exact ⟨due, Agenda.mem_step.mpr (Or.inr ⟨distinct.symm, entry⟩)⟩
  · intro other due entry
    rcases Agenda.mem_step.mp entry with same | ⟨distinct, kept⟩
    · cases same
    · obtain ⟨inside, expires⟩ := follows.entered other due kept
      have differs : other ≠ t := fun same => distinct same.symm
      exact ⟨(List.mem_erase_of_ne differs).mpr inside,
        (congrArg Timer.expires (Function.update_of_ne differs _ _)).trans expires⟩
  · exact follows.when
  · intro other
    exact (func_cleared other).trans (follows.func other)

omit [DecidableEq ι] in
/-- The earliest of the expiries that are later than `low`, if they are close enough. -/
theorem earliest_spec {timers : ι → Timer κ} {due : ι → Int} {low wake : Int} {list : List ι}
    (close : low ≤ wake ∧ wake < low + 2 ^ 31)
    (each : ∀ t ∈ list, (timers t).expires = ticks (due t) ∧ low ≤ due t ∧ due t < low + 2 ^ 31) :
    earliest timers (ticks wake) list =
      ticks (list.foldl (fun wake t => min wake (due t)) wake) := by
  induction list generalizing wake with
  | nil => rfl
  | cons t list ih =>
      obtain ⟨⟨expires, above, below⟩, others⟩ := List.forall_mem_cons.mp each
      have near : Near 32 wake (due t) := by
        unfold Near
        omega
      have first : (if 0 < (ticks wake - (timers t).expires).toInt then (timers t).expires
          else ticks wake) = ticks (min wake (due t)) := by
        rw [expires, ticks_sub near]
        split
        · rw [min_eq_right (by omega)]
        · rw [min_eq_left (by omega)]
      unfold earliest at ih ⊢
      rw [List.foldl_cons, List.foldl_cons, first]
      exact ih (by omega) others

omit [DecidableEq ι] in
theorem le_foldl_min {due : ι → Int} {list : List ι} {wake bound : Int} :
    bound ≤ list.foldl (fun wake t => min wake (due t)) wake ↔
      bound ≤ wake ∧ ∀ t ∈ list, bound ≤ due t := by
  induction list generalizing wake with
  | nil => simp
  | cons t list ih => simp [ih, and_assoc]

theorem Follows.expired_iff (follows : Follows g func s)
    (near : ∀ entry ∈ g.entries, Near 32 entry.2 now) {due : Int} (entry : (t, due) ∈ g.entries) :
    (s.timers t).Expired (ticks now) ↔ due ≤ now := by
  have bound := near _ entry
  rw [Timer.Expired, (follows.entered t due entry).2, ticks_sub bound]
  omega

def swept (s : TimerList ι κ) (now : BitVec 32) (t : ι) : Timer κ :=
  if t ∈ s.list ∧ (s.timers t).Expired now then { s.timers t with added := 0 } else s.timers t

theorem swept_expires {time : BitVec 32} (t : ι) :
    (s.swept time t).expires = (s.timers t).expires := by
  unfold swept
  split
  · rfl
  · rfl

def kept (s : TimerList ι κ) (now : BitVec 32) : List ι :=
  (s.list.filter fun t => ¬ (s.timers t).Expired now).reverse

omit [DecidableEq ι] in
theorem mem_kept {time : BitVec 32} :
    t ∈ s.kept time ↔ t ∈ s.list ∧ ¬ (s.timers t).Expired time := by
  simp [kept]

theorem handler_eq (s : TimerList ι κ) (time : BitVec 32) :
    ∃ alarm, (s.timerListHandler time).1 =
      { timers := s.swept time
        list := s.kept time
        when := earliest (s.swept time) (time + ticks maxTime) (s.kept time)
        alarm := alarm } := by
  have list := sweep_list time s.list { s with list := [] }
  rw [List.append_nil] at list
  have timers : (sweep time s.list { s with list := [] }).1.timers = s.swept time :=
    funext sweep_timer
  unfold timerListHandler setTimer
  simp only [list, timers]
  exact ⟨_, rfl⟩

theorem Follows.wake (follows : Follows g func s)
    (near : ∀ entry ∈ g.entries, Near 32 entry.2 now) :
    earliest (s.swept (ticks now)) (ticks now + ticks maxTime) (s.kept (ticks now)) =
      ticks (g.step maxTime (.poll now)).wake := by
  have listed : ∀ t, ∃ due, t ∈ s.list → (t, due) ∈ g.entries := by
    intro t
    by_cases inside : t ∈ s.list
    · obtain ⟨due, entry⟩ := follows.listed t inside
      exact ⟨due, fun _ => entry⟩
    · exact ⟨0, fun present => absurd present inside⟩
  choose due entry using listed
  have close : now ≤ now + maxTime ∧ now + maxTime < now + 2 ^ 31 := by
    unfold maxTime
    omega
  have each : ∀ t ∈ s.kept (ticks now), (s.swept (ticks now) t).expires = ticks (due t) ∧
      now ≤ due t ∧ due t < now + 2 ^ 31 := by
    intro t member
    obtain ⟨inside, later⟩ := mem_kept.mp member
    have bound := near _ (entry t inside)
    rw [follows.expired_iff near (entry t inside)] at later
    unfold Near at bound
    rw [swept_expires]
    exact ⟨(follows.entered t _ (entry t inside)).2, by omega, by omega⟩
  rw [← BitVec.ofInt_add, earliest_spec close each]
  congr 1
  apply eq_of_forall_le_iff
  intro bound
  rw [le_foldl_min]
  unfold Agenda.step
  rw [Finset.le_fold_min]
  apply and_congr_right'
  constructor
  · rintro below ⟨t, time⟩ member
    obtain ⟨present, later⟩ := Finset.mem_filter.mp member
    have inside := (follows.entered t time present).1
    have same := follows.single.single t time (due t) present (entry t inside)
    have alive : ¬ (s.timers t).Expired (ticks now) := by
      rw [follows.expired_iff near present]
      exact not_le.mpr later
    exact (below t (mem_kept.mpr ⟨inside, alive⟩)).trans_eq same.symm
  · intro below t member
    obtain ⟨inside, later⟩ := mem_kept.mp member
    rw [follows.expired_iff near (entry t inside)] at later
    exact below (t, due t) (Finset.mem_filter.mpr ⟨entry t inside, by simpa using later⟩)

theorem Follows.handler (follows : Follows g func s)
    (near : ∀ entry ∈ g.entries, Near 32 entry.2 now) :
    Follows (g.step maxTime (.poll now)) func (s.step (.handler now)) := by
  obtain ⟨alarm, after⟩ := handler_eq s (ticks now)
  rw [step, after]
  constructor
  · exact follows.single.step _
  · exact List.nodup_reverse.mpr (follows.nodup.filter _)
  · intro other
    simp only [mem_kept, swept]
    by_cases inside : other ∈ s.list
    · by_cases expired : (s.timers other).Expired (ticks now)
      · simp [inside, expired]
      · simp [inside, expired, follows.marked]
    · simp [inside, follows.marked]
  · intro other member
    obtain ⟨inside, later⟩ := mem_kept.mp member
    obtain ⟨due, entry⟩ := follows.listed other inside
    rw [follows.expired_iff near entry] at later
    exact ⟨due, Agenda.mem_step.mpr (Or.inr ⟨not_le.mp later, entry⟩)⟩
  · intro other due entry
    rcases Agenda.mem_step.mp entry with same | ⟨later, present⟩
    · cases same
    · obtain ⟨inside, expires⟩ := follows.entered other due present
      have alive : ¬ (s.timers other).Expired (ticks now) := by
        rw [follows.expired_iff near present]
        exact not_le.mpr later
      exact ⟨mem_kept.mpr ⟨inside, alive⟩, (swept_expires other).trans expires⟩
  · exact follows.wake near
  · intro other
    simp only [swept]
    split
    · exact follows.func other
    · exact follows.func other

omit [DecidableEq ι] in
theorem called_sublist (list : List ι) :
    ((list.filterMap fun t => (func t).map fun f => (t, f)).map Prod.fst).Sublist list := by
  induction list with
  | nil => exact List.Sublist.refl []
  | cons t list ih =>
      rw [List.filterMap_cons]
      cases func t with
      | none => exact ih.cons t
      | some f => exact ih.cons_cons t

theorem Follows.calls (follows : Follows g func s)
    (near : ∀ entry ∈ g.entries, Near 32 entry.2 now) :
    ((s.timerListHandler (ticks now)).2.map Prod.fst).Nodup ∧
      ∀ t f, (t, f) ∈ (s.timerListHandler (ticks now)).2 ↔
        func t = some f ∧ ∃ due ≤ now, (t, due) ∈ g.entries := by
  have calls : (s.timerListHandler (ticks now)).2 = _ :=
    sweep_calls (ticks now) s.list { s with list := [] }
  rw [calls]
  constructor
  · exact (follows.nodup.filter _).sublist (called_sublist _)
  · intro t f
    simp only [List.mem_filterMap, List.mem_filter, decide_eq_true_eq, Option.map_eq_some_iff,
      Prod.mk.injEq, follows.func]
    constructor
    · rintro ⟨t, ⟨inside, expired⟩, f, called, rfl, rfl⟩
      obtain ⟨due, entry⟩ := follows.listed t inside
      exact ⟨called, due, (follows.expired_iff near entry).mp expired, entry⟩
    · rintro ⟨called, due, passed, entry⟩
      have inside := (follows.entered t due entry).1
      exact ⟨t, ⟨inside, (follows.expired_iff near entry).mpr passed⟩, f, called, rfl, rfl⟩

theorem Follows.step (follows : Follows g func s) {op : TimerOp ι} (fits : Fits g op) :
    Follows (g.step maxTime op.plan) func (s.step op) := by
  cases op with
  | add t expires now => exact follows.add fits
  | del t => exact follows.del
  | handler now => exact follows.handler fits

theorem agenda_concat (ops : List (TimerOp ι)) (op : TimerOp ι) :
    agenda start (ops ++ [op]) = (agenda start ops).step maxTime op.plan := by
  unfold agenda
  rw [List.map_append, List.map_singleton, Agenda.run_concat]

theorem allFit_nil : AllFit start ([] : List (TimerOp ι)) := by
  intro before op after split
  exact absurd split (by simp)

theorem allFit_concat {ops : List (TimerOp ι)} {op : TimerOp ι} :
    AllFit start (ops ++ [op]) ↔ AllFit start ops ∧ Fits (agenda start ops) op := by
  constructor
  · intro fit
    constructor
    · intro before other after split
      apply fit before other (after ++ [op])
      rw [split, List.append_assoc, List.cons_append]
    · exact fit ops op [] rfl
  · rintro ⟨fit, last⟩ before other after split
    rcases List.eq_nil_or_concat after with rfl | ⟨front, final, rfl⟩
    · obtain ⟨rfl, same⟩ := List.append_inj' split rfl
      cases same
      exact last
    · have parts : ops ++ [op] = (before ++ other :: front) ++ [final] := by simpa using split
      exact fit before other front (List.append_inj' parts rfl).1

theorem Follows.run {ops : List (TimerOp ι)} (fit : AllFit start ops) :
    Follows (agenda start ops) func ((modemTimerInit func (ticks start)).run ops) := by
  induction ops using List.reverseRec with
  | nil => exact Follows.init
  | append_singleton ops op ih =>
      obtain ⟨earlier, last⟩ := allFit_concat.mp fit
      rw [TimerList.run, List.foldl_append, agenda_concat]
      exact (ih earlier).step last

end Steps

end TimerList

/-! ### Timers fire on time -/

/-- The operation neither sets the timer again nor deletes it, and does not come at its expiry
or later. -/
def TimerOp.Spares (t : ι) (expires : Int) : TimerOp ι → Prop
  | .add other _ _ => other ≠ t
  | .del other => other ≠ t
  | .handler now => now < expires

/-- The timer has been added with this expiry, and is still waiting for it. -/
def Waits (ops : List (TimerOp ι)) (t : ι) (expires : Int) : Prop :=
  ∃ before now after, ops = before ++ .add t expires now :: after ∧
    ∀ op ∈ after, op.Spares t expires

section Plan

variable {ops : List (TimerOp ι)} {t : ι} {expires start : Int}

omit [DecidableEq ι] in
theorem leaves_plan {op : TimerOp ι} : Agenda.Leaves t expires op.plan ↔ op.Spares t expires := by
  cases op with
  | add other due now => exact Iff.rfl
  | del other => exact Iff.rfl
  | handler now => exact Iff.rfl

omit [DecidableEq ι] in
theorem plan_arm {op : TimerOp ι} (same : op.plan = .arm t expires) :
    ∃ now, op = .add t expires now := by
  cases op with
  | add other due now =>
      cases same
      exact ⟨now, rfl⟩
  | del other => cases same
  | handler now => cases same

theorem mem_agenda : (t, expires) ∈ (agenda start ops).entries ↔ Waits ops t expires := by
  rw [agenda, Agenda.mem_run]
  constructor
  · rintro ⟨before, after, split, leaves⟩
    obtain ⟨front, rest, rfl, rfl, tail⟩ := List.map_eq_append_iff.mp split
    obtain ⟨op, back, rfl, armed, rfl⟩ := List.map_eq_cons_iff.mp tail
    obtain ⟨now, rfl⟩ := plan_arm armed
    refine ⟨front, now, back, rfl, ?_⟩
    intro op member
    exact leaves_plan.mp (leaves op.plan (List.mem_map_of_mem member))
  · rintro ⟨before, now, after, rfl, spares⟩
    refine ⟨before.map TimerOp.plan, after.map TimerOp.plan, by simp [TimerOp.plan], ?_⟩
    intro plan planned
    obtain ⟨op, member, rfl⟩ := List.mem_map.mp planned
    exact leaves_plan.mpr (spares op member)

end Plan

/-- After every sequence of operations the list holds the timers that are added, once each,
the wake-up time is not later than any of their expiries, and the handler calls back just the
timers that have waited until then, once each. -/
theorem timers_fire_once_on_time (func : ι → Option κ) (start : Int) (ops : List (TimerOp ι))
    (fit : AllFit start ops) :
    let s := (TimerList.modemTimerInit func (ticks start)).run ops
    s.list.Nodup ∧ (∀ t, t ∈ s.list ↔ (s.timers t).added = 1) ∧
      s.when = ticks (agenda start ops).wake ∧
      (∀ t ∈ s.list, ∃ expires, Waits ops t expires ∧ (s.timers t).expires = ticks expires ∧
        (agenda start ops).wake ≤ expires) ∧
      ∀ now, AllFit start (ops ++ [.handler now]) →
        ((s.timerListHandler (ticks now)).2.map Prod.fst).Nodup ∧
          ∀ t f, (t, f) ∈ (s.timerListHandler (ticks now)).2 ↔
            func t = some f ∧ ∃ expires ≤ now, Waits ops t expires := by
  intro s
  have run : TimerList.Follows (agenda start ops) func s := TimerList.Follows.run fit
  refine ⟨run.nodup, ?_, run.when, ?_, ?_⟩
  · intro t
    rw [run.marked t]
    by_cases inside : t ∈ s.list
    · exact iff_of_true inside (if_pos inside)
    · rw [if_neg inside]
      exact iff_of_false inside Nat.zero_ne_one
  · intro t inside
    obtain ⟨expires, entry⟩ := run.listed t inside
    exact ⟨expires, mem_agenda.mp entry, (run.entered t expires entry).2, run.single.early _ entry⟩
  · intro now soon
    have near := (TimerList.allFit_concat.mp soon).2
    obtain ⟨once, calls⟩ := run.calls near
    refine ⟨once, ?_⟩
    intro t f
    apply (calls t f).trans
    simp only [mem_agenda]

def twoTimers : List (TimerOp Nat) :=
  [.add 0 10 0, .add 1 15 0, .add 0 30 5, .del 1, .handler 20]

/-- Timer 0 is set again for 30, and timer 1 is deleted. -/
theorem timers_fire_once_on_time_two :
    (((TimerList.modemTimerInit some (ticks 0)).run twoTimers).timerListHandler (ticks 35)).2 =
        [(0, 0)] ∧
      ∀ t f, (t, f) ∈ (((TimerList.modemTimerInit some (ticks 0)).run
          twoTimers).timerListHandler (ticks 35)).2 ↔
        some t = some f ∧ ∃ expires ≤ 35, Waits twoTimers t expires := by
  have early : AllFit 0 (([] ++ [TimerOp.add 0 10 0]) ++ [.add 1 15 0] ++ [.add 0 30 5]) := by
    rw [TimerList.allFit_concat, TimerList.allFit_concat, TimerList.allFit_concat]
    exact ⟨⟨⟨TimerList.allFit_nil, by decide +kernel⟩, by decide +kernel⟩, by decide +kernel⟩
  have fit : AllFit 0 (([TimerOp.add 0 10 0, .add 1 15 0, .add 0 30 5] ++ [.del 1]) ++
      [.handler 20]) := by
    rw [TimerList.allFit_concat, TimerList.allFit_concat]
    exact ⟨⟨early, trivial⟩, by decide +kernel⟩
  have soon : AllFit 0 (twoTimers ++ [.handler 35]) :=
    TimerList.allFit_concat.mpr ⟨fit, by decide +kernel⟩
  exact ⟨by decide +kernel,
    ((timers_fire_once_on_time some 0 twoTimers fit).2.2.2.2 35 soon).2⟩

end DModem.Timers
