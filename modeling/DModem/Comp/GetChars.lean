/-
The compressing read path: `modem_comp_get_chars` of `modem.c` with `modem_comp_encode` and
`modem_comp_flush_encoder`.

A character is taken from the queue before the encoder is asked for room: `modem_comp_encode`
returns early, and drops it, if what is left of the output fills the buffer of the caller.
What is left is never as much as that.
-/

import DModem.Comp.Terminal
import DModem.Comp.Emission

namespace DModem.Comp

/-- The transmit queue and the encoder, with what was taken from the queue, what the encoder
was given and wrote, how long its output became, and what each call returned. -/
structure CompSource where
  queue : List UInt8
  encoder : CompState
  taken : List UInt8
  encoded : List UInt8
  emitted : List UInt8
  peak : Nat
  returned : List (Nat × List UInt8)

namespace CompSource

def start (c : CompState) : CompSource :=
  { queue := []
    encoder := c
    taken := []
    encoded := []
    emitted := []
    peak := 0
    returned := [] }

/-- The encoder `before` a call and `after` it. -/
def log (s : CompSource) (before after : CompState) : CompSource :=
  { s with
    emitted := s.emitted ++ after.obuf.drop before.obuf.length
    peak := max s.peak after.obuf.length }

/-- What `modem_comp_encode` and `modem_comp_flush_encoder` share: the bytes that are left, a
call of the encoder with `chars` if there is room after them, and the bytes that it wrote. -/
def through (s : CompSource) (call : CompState → Except Fault CompState) (chars : List UInt8)
    (n : Nat) : Except Fault (CompSource × List UInt8) :=
  let held := s.encoder.getOdata n
  if held.2.length = n then .ok ({ s with encoder := held.1 }, held.2)
  else do
    let c ← call held.1
    let more := c.getOdata (n - held.2.length)
    .ok ({ s.log held.1 c with encoder := more.1, encoded := s.encoded ++ chars },
      held.2 ++ more.2)

/-- `modem_comp_encode`. -/
def modemCompEncode (s : CompSource) (ch : UInt8) (n : Nat) :
    Except Fault (CompSource × List UInt8) := s.through (·.compEncode [ch]) [ch] n

/-- `modem_comp_flush_encoder`. -/
def modemCompFlushEncoder (s : CompSource) (n : Nat) : Except Fault (CompSource × List UInt8) :=
  s.through (·.compFlushEncoder) [] n

/-- The `while` of `modem_comp_get_chars`; the list is the queue. -/
def getLoop (n : Nat) :
    CompSource → List UInt8 → List UInt8 → Except Fault (CompSource × List UInt8)
  | s, buf, [] => .ok ({ s with queue := [] }, buf)
  | s, buf, ch :: rest =>
      if buf.length < n then do
        let (s, data) ← { s with taken := s.taken ++ [ch] }.modemCompEncode ch (n - buf.length)
        getLoop n s (buf ++ data) rest
      else .ok ({ s with queue := ch :: rest }, buf)

/-- `modem_comp_get_chars`. -/
def modemCompGetChars (s : CompSource) (n : Nat) : Except Fault (CompSource × List UInt8) := do
  let (s, buf) ← getLoop n s [] s.queue
  if buf.length < n then do
    let (s, data) ← s.modemCompFlushEncoder (n - buf.length)
    .ok (s, buf ++ data)
  else .ok (s, buf)

end CompSource

/-- Characters arrive in the queue, or the link layer asks for `n` bytes. -/
inductive SourceCall where
  | arrive (chars : List UInt8)
  | get (n : Nat)
  deriving DecidableEq, Repr

namespace CompSource

def step (s : CompSource) : SourceCall → Except Fault CompSource
  | .arrive chars => .ok { s with queue := s.queue ++ chars }
  | .get n => do
      let (s, buf) ← s.modemCompGetChars n
      .ok { s with returned := s.returned ++ [(n, buf)] }

def run : CompSource → List SourceCall → Except Fault CompSource
  | s, [] => .ok s
  | s, call :: rest => do
      let s ← s.step call
      s.run rest

/-- What the callers got. -/
def output (s : CompSource) : List UInt8 := (s.returned.map Prod.snd).flatten

/-- No character is lost, the output is what the encoder wrote, and it fits everywhere. -/
structure Lossless (s : CompSource) (arrived : List UInt8) : Prop where
  encoded : s.encoded = s.taken
  taken : s.taken ++ s.queue = arrived
  output : s.output ++ s.encoder.obuf.drop s.encoder.ohead = s.emitted
  peak : s.peak ≤ obufSize
  fits : ∀ call ∈ s.returned, call.2.length ≤ call.1

end CompSource

/-- What has arrived in the queue. -/
def arrivals : List SourceCall → List UInt8
  | [] => []
  | .arrive chars :: rest => chars ++ arrivals rest
  | .get _ :: rest => arrivals rest

namespace CompSource

/-- What `get_odata` does: it hands out what is left, as far as there is room. -/
structure Drawn (c : CompState) (n : Nat) (c' : CompState) (data : List UInt8) : Prop where
  inside : c'.ohead ≤ c'.obuf.length
  split : c.obuf.drop c.ohead = data ++ c'.obuf.drop c'.ohead
  few : data.length ≤ n
  whole : c.obuf.length - c.ohead < n → data.length < n
  all : data.length < n → c'.obuf = [] ∧ c'.ohead = 0
  shorter : c'.obuf.length ≤ c.obuf.length
  bitLen : c'.bitLen = c.bitLen
  threshold : c'.threshold = c.threshold
  cwSize : c'.cwSize = c.cwSize
  matcher : c'.matcher = c.matcher

theorem getOdata_drawn {c : CompState} (n : Nat) (inside : c.ohead ≤ c.obuf.length) :
    Drawn c n (c.getOdata n).1 (c.getOdata n).2 := by
  unfold CompState.getOdata
  by_cases some : c.obuf.length > 0
  · rw [if_pos some]
    have length : ((c.obuf.drop c.ohead).take (min (c.obuf.length - c.ohead) n)).length =
        min (c.obuf.length - c.ohead) n := by
      rw [List.length_take, List.length_drop]
      omega
    by_cases all : c.ohead + min (c.obuf.length - c.ohead) n = c.obuf.length
    · simp only [all, if_true]
      have whole : (c.obuf.drop c.ohead).take (min (c.obuf.length - c.ohead) n) =
          c.obuf.drop c.ohead := by
        apply List.take_of_length_le
        rw [List.length_drop]
        omega
      refine ⟨Nat.le_refl 0, ?_, ?_, ?_, fun _ => ⟨rfl, rfl⟩, Nat.zero_le _, rfl, rfl, rfl, rfl⟩
      · rw [whole]
        exact (List.append_nil _).symm
      · omega
      · omega
    · simp only [all, if_false]
      refine ⟨?_, ?_, ?_, ?_, ?_, Nat.le_refl _, rfl, rfl, rfl, rfl⟩
      · simp only
        omega
      · simp only
        rw [← List.drop_drop, List.take_append_drop]
      · omega
      · omega
      · intro less
        omega
  · have empty : c.obuf = [] := List.eq_nil_of_length_eq_zero (by omega)
    have zero : c.ohead = 0 := by omega
    rw [if_neg some]
    refine ⟨inside, ?_, Nat.zero_le n, fun less => ?_, fun _ => ⟨empty, zero⟩, Nat.le_refl _,
      rfl, rfl, rfl, rfl⟩
    · rw [List.nil_append]
    · simp only [List.length_nil]
      omega

/-- The invariant of the loop: `buf` is what the call has collected. -/
structure Level (s : CompSource) (buf : List UInt8) : Prop where
  encodes : s.encoder.Encodes
  bits : s.encoder.bitLen < 8
  inside : s.encoder.ohead ≤ s.encoder.obuf.length
  few : s.encoder.obuf.length ≤ 122
  output : s.output ++ buf ++ s.encoder.obuf.drop s.encoder.ohead = s.emitted
  peak : s.peak ≤ 122

def Room (s : CompSource) (n : Nat) : Prop := s.encoder.obuf.length - s.encoder.ohead < n

section Run

variable {s s' : CompSource} {buf : List UInt8} {n : Nat}

theorem Level.through (level : Level s buf) (room : s.Room n)
    {call : CompState → Except Fault CompState} (chars : List UInt8)
    (works : ∀ c : CompState, c.Encodes → c.bitLen < 8 →
      ∃ c', call c = .ok c' ∧ c'.Encodes ∧ c'.bitLen < 8 ∧ c.Emits 122 c') :
    ∃ s' data, s.through call chars n = .ok (s', data) ∧ data.length ≤ n ∧
      (data.length < n → s'.encoder.obuf = [] ∧ s'.encoder.ohead = 0) ∧
      Level s' (buf ++ data) ∧
      s'.encoded = s.encoded ++ chars ∧ s'.taken = s.taken ∧ s'.queue = s.queue ∧
      s'.returned = s.returned := by
  have held := getOdata_drawn n level.inside
  have less := held.whole room
  obtain ⟨empty, zero⟩ := held.all less
  have encodes : (s.encoder.getOdata n).1.Encodes :=
    level.encodes.congr (level.encodes.toCharted.congr held.threshold held.cwSize) held.matcher
  have bits : (s.encoder.getOdata n).1.bitLen < 8 := by
    rw [held.bitLen]
    exact level.bits
  obtain ⟨c, called, encodes', bits', emits⟩ := works _ encodes bits
  obtain ⟨bytes, obuf, length⟩ := emits.appends
  rw [empty, List.nil_append] at obuf
  have ohead : c.ohead = 0 := emits.ohead.trans zero
  have inside : c.ohead ≤ c.obuf.length := by omega
  have more := getOdata_drawn (n - (s.encoder.getOdata n).2.length) inside
  have fits : c.obuf.length ≤ 122 := by
    rw [obuf]
    exact length
  unfold CompSource.through
  simp only
  rw [if_neg (by omega), called, ok_bind]
  refine ⟨_, _, rfl, ?_, ?_, ?_, rfl, rfl, rfl, rfl⟩
  · rw [List.length_append]
    have := more.few
    omega
  · intro short
    rw [List.length_append] at short
    exact more.all (by omega)
  · constructor
    · exact encodes'.congr (encodes'.toCharted.congr more.threshold more.cwSize) more.matcher
    · change (c.getOdata _).1.bitLen < 8
      rw [more.bitLen]
      exact bits'
    · exact more.inside
    · exact Nat.le_trans more.shorter fits
    · change s.output ++ (buf ++ ((s.encoder.getOdata n).2 ++ _)) ++ _ =
        s.emitted ++ c.obuf.drop (s.encoder.getOdata n).1.obuf.length
      rw [empty, ← level.output, held.split, empty, List.drop_nil, List.append_nil]
      have split := more.split
      rw [ohead, List.drop_zero] at split
      simp only [List.length_nil, List.drop_zero, List.append_assoc]
      rw [split]
    · exact Nat.max_le.mpr ⟨level.peak, fits⟩

theorem encode_works {ch : UInt8} (c : CompState) (encodes : c.Encodes) (bits : c.bitLen < 8) :
    ∃ c', c.compEncode [ch] = .ok c' ∧ c'.Encodes ∧ c'.bitLen < 8 ∧ c.Emits 122 c' := by
  obtain ⟨c', encoded, -⟩ := encodes.compEncode [ch]
  exact ⟨c', encoded, encodes.compEncode_emits bits encoded⟩

theorem flush_works (c : CompState) (encodes : c.Encodes) (bits : c.bitLen < 8) :
    ∃ c', c.compFlushEncoder = .ok c' ∧ c'.Encodes ∧ c'.bitLen < 8 ∧ c.Emits 122 c' := by
  obtain ⟨c', flushed, -⟩ := encodes.compFlushEncoder
  exact ⟨c', flushed, encodes.compFlushEncoder_emits bits flushed⟩

theorem Level.getLoop (level : Level s buf) (few : buf.length ≤ n)
    (room : buf.length < n → s.Room (n - buf.length)) (same : s.encoded = s.taken)
    (queue : List UInt8) :
    ∃ s' buf', CompSource.getLoop n s buf queue = .ok (s', buf') ∧ Level s' buf' ∧
      buf'.length ≤ n ∧ (buf'.length < n → s'.Room (n - buf'.length)) ∧
      s'.encoded = s'.taken ∧ s'.taken ++ s'.queue = s.taken ++ queue ∧
      s'.returned = s.returned := by
  induction queue generalizing s buf with
  | nil =>
      have still : Level { s with queue := [] } buf :=
        ⟨level.encodes, level.bits, level.inside, level.few, level.output, level.peak⟩
      exact ⟨_, buf, rfl, still, few, room, same, rfl, rfl⟩
  | cons ch rest ih =>
      by_cases more : buf.length < n
      · have taking : Level { s with taken := s.taken ++ [ch] } buf :=
          ⟨level.encodes, level.bits, level.inside, level.few, level.output, level.peak⟩
        obtain ⟨s₁, data, passed, short, drained, level₁, encoded, taken, queued, returned⟩ :=
          taking.through (room more) [ch] (fun c => encode_works c)
        have both : (buf ++ data).length = buf.length + data.length := List.length_append
        have room₁ : (buf ++ data).length < n → s₁.Room (n - (buf ++ data).length) := by
          intro less
          obtain ⟨empty, zero⟩ := drained (by omega)
          unfold Room
          rw [empty, zero]
          simp only [List.length_nil]
          omega
        have same₁ : s₁.encoded = s₁.taken := by
          rw [encoded, taken]
          exact congrArg (· ++ [ch]) same
        obtain ⟨s', buf', looped, level', few', room', same', all, returned'⟩ :=
          ih level₁ (by omega) room₁ same₁
        refine ⟨s', buf', ?_, level', few', room', same', ?_, returned'.trans returned⟩
        · rw [CompSource.getLoop, if_pos more]
          unfold modemCompEncode
          rw [passed]
          exact looped
        · rw [all, taken]
          exact List.append_assoc _ _ _
      · refine ⟨{ s with queue := ch :: rest }, buf, ?_, ?_, few, room, same, rfl, rfl⟩
        · rw [CompSource.getLoop, if_neg more]
        · exact ⟨level.encodes, level.bits, level.inside, level.few, level.output, level.peak⟩

theorem Level.getChars (level : Level s []) (wide : 128 ≤ n) (same : s.encoded = s.taken) :
    ∃ s' buf, s.modemCompGetChars n = .ok (s', buf) ∧ Level s' buf ∧ buf.length ≤ n ∧
      s'.encoded = s'.taken ∧ s'.taken ++ s'.queue = s.taken ++ s.queue ∧
      s'.returned = s.returned := by
  have room : s.Room n := by
    have few := level.few
    unfold Room
    omega
  obtain ⟨s₁, buf, looped, level₁, few, room₁, same₁, all, returned⟩ :=
    level.getLoop (Nat.zero_le n) (fun _ => room) same s.queue
  unfold modemCompGetChars
  rw [looped, ok_bind]
  simp only
  by_cases more : buf.length < n
  · obtain ⟨s₂, data, passed, short, -, level₂, encoded, taken, queued, returned₂⟩ :=
      level₁.through (room₁ more) [] flush_works
    unfold modemCompFlushEncoder
    rw [if_pos more, passed, ok_bind]
    refine ⟨s₂, buf ++ data, rfl, level₂, ?_, ?_, ?_, returned₂.trans returned⟩
    · rw [List.length_append]
      omega
    · rw [encoded, List.append_nil, taken]
      exact same₁
    · rw [taken, queued]
      exact all
  · rw [if_neg more]
    exact ⟨s₁, buf, rfl, level₁, few, same₁, all, returned⟩

structure Steady (s : CompSource) (arrived : List UInt8) : Prop extends Level s [] where
  encoded : s.encoded = s.taken
  taken : s.taken ++ s.queue = arrived
  fits : ∀ call ∈ s.returned, call.2.length ≤ call.1

theorem Steady.step {arrived : List UInt8} (steady : Steady s arrived) (call : SourceCall)
    (wide : ∀ n, call = .get n → 128 ≤ n) :
    ∃ s', s.step call = .ok s' ∧ Steady s' (arrived ++ arrivals [call]) := by
  cases call with
  | arrive chars =>
      have level : Level { s with queue := s.queue ++ chars } [] :=
        ⟨steady.encodes, steady.bits, steady.inside, steady.few, steady.output, steady.peak⟩
      refine ⟨_, rfl, ⟨level, steady.encoded, ?_, steady.fits⟩⟩
      change s.taken ++ (s.queue ++ chars) = arrived ++ (chars ++ [])
      rw [← steady.taken, List.append_nil, List.append_assoc]
  | get n =>
      obtain ⟨s', buf, got, level, few, same, all, returned⟩ :=
        steady.toLevel.getChars (wide n rfl) steady.encoded
      refine ⟨{ s' with returned := s'.returned ++ [(n, buf)] }, ?_, ⟨?_, same, ?_, ?_⟩⟩
      · rw [CompSource.step, got, ok_bind]
      · refine ⟨level.encodes, level.bits, level.inside, level.few, ?_, level.peak⟩
        have output := level.output
        unfold CompSource.output at output ⊢
        simp only [List.map_append, List.map_cons, List.map_nil, List.flatten_append,
          List.flatten_cons, List.flatten_nil, List.append_nil]
        exact output
      · change s'.taken ++ s'.queue = arrived ++ []
        rw [all, List.append_nil]
        exact steady.taken
      · intro call member
        change call ∈ s'.returned ++ [(n, buf)] at member
        rw [returned] at member
        rcases List.mem_append.mp member with before | last
        · exact steady.fits call before
        · obtain rfl := List.mem_singleton.mp last
          exact few

theorem Steady.run {arrived : List UInt8} (steady : Steady s arrived) (calls : List SourceCall)
    (wide : ∀ n, .get n ∈ calls → 128 ≤ n) :
    ∃ s', s.run calls = .ok s' ∧ Steady s' (arrived ++ arrivals calls) := by
  induction calls generalizing s arrived with
  | nil =>
      refine ⟨s, rfl, ?_⟩
      unfold arrivals
      rw [List.append_nil]
      exact steady
  | cons call rest ih =>
      obtain ⟨s₁, stepped, steady₁⟩ :=
        steady.step call fun n same => wide n (same ▸ List.mem_cons_self)
      obtain ⟨s', ran, steady'⟩ := ih steady₁ fun n member =>
        wide n (List.mem_cons_of_mem _ member)
      refine ⟨s', ?_, ?_⟩
      · rw [CompSource.run, stepped, ok_bind, ran]
      · have joined : arrivals (call :: rest) = arrivals [call] ++ arrivals rest := by
          cases call with
          | arrive chars => simp only [arrivals, List.append_nil]
          | get n => rfl
        rw [joined, ← List.append_assoc]
        exact steady'

end Run

end CompSource

open CompSource

/-- The compressing read path loses no character and fits its buffers. -/
theorem comp_source_lossless (c : CompState) (initialised : compInit 2048 34 = some c)
    (calls : List SourceCall) (wide : ∀ n, .get n ∈ calls → 128 ≤ n) :
    ∃ s, (start c).run calls = .ok s ∧ s.Lossless (arrivals calls) := by
  have sound := compInit_sound (by decide) (by decide) (by decide) (by decide) initialised
  have fresh : c.bitLen = 0 ∧ c.obuf = [] ∧ c.ohead = 0 := by
    unfold compInit at initialised
    split at initialised
    · cases initialised
    · obtain rfl := Option.some.inj initialised
      exact ⟨rfl, rfl, rfl⟩
  obtain ⟨bits, obuf, ohead⟩ := fresh
  have level : Level (start c) [] := by
    refine ⟨sound.enc, ?_, ?_, ?_, ?_, Nat.zero_le _⟩
    · change c.bitLen < 8
      omega
    · change c.ohead ≤ c.obuf.length
      omega
    · change c.obuf.length ≤ 122
      rw [obuf]
      decide
    · change [] ++ [] ++ c.obuf.drop c.ohead = []
      rw [obuf, List.drop_nil]
      rfl
  have steady : Steady (start c) [] := ⟨level, rfl, rfl, fun _ none => absurd none (by simp [start])⟩
  obtain ⟨s, ran, kept⟩ := steady.run calls wide
  refine ⟨s, ran, kept.encoded, kept.taken, ?_, ?_, kept.fits⟩
  · have output := kept.output
    rw [List.append_nil] at output
    exact output
  · have peak := kept.peak
    unfold obufSize
    omega

theorem comp_source_lossless_typed :
    ∃ s, (start (dictInit (compAlloc 2048 34))).run [.arrive [97, 98], .get 128] = .ok s ∧
      s.Lossless [97, 98] :=
  comp_source_lossless (dictInit (compAlloc 2048 34)) rfl [.arrive [97, 98], .get 128]
    (fun n member => by simp at member; omega)

end DModem.Comp
