/-
The `xmit` queue of `modem.c` with its indices.

`modem_write` and `modem_get_chars` copy in up to two pieces around the end of the
buffer, and compare signed counts with differences of unsigned indices.  Both refine
a list of at most `XMIT_SIZE` bytes, which is what the rest of the development takes
the queue for.
-/

import DModem.Lib.Ring
import DModem.Modem.Run

namespace DModem.Modem

open DModem.Lib

/-- `struct xmit_queue`; `count` is an `int`, the others are unsigned. -/
structure XmitQueue where
  count : BitVec 32
  head : BitVec 32
  tail : BitVec 32
  size : BitVec 32
  buf : List UInt8
  deriving DecidableEq, Repr

namespace XmitQueue

/-- The queue of `modem_create`. -/
def create : XmitQueue :=
  { count := 0
    head := 0
    tail := 0
    size := BitVec.ofNat 32 xmitSize
    buf := List.replicate xmitSize 0 }

/-- `m->xmit.head = m->xmit.tail = m->xmit.count = 0`. -/
def clear (q : XmitQueue) : XmitQueue := { q with count := 0, head := 0, tail := 0 }

/-- The comparison of two `int`s: `if (cnt > bound) cnt = bound`. -/
def clipSigned (cnt bound : BitVec 32) : BitVec 32 := if bound.slt cnt then bound else cnt

def clipUnsigned (cnt bound : BitVec 32) : BitVec 32 := if bound.ult cnt then bound else cnt

def getCount (q : XmitQueue) (n : BitVec 32) : BitVec 32 :=
  clipUnsigned (clipSigned n q.count) (q.size - q.tail)

/-- The `while (n)` of `modem_get_chars`; every round takes a byte, so that `n`
rounds are enough. -/
def getLoop : Nat → XmitQueue → BitVec 32 → XmitQueue × List UInt8
  | 0, q, _ => (q, [])
  | rounds + 1, q, n =>
      if n = 0 then (q, [])
      else
        let cnt := q.getCount n
        if cnt.sle 0 then (q, [])
        else
          let piece := (q.buf.drop q.tail.toNat).take cnt.toNat
          let rest := getLoop rounds
            { q with count := q.count - cnt, tail := (q.tail + cnt) % q.size } (n - cnt)
          (rest.1, piece ++ rest.2)

def modemGetChars (q : XmitQueue) (n : BitVec 32) : XmitQueue × List UInt8 :=
  q.getLoop n.toNat n

def putCount (q : XmitQueue) (count : BitVec 32) : BitVec 32 :=
  clipUnsigned (clipUnsigned count (q.size - q.count)) (q.size - q.head)

/-- The `while (count)` of `modem_write`; the second component is `ret`. -/
def putLoop : Nat → XmitQueue → List UInt8 → BitVec 32 → XmitQueue × BitVec 32
  | 0, q, _, _ => (q, 0)
  | rounds + 1, q, buffer, count =>
      if count = 0 then (q, 0)
      else
        let cnt := q.putCount count
        if cnt.sle 0 then (q, 0)
        else
          let head := q.head.toNat
          let rest := putLoop rounds
            { q with
              buf := q.buf.take head ++ buffer.take cnt.toNat ++ q.buf.drop (head + cnt.toNat)
              count := q.count + cnt
              head := (q.head + cnt) % q.size }
            (buffer.drop cnt.toNat) (count - cnt)
          (rest.1, cnt + rest.2)

/-- The part of `modem_write` that queues. -/
def modemWrite (q : XmitQueue) (buffer : List UInt8) : XmitQueue × BitVec 32 :=
  q.putLoop buffer.length buffer (BitVec.ofNat 32 buffer.length)

def slot (q : XmitQueue) (i : Nat) : UInt8 := q.buf.getD i 0

/-- The bytes in the queue, the oldest first. -/
def items (q : XmitQueue) : List UInt8 :=
  ringSpan xmitSize q.slot q.tail.toNat q.count.toNat

/-- The invariant of the queue. -/
structure Wf (q : XmitQueue) : Prop where
  size : q.size.toNat = xmitSize
  stored : q.buf.length = xmitSize
  tail : q.tail.toNat < xmitSize
  count : q.count.toNat ≤ xmitSize
  head : q.head.toNat = (q.tail.toNat + q.count.toNat) % xmitSize

/-! ### Machine arithmetic -/

section Arithmetic

variable {cnt bound : BitVec 32}

theorem toInt_of_small {x : BitVec 32} (small : x.toNat < 2 ^ 31) : x.toInt = x.toNat :=
  BitVec.toInt_eq_toNat_of_lt (by omega)

theorem clipSigned_toNat (cntSmall : cnt.toNat < 2 ^ 31) (boundSmall : bound.toNat < 2 ^ 31) :
    (clipSigned cnt bound).toNat = min cnt.toNat bound.toNat := by
  unfold clipSigned
  rw [BitVec.slt_eq_decide, toInt_of_small cntSmall, toInt_of_small boundSmall]
  by_cases less : bound.toNat < cnt.toNat
  · simp [less, Nat.min_eq_right (Nat.le_of_lt less)]
  · simp [less, Nat.min_eq_left (Nat.le_of_not_lt less)]

theorem clipUnsigned_toNat : (clipUnsigned cnt bound).toNat = min cnt.toNat bound.toNat := by
  unfold clipUnsigned
  rw [BitVec.ult_eq_decide]
  by_cases less : bound.toNat < cnt.toNat
  · simp [less, Nat.min_eq_right (Nat.le_of_lt less)]
  · simp [less, Nat.min_eq_left (Nat.le_of_not_lt less)]

theorem sle_zero (small : cnt.toNat < 2 ^ 31) : cnt.sle 0 = decide (cnt.toNat = 0) := by
  rw [BitVec.sle_eq_decide, toInt_of_small small]
  simp

theorem sub_toNat (le : bound.toNat ≤ cnt.toNat) : (cnt - bound).toNat = cnt.toNat - bound.toNat :=
  BitVec.toNat_sub_of_le le

theorem add_mod_toNat {size : BitVec 32} (sizeEq : size.toNat = xmitSize)
    (small : bound.toNat + cnt.toNat < 2 ^ 32) :
    ((bound + cnt) % size).toNat = (bound.toNat + cnt.toNat) % xmitSize := by
  rw [BitVec.toNat_umod, BitVec.toNat_add, Nat.mod_eq_of_lt small, sizeEq]

end Arithmetic

/-! ### Taking bytes out -/

section Get

variable {q : XmitQueue}

theorem Wf.create : create.Wf := by
  constructor
  · decide
  · exact List.length_replicate
  · decide
  · decide
  · decide

theorem Wf.clear (wf : q.Wf) : q.clear.Wf := by
  constructor
  · exact wf.size
  · exact wf.stored
  · exact (show 0 < xmitSize by decide)
  · exact Nat.zero_le _
  · rfl

theorem Wf.piece (wf : q.Wf) {first count : Nat} (fits : first + count ≤ xmitSize) :
    (q.buf.drop first).take count = ringSpan xmitSize q.slot first count := by
  rw [ringSpan_flat fits]
  apply List.ext_getElem
  · simp [wf.stored]
    omega
  · intro i within _
    have inside : first + i < q.buf.length := by
      rw [List.length_take, List.length_drop] at within
      omega
    simp [slot, List.getElem?_eq_getElem inside]

theorem Wf.getCount_toNat (wf : q.Wf) {n : BitVec 32} (small : n.toNat < 2 ^ 31) :
    (q.getCount n).toNat = min (min n.toNat q.count.toNat) (xmitSize - q.tail.toNat) := by
  have count := wf.count
  have tail := wf.tail
  rw [getCount, clipUnsigned_toNat, clipSigned_toNat small (by simp only [xmitSize] at count; omega),
    sub_toNat (by rw [wf.size]; omega), wf.size]

/-- A piece of `cnt` bytes is taken. -/
theorem Wf.take (wf : q.Wf) {cnt : BitVec 32} (stored : cnt.toNat ≤ q.count.toNat)
    (flat : q.tail.toNat + cnt.toNat ≤ xmitSize) :
    let after := { q with count := q.count - cnt, tail := (q.tail + cnt) % q.size }
    after.Wf ∧ (q.buf.drop q.tail.toNat).take cnt.toNat = q.items.take cnt.toNat ∧
      after.items = q.items.drop cnt.toNat := by
  have count := wf.count
  have tailEq : ((q.tail + cnt) % q.size).toNat = (q.tail.toNat + cnt.toNat) % xmitSize :=
    add_mod_toNat wf.size (by simp only [xmitSize] at flat; omega)
  have countEq : (q.count - cnt).toNat = q.count.toNat - cnt.toNat := sub_toNat stored
  refine ⟨?_, ?_, ?_⟩
  · constructor
    · exact wf.size
    · exact wf.stored
    · simp only [tailEq]
      exact Nat.mod_lt _ (by decide)
    · simp only [countEq]
      omega
    · simp only [tailEq, countEq, wf.head, Nat.mod_add_mod]
      congr 1
      omega
  · rw [wf.piece flat, items, ringSpan_take stored]
  · rw [items, items, ringSpan_drop stored]
    simp only [tailEq, countEq]
    rfl

theorem Wf.getLoop (wf : q.Wf) (rounds : Nat) {n : BitVec 32} (small : n.toNat < 2 ^ 31)
    (enough : n.toNat ≤ rounds) :
    (q.getLoop rounds n).1.Wf ∧ (q.getLoop rounds n).1.items = q.items.drop n.toNat ∧
      (q.getLoop rounds n).2 = q.items.take n.toNat := by
  induction rounds generalizing q n with
  | zero =>
      have none : n.toNat = 0 := by omega
      rw [none]
      exact ⟨wf, rfl, rfl⟩
  | succ rounds ih =>
      rw [XmitQueue.getLoop]
      have cntEq := wf.getCount_toNat small
      have lengthEq : q.items.length = q.count.toNat := ringSpan_length
      have tail := wf.tail
      by_cases none : n = 0
      · rw [if_pos none, none]
        exact ⟨wf, rfl, rfl⟩
      · rw [if_neg none]
        have positive : n.toNat ≠ 0 := by
          intro zero
          exact none (BitVec.eq_of_toNat_eq zero)
        simp only [sle_zero (show (q.getCount n).toNat < 2 ^ 31 by omega)]
        by_cases empty : (q.getCount n).toNat = 0
        · have drained : q.items = [] := List.eq_nil_of_length_eq_zero (by omega)
          rw [if_pos (by simpa using empty), drained, List.drop_nil, List.take_nil]
          exact ⟨wf, rfl, rfl⟩
        · rw [if_neg (by simpa using empty)]
          obtain ⟨wf', pieceEq, itemsEq⟩ := wf.take (show (q.getCount n).toNat ≤ q.count.toNat by omega)
            (by omega)
          have leftEq : (n - q.getCount n).toNat = n.toNat - (q.getCount n).toNat :=
            sub_toNat (by omega)
          obtain ⟨wf'', restEq, outEq⟩ := ih wf' (n := n - q.getCount n) (by omega) (by omega)
          have whole : (q.getCount n).toNat + (n.toNat - (q.getCount n).toNat) = n.toNat := by
            omega
          refine ⟨wf'', ?_, ?_⟩
          · rw [restEq, itemsEq, List.drop_drop, leftEq, whole]
          · rw [outEq, pieceEq, itemsEq, leftEq, ← List.take_add, whole]

theorem Wf.modemGetChars (wf : q.Wf) {n : BitVec 32} (small : n.toNat < 2 ^ 31) :
    (q.modemGetChars n).1.Wf ∧ (q.modemGetChars n).1.items = q.items.drop n.toNat ∧
      (q.modemGetChars n).2 = q.items.take n.toNat :=
  wf.getLoop n.toNat small (Nat.le_refl _)

end Get

/-! ### Putting bytes in -/

section Put

variable {q : XmitQueue}

theorem Wf.putCount_toNat (wf : q.Wf) (count : BitVec 32) :
    (q.putCount count).toNat =
      min (min count.toNat (xmitSize - q.count.toNat)) (xmitSize - q.head.toNat) := by
  have stored := wf.count
  have head : q.head.toNat < xmitSize := by
    rw [wf.head]
    exact Nat.mod_lt _ (by decide)
  rw [putCount, clipUnsigned_toNat, clipUnsigned_toNat, sub_toNat (by rw [wf.size]; omega),
    sub_toNat (by rw [wf.size]; omega), wf.size]

theorem splice_slot {buf piece : List UInt8} {head : Nat} (fits : head + piece.length ≤ buf.length)
    (i : Nat) :
    (buf.take head ++ piece ++ buf.drop (head + piece.length)).getD i 0 =
      if head ≤ i ∧ i < head + piece.length then piece.getD (i - head) 0 else buf.getD i 0 := by
  have front : (buf.take head).length = head := List.length_take_of_le (by omega)
  by_cases before : i < head
  · rw [if_neg (by omega), List.append_assoc, List.getD_append _ _ _ _ (by omega)]
    simp [List.getD_eq_getElem?_getD, before]
  · by_cases inside : i < head + piece.length
    · rw [if_pos (by omega), List.getD_append _ _ _ _ (by rw [List.length_append]; omega),
        List.getD_append_right _ _ _ _ (by omega), front]
    · rw [if_neg (by omega), List.getD_append_right _ _ _ _ (by rw [List.length_append]; omega),
        List.length_append, front]
      simp only [List.getD_eq_getElem?_getD, List.getElem?_drop]
      rw [show head + piece.length + (i - (head + piece.length)) = i by omega]

theorem Wf.put (wf : q.Wf) {cnt : BitVec 32} {piece : List UInt8}
    (length : piece.length = cnt.toNat) (room : q.count.toNat + cnt.toNat ≤ xmitSize)
    (flat : q.head.toNat + cnt.toNat ≤ xmitSize) :
    let after := { q with
      buf := q.buf.take q.head.toNat ++ piece ++ q.buf.drop (q.head.toNat + cnt.toNat)
      count := q.count + cnt
      head := (q.head + cnt) % q.size }
    after.Wf ∧ after.items = q.items ++ piece := by
  have tail := wf.tail
  have stored := wf.stored
  have headEq : ((q.head + cnt) % q.size).toNat = (q.head.toNat + cnt.toNat) % xmitSize :=
    add_mod_toNat wf.size (by simp only [xmitSize] at flat; omega)
  have countEq : (q.count + cnt).toNat = q.count.toNat + cnt.toNat := by
    rw [BitVec.toNat_add, Nat.mod_eq_of_lt (by simp only [xmitSize] at room; omega)]
  intro after
  have slotEq : ∀ i, after.slot i =
      if q.head.toNat ≤ i ∧ i < q.head.toNat + cnt.toNat then piece.getD (i - q.head.toNat) 0
      else q.slot i := by
    intro i
    rw [← length]
    have spliced := splice_slot (show q.head.toNat + piece.length ≤ q.buf.length by omega) i
    rw [length] at spliced ⊢
    exact spliced
  constructor
  · constructor
    · exact wf.size
    · simp only [after, List.length_append, List.length_take, List.length_drop, length]
      omega
    · exact tail
    · simp only [after, countEq]
      exact room
    · simp only [after, headEq, countEq, wf.head, Nat.mod_add_mod, Nat.add_assoc]
  · have old : ringSpan xmitSize after.slot q.tail.toNat q.count.toNat = q.items := by
      apply ringSpan_congr
      intro i inside
      rw [slotEq, if_neg]
      intro hit
      have behind := ringSpan_behind inside (j := (q.tail.toNat + i) % xmitSize - q.head.toNat)
        (by omega) tail
      apply behind
      have atHead := wf.head
      rw [← Nat.add_assoc, ← Nat.mod_add_mod (q.tail.toNat + q.count.toNat), ← atHead,
        Nat.add_sub_cancel' hit.1, Nat.mod_mod]
    have new : ringSpan xmitSize after.slot q.head.toNat cnt.toNat = piece := by
      rw [ringSpan_flat flat]
      apply List.ext_getElem
      · simp [length]
      · intro i within _
        have inside : i < cnt.toNat := by simpa using within
        simp [slotEq, inside, List.getElem?_eq_getElem (show i < piece.length by omega)]
    have spanEq : after.items = ringSpan xmitSize after.slot q.tail.toNat
        (q.count.toNat + cnt.toNat) := by
      rw [items, ← countEq]
    rw [spanEq, ringSpan_add, old, ← wf.head, new]

theorem Wf.putLoop (wf : q.Wf) (rounds : Nat) {buffer : List UInt8} {count : BitVec 32}
    (length : buffer.length = count.toNat) (small : count.toNat < 2 ^ 31)
    (enough : count.toNat ≤ rounds) :
    (q.putLoop rounds buffer count).1.Wf ∧
      (q.putLoop rounds buffer count).2.toNat = min count.toNat (xmitSize - q.count.toNat) ∧
      (q.putLoop rounds buffer count).1.items =
        q.items ++ buffer.take (xmitSize - q.count.toNat) := by
  induction rounds generalizing q buffer count with
  | zero =>
      have none : buffer = [] := List.eq_nil_of_length_eq_zero (by omega)
      have zero : count.toNat = 0 := by omega
      rw [none, zero, List.take_nil, List.append_nil, Nat.zero_min]
      exact ⟨wf, rfl, rfl⟩
  | succ rounds ih =>
      rw [XmitQueue.putLoop]
      have cntEq := wf.putCount_toNat count
      have stored := wf.count
      have head : q.head.toNat < xmitSize := by
        rw [wf.head]
        exact Nat.mod_lt _ (by decide)
      by_cases none : count = 0
      · have empty : buffer = [] := by
          rw [none] at length
          exact List.eq_nil_of_length_eq_zero length
        rw [if_pos none, none, empty, List.take_nil, List.append_nil]
        exact ⟨wf, by simp, rfl⟩
      · rw [if_neg none]
        have positive : count.toNat ≠ 0 := by
          intro zero
          exact none (BitVec.eq_of_toNat_eq zero)
        simp only [sle_zero (show (q.putCount count).toNat < 2 ^ 31 by omega)]
        by_cases full : (q.putCount count).toNat = 0
        · have noRoom : xmitSize - q.count.toNat = 0 := by omega
          rw [if_pos (by simpa using full), noRoom, List.take_zero, List.append_nil, Nat.min_zero]
          exact ⟨wf, rfl, rfl⟩
        · rw [if_neg (by simpa using full)]
          have pieceLength : (buffer.take (q.putCount count).toNat).length =
              (q.putCount count).toNat := List.length_take_of_le (by omega)
          obtain ⟨wf', itemsEq⟩ := wf.put pieceLength (by omega) (by omega)
          have leftEq : (count - q.putCount count).toNat =
              count.toNat - (q.putCount count).toNat := sub_toNat (by omega)
          have countEq : (q.count + q.putCount count).toNat =
              q.count.toNat + (q.putCount count).toNat := by
            rw [BitVec.toNat_add, Nat.mod_eq_of_lt (by simp only [xmitSize] at stored head; omega)]
          have leftLength : (buffer.drop (q.putCount count).toNat).length =
              (count - q.putCount count).toNat := by
            rw [List.length_drop, leftEq, length]
          have later := ih wf' leftLength (by omega) (by omega)
          simp only [countEq, leftEq] at later
          obtain ⟨wf'', retEq, restEq⟩ := later
          have whole : xmitSize - q.count.toNat = (q.putCount count).toNat +
              (xmitSize - (q.count.toNat + (q.putCount count).toNat)) := by omega
          refine ⟨wf'', ?_, ?_⟩
          · rw [BitVec.toNat_add, retEq, Nat.mod_eq_of_lt (by simp only [xmitSize] at *; omega)]
            omega
          · rw [restEq, itemsEq, List.append_assoc, whole, List.take_add]

theorem Wf.modemWrite (wf : q.Wf) {buffer : List UInt8} (small : buffer.length < 2 ^ 31) :
    (q.modemWrite buffer).1.Wf ∧
      (q.modemWrite buffer).2.toNat = min buffer.length (xmitSize - q.count.toNat) ∧
      (q.modemWrite buffer).1.items = q.items ++ buffer.take (xmitSize - q.count.toNat) := by
  have lengthEq : (BitVec.ofNat 32 buffer.length).toNat = buffer.length := by
    rw [BitVec.toNat_ofNat, Nat.mod_eq_of_lt (by omega)]
  have queued := wf.putLoop buffer.length lengthEq.symm (by omega) (by omega)
  rw [lengthEq] at queued
  exact queued

end Put

/-! ### The queue of the modem -/

def Represents (q : XmitQueue) (m : Modem) : Prop := q.Wf ∧ q.items = m.xmit.map Queued.byte

section Represents

variable {q : XmitQueue} {m : Modem}

theorem items_length (q : XmitQueue) : q.items.length = q.count.toNat := ringSpan_length

theorem Represents.write (same : q.Represents m) {buffer : List UInt8}
    (small : buffer.length < 2 ^ 31) :
    (q.modemWrite buffer).1.Represents (m.queueBytes buffer) := by
  obtain ⟨wf, itemsEq⟩ := same
  obtain ⟨wf', _, queued⟩ := wf.modemWrite small
  refine ⟨wf', ?_⟩
  have countEq : q.count.toNat = m.xmit.length := by
    rw [← items_length, itemsEq, List.length_map]
  rw [queued, itemsEq, countEq]
  simp [Modem.queueBytes, Function.comp_def]

theorem Represents.takeChars (same : q.Represents m) {n : BitVec 32} (small : n.toNat < 2 ^ 31) :
    (q.modemGetChars n).1.Represents (m.takeChars n.toNat) := by
  obtain ⟨wf, itemsEq⟩ := same
  obtain ⟨wf', left, _⟩ := wf.modemGetChars small
  refine ⟨wf', ?_⟩
  rw [left, itemsEq, Modem.takeChars, List.map_drop]

end Represents

/-! ### Whole runs -/

inductive Access where
  | write (buffer : List UInt8)
  | getChars (n : Nat)
  | clear
  deriving DecidableEq, Repr

/-- The lengths are `int`s. -/
def Access.Sized : Access → Prop
  | .write buffer => buffer.length < 2 ^ 31
  | .getChars n => n < 2 ^ 31
  | .clear => True

/-- The queue, and the bytes that went in and out since it was cleared last. -/
structure Usage where
  queue : XmitQueue
  accepted : List UInt8
  returned : List UInt8

def Usage.step (u : Usage) : Access → Usage
  | .write buffer =>
      let out := u.queue.modemWrite buffer
      { u with queue := out.1, accepted := u.accepted ++ buffer.take out.2.toNat }
  | .getChars n =>
      let out := u.queue.modemGetChars (BitVec.ofNat 32 n)
      { u with queue := out.1, returned := u.returned ++ out.2 }
  | .clear => { queue := u.queue.clear, accepted := [], returned := [] }

def Usage.start : Usage := { queue := create, accepted := [], returned := [] }

/-- The queue as a list: what the accesses of a state do and have done. -/
structure Usage.Fifo (u : Usage) : Prop where
  low : 0 ≤ u.queue.count.toInt
  high : u.queue.count.toInt ≤ u.queue.size.toNat
  head : u.queue.head.toNat = (u.queue.tail.toNat + u.queue.count.toNat) % u.queue.size.toNat
  order : u.accepted = u.returned ++ u.queue.items
  accepts : ∀ buffer, buffer.length < 2 ^ 31 →
    (u.queue.modemWrite buffer).2.toNat =
      min buffer.length (u.queue.size.toNat - u.queue.count.toNat)
  returns : ∀ n, n < 2 ^ 31 →
    (u.queue.modemGetChars (BitVec.ofNat 32 n)).2.length = min n u.queue.count.toNat

section Usage

variable {u : Usage}

theorem ofNat_toNat {n : Nat} (small : n < 2 ^ 31) : (BitVec.ofNat 32 n).toNat = n := by
  rw [BitVec.toNat_ofNat, Nat.mod_eq_of_lt (by omega)]

theorem items_clear (q : XmitQueue) : q.clear.items = [] := rfl

theorem Wf.fifo (wf : u.queue.Wf) (order : u.accepted = u.returned ++ u.queue.items) :
    u.Fifo := by
  have count := wf.count
  have intEq : u.queue.count.toInt = u.queue.count.toNat :=
    toInt_of_small (by simp only [xmitSize] at count; omega)
  constructor
  · rw [intEq]
    omega
  · rw [intEq, wf.size]
    omega
  · rw [wf.size]
    exact wf.head
  · exact order
  · intro buffer small
    rw [wf.size]
    exact (wf.modemWrite small).2.1
  · intro n small
    have out := (wf.modemGetChars (n := BitVec.ofNat 32 n) (by rw [ofNat_toNat small]; exact small)).2.2
    rw [out, List.length_take, items_length, ofNat_toNat small]

theorem Wf.step (wf : u.queue.Wf) (order : u.accepted = u.returned ++ u.queue.items)
    {access : Access} (sized : access.Sized) :
    (u.step access).queue.Wf ∧
      (u.step access).accepted = (u.step access).returned ++ (u.step access).queue.items := by
  cases access with
  | write buffer =>
      obtain ⟨wf', retEq, itemsEq⟩ := wf.modemWrite sized
      refine ⟨wf', ?_⟩
      simp only [Usage.step, retEq, itemsEq, order, List.append_assoc]
      congr 2
      rw [← List.take_take, List.take_of_length_le]
      rw [List.length_take]
      omega
  | getChars n =>
      have nEq := ofNat_toNat (n := n) sized
      obtain ⟨wf', itemsEq, outEq⟩ := wf.modemGetChars (n := BitVec.ofNat 32 n)
        (by rw [nEq]; exact sized)
      refine ⟨wf', ?_⟩
      simp only [Usage.step, itemsEq, outEq, order, List.append_assoc, List.take_append_drop]
  | clear => exact ⟨wf.clear, items_clear u.queue⟩

theorem Wf.run (accesses : List Access) (sized : ∀ access ∈ accesses, access.Sized)
    (wf : u.queue.Wf) (order : u.accepted = u.returned ++ u.queue.items) :
    (accesses.foldl Usage.step u).Fifo := by
  induction accesses generalizing u with
  | nil => exact wf.fifo order
  | cons access rest ih =>
      obtain ⟨wf', order'⟩ := wf.step order (sized access List.mem_cons_self)
      exact ih (fun other member => sized other (List.mem_cons_of_mem access member)) wf' order'

end Usage

/-- From `modem_create` on, whatever is written, taken and cleared, the queue is a
bounded list. -/
theorem xmit_bounded_fifo (accesses : List Access) (sized : ∀ access ∈ accesses, access.Sized) :
    (accesses.foldl Usage.step Usage.start).Fifo :=
  Wf.run accesses sized Wf.create rfl

theorem xmit_bounded_fifo_wrapped :
    ([.write (List.replicate 4090 1), .getChars 4085, .write [2, 3, 4, 5, 6, 7, 8, 9]].foldl
      Usage.step Usage.start).Fifo :=
  xmit_bounded_fifo _ (by
    intro access member
    simp only [List.mem_cons, List.not_mem_nil, or_false] at member
    rcases member with rfl | rfl | rfl
    · exact (show (List.replicate 4090 (1 : UInt8)).length < 2 ^ 31 by rw [List.length_replicate]; decide)
    · exact (show 4085 < 2 ^ 31 by decide)
    · exact (show [2, 3, 4, 5, 6, 7, 8, (9 : UInt8)].length < 2 ^ 31 by decide))

end XmitQueue

end DModem.Modem
