/-
The V.42bis dictionary of `modem_comp.c`: `struct dict`, `match_char` and
`add_char`.

The dictionary is an array of entries.  The entries below `firstFree` are the
control codewords and the 256 single characters; every other entry in use hangs
in the child list of its parent, linked by `child` and `next`.  Each array
access is checked against the allocated size and each pointer loop carries a
bound, so that a read outside the array or a walk that does not end is a visible
fault and not a silent default.
-/

import Mathlib

namespace DModem.Comp

/-- `TOTAL_CHARS`, `FIRST_ENTRY` and `FIRST_FREE`. -/
def totalChars : Nat := 256
def firstEntry : Nat := 3
def firstFree : Nat := totalChars + firstEntry

/-- What can go wrong in a call: `fatal` is the `return -1` of a C-ERROR branch,
the others are undefined behaviour of the C text. -/
inductive Fault where
  | fatal
  | dictIndex
  | strIndex
  | shift
  | loop
  deriving DecidableEq, Repr

/-- `struct dict`. -/
structure DictEntry where
  ch : UInt8
  parent : Nat
  child : Nat
  next : Nat
  deriving DecidableEq, Repr

/-- The dictionary part of `struct comp_state`: the allocated array, `dict_size`
and `next_free`. -/
structure Dict where
  alloc : Nat
  dictSize : Nat
  nextFree : Nat
  entry : Nat → DictEntry

namespace Dict

def read (d : Dict) (index : Nat) : Except Fault DictEntry :=
  if index < d.alloc then .ok (d.entry index) else .error .dictIndex

def write (d : Dict) (index : Nat) (value : DictEntry) : Except Fault Dict :=
  if index < d.alloc then .ok { d with entry := Function.update d.entry index value }
  else .error .dictIndex

/-- The child-list walk of `match_char`. -/
def findChild (d : Dict) (ch : UInt8) : Nat → Nat → Except Fault Nat
  | _, 0 => .ok 0
  | 0, _ + 1 => .error .loop
  | fuel + 1, e + 1 => do
      let entry ← d.read (e + 1)
      if entry.ch = ch then .ok (e + 1) else findChild d ch fuel entry.next

/-- `match_char`: the entry for `ch` below `at`, or 0. -/
def matchChar (d : Dict) (at' : Nat) (ch : UInt8) : Except Fault Nat :=
  if at' = 0 then .ok (ch.toNat + firstEntry)
  else do
    let entry ← d.read at'
    d.findChild ch d.alloc entry.child

/-- The `do ... while` of `add_char`: the next entry, cyclically, that has no
child. -/
def scanFree (d : Dict) : Nat → Nat → Except Fault Nat
  | 0, _ => .error .loop
  | fuel + 1, next => do
      let next' := if next + 1 = d.dictSize then firstFree else next + 1
      let entry ← d.read next'
      if entry.child ≠ 0 then scanFree d fuel next' else .ok next'

/-- The `while` of `add_char` that looks for the predecessor of `victim`. -/
def findPred (d : Dict) (victim : Nat) : Nat → Nat → Except Fault Nat
  | 0, _ => .error .loop
  | fuel + 1, e => do
      let entry ← d.read e
      if entry.next ≠ victim then findPred d victim fuel entry.next else .ok e

/-- The part of `add_char` that takes the recycled entry out of the child list
of its parent. -/
def unlink (d : Dict) (victim : Nat) : Except Fault Dict := do
  let entry ← d.read victim
  if entry.parent ≠ 0 then do
    let parent ← d.read entry.parent
    if parent.child = victim then
      d.write entry.parent { parent with child := entry.next }
    else do
      let e ← d.findPred victim d.alloc parent.child
      let pred ← d.read e
      d.write e { pred with next := entry.next }
  else .ok d

/-- The first five assignments of `add_char`. -/
def link (d : Dict) (at' : Nat) (ch : UInt8) : Except Fault Dict := do
  let new := d.nextFree
  let fresh ← d.read new
  let d ← d.write new { fresh with ch := ch, parent := at', child := 0 }
  let above ← d.read at'
  let fresh ← d.read new
  let d ← d.write new { fresh with next := above.child }
  let above ← d.read at'
  d.write at' { above with child := new }

/-- `add_char`: the new dictionary and the entry that was filled. -/
def addChar (d : Dict) (at' : Nat) (ch : UInt8) : Except Fault (Dict × Nat) := do
  let new := d.nextFree
  let d ← d.link at' ch
  let next ← d.scanFree d.alloc new
  let d ← d.unlink next
  .ok ({ d with nextFree := next }, new)

end Dict

end DModem.Comp
