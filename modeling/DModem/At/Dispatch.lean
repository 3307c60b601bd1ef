/-
`process_at_command`.

The nested switches are tables from a letter to what is done for it.  The variable `ret` keeps
its value from one sub-command to the next; a few of the cases leave it as it is.
-/

import DModem.At.Command

namespace DModem.At

open DModem.Lib DModem.Lib.Reading DModem.Modem

/-- How a case of the switch ends: with `return`, or with `break` and then `p += len`; the
length is counted from the first character of the sub-command. -/
inductive Passed where
  | returns (console : Console) (ret : Int)
  | breaks (sub : Sub)

/-- A case of the switch: the modem, `ret` as it was, and the place of `p`. -/
abbrev Handler := Board → Console → Int → Nat → Reading Passed

def breakAt (place : Nat) (sub : Sub) : Passed := .breaks { sub with len := place + sub.len }

def returnWith (result : Console × Int) : Passed := .returns result.1 result.2

/-- `c = toupper(*p++); switch (c)`, with `return -1` for every other letter. -/
def switch (cases : List (UInt8 × Handler)) : Handler := fun board c ret place => do
  match ← letter (cases.map Prod.fst) place with
  | none => pure (.returns c (-1))
  | some key =>
      match cases.lookup key with
      | none => pure (.returns c (-1))
      | some handler => handler board c ret (place + 1)

/-- `ret = f(m, p, &len); break`. -/
def parsed (parser : Board → Console → Nat → Reading Sub) : Handler := fun board c _ place => do
  let sub ← parser board c place
  pure (breakAt place sub)

def sregCommand (num low hi : Nat) : Handler := parsed fun board c place =>
  setSreg board c place num low hi

def fixedSreg (num val : Nat) : Handler := parsed fun board c _ =>
  pure { console := c.modemSetSreg board num val, ret := 0, len := 0 }

def ignored : Handler := parsed fun _ c place => do
  let digit ← peek digits place
  pure { console := c, ret := 0, len := if digit.isSome then 1 else 0 }

/-- `AT*B`: neither `ret` nor the modem is changed. -/
def starB : Handler := fun _ c ret place => pure (breakAt place { console := c, ret := ret, len := 0 })

/-- `AT\A`: a digit is skipped, and `ret` is not changed. -/
def backslashA : Handler := fun _ c ret place => do
  let digit ← peek digits place
  pure (breakAt place { console := c, ret := ret, len := if digit.isSome then 1 else 0 })

/-- `AT+M`: the next character is skipped, and `ret` is not changed unless it is S. -/
def plusM : Handler := fun board c ret place => do
  match ← letter [ch 'S'] place with
  | none => pure (breakAt (place + 1) { console := c, ret := ret, len := 0 })
  | some _ => parsed processPlusMS board c ret (place + 1)

def sendText (bytes : Board → List UInt8) : Handler := parsed fun board c _ =>
  pure { console := c.sendLine board (bytes board), ret := 0, len := 0 }

def hashCommand : Handler := fun board c ret place => do
  if ← keyword (word ['C', 'I', 'D']) place then parsed processCID board c ret (place + 3)
  else pure (breakAt place (Sub.failed c))

def plusF : Handler := fun board c ret place => do
  if ← keyword (word ['C', 'L', 'A', 'S', 'S']) place then
    parsed processPlusFCLASS board c ret (place + 5)
  else parsed processFaxCommand board c ret place

def plusI : Handler := fun _ c _ place => do
  if ← keyword (word ['F', 'C', '=', '2', ',', '2']) place then
    pure (breakAt (place + 6) { console := c, ret := 0, len := 0 })
  else pure (breakAt place (Sub.failed c))

def plusV : Handler := fun board c ret place => do
  if c.modem.mode ≠ .voice then pure (.returns c (-1))
  else if ← keyword (word ['C', 'I', 'D']) place then parsed processCID board c ret (place + 3)
  else parsed processVoiceCommand board c ret place

def percentCases : List (UInt8 × Handler) :=
  [(ch 'C', sregCommand sregComp 0 3),
    (ch 'E', sregCommand sregLineQualityControl 0 2)]

def ampersandCases : List (UInt8 × Handler) :=
  [(ch 'A', sregCommand sregConnnectMsgFormat 0 7),
    (ch 'C', sregCommand sregCd 0 1),
    (ch 'D', ignored),
    (ch 'R', ignored),
    (ch 'S', ignored),
    (ch 'E', sregCommand sregConnnectMsgSpeedSrc 0 1),
    (ch 'F', ignored),
    (ch 'H', sregCommand sregFlowControl 0 1),
    (ch 'K', sregCommand sregComp 0 3),
    (ch 'P', sregCommand sregPulseRatio 0 3),
    (ch 'V', parsed fun _ c _ => pure (Sub.failed c)),
    (ch 'W', parsed fun _ c _ => pure (Sub.failed c))]

def plusGCases : List (UInt8 × Handler) :=
  [(ch 'C', switch [(ch 'I', parsed processPlusGCI)]),
    (ch 'M', switch
      [(ch 'I', sendText Board.modemAuthor),
        (ch 'M', sendText Board.modemName),
        (ch 'R', sendText Board.modemVersion)])]

def plusCases : List (UInt8 × Handler) :=
  [(ch 'G', switch plusGCases),
    (ch 'F', plusF),
    (ch 'I', plusI),
    (ch 'M', plusM),
    (ch 'V', plusV)]

def backslashCases : List (UInt8 × Handler) :=
  [(ch 'A', backslashA),
    (ch 'N', sregCommand sregEc 0 5)]

def commandCases : List (UInt8 × Handler) :=
  [(ch 'A', fun board c _ _ => pure (returnWith (processA board c))),
    (ch 'B', parsed fun board c _ => pure { console := processB board c, ret := 0, len := 0 }),
    (ch 'D', fun board c _ place => do
      let result ← processD board c place
      pure (returnWith result)),
    (ch 'E', sregCommand sregEcho 0 1),
    (ch 'H', parsed processH),
    (ch 'I', parsed processI),
    (ch 'L', sregCommand sregSpeakerVolume 0 3),
    (ch 'M', sregCommand sregSpeakerControl 0 2),
    (ch 'N', sregCommand sregAutomode 0 1),
    (ch 'O', parsed fun board c _ =>
      let result := processO board c
      pure { console := result.1, ret := result.2, len := 0 }),
    (ch 'P', fixedSreg sregToneOrPulse 0),
    (ch 'Q', sregCommand sregQuiet 0 1),
    (ch 'S', parsed processS),
    (ch 'T', fixedSreg sregToneOrPulse 1),
    (ch 'V', sregCommand sregVerbose 0 1),
    (ch 'X', sregCommand sregXCode 0 4),
    (ch 'Y', sregCommand sregDefaultSetting 0 3),
    (ch 'Z', fun board c _ place => do
      let result ← processZ board c place
      pure (returnWith result)),
    (ch '#', hashCommand),
    (ch '%', switch percentCases),
    (ch '&', switch ampersandCases),
    (ch '*', switch [(ch 'B', starB)]),
    (ch '+', switch plusCases),
    (ch '\\', switch backslashCases)]

def pass (board : Board) (c : Console) (ret : Int) : Reading Passed :=
  switch commandCases board c ret 0

/-- What comes of a command: the modem, the result, whether the zero byte was reached, and
the lengths of the sub-commands that were accepted. -/
structure Run where
  console : Console
  ret : Int
  ended : Bool
  subs : List Nat

def Run.prepend (len : Nat) (run : Run) : Run := { run with subs := len :: run.subs }

/-- `while(*p)`. -/
def atLoop (board : Board) : Nat → Console → List UInt8 → Int → Option Run
  | 0, _, _, _ => none
  | fuel + 1, c, text, ret =>
      match text.head? with
      | none => none
      | some first =>
          if first = 0 then some { console := c, ret := 0, ended := true, subs := [] }
          else
            match (pass board c ret).exec Query.answer text with
            | none => none
            | some (.returns c ret) => some { console := c, ret := ret, ended := false, subs := [] }
            | some (.breaks sub) =>
                if sub.ret ≠ 0 then
                  some { console := sub.console, ret := sub.ret, ended := false, subs := [] }
                else
                  (atLoop board fuel sub.console (text.drop sub.len) sub.ret).map
                    (Run.prepend sub.len)

/-- `process_at_command`; `none` is a read behind the end of the memory at `cmd`. -/
def processAtCommand (board : Board) (c : Console) (text : List UInt8) : Option Run :=
  match text.head? with
  | none => none
  | some first =>
      if upper first ≠ ch 'A' then
        some { console := c, ret := -1, ended := false, subs := [] }
      else
        match (text.drop 1).head? with
        | none => none
        | some second =>
            if upper second ≠ ch 'T' then
              some { console := c, ret := -1, ended := false, subs := [] }
            else atLoop board text.length c (text.drop 2) (-1)

end DModem.At
