import MacroHost.Text.Bytes

/-!
# Patterns

Matching of byte strings against patterns with character classes, repetitions, balanced pairs,
frontiers and captures.  The matcher backtracks; captures are part of its state, so a failed branch
leaves none behind.
-/

namespace MacroHost
namespace Script

open Text

namespace Pattern

/-- Greatest number of captures. -/
def captureLimit : Nat := 32

/-- Greatest depth of the matcher. -/
def depthLimit : Nat := 200

/-- How far a capture extends. -/
inductive Extent where
  | unfinished
  /-- The capture is the place itself. -/
  | position
  | length (count : Nat)
deriving DecidableEq

/-- A capture. -/
structure Capture where
  /-- Index of its first byte. -/
  start : Nat
  /-- How far it extends. -/
  extent : Extent

/-- Captures made so far, in order of their opening. -/
abbrev Captures := Array Capture

/-- A subject and a pattern. -/
structure Problem where
  /-- The string to be matched. -/
  subject : Bytes
  /-- The pattern. -/
  pattern : Bytes

namespace Problem

/-- The byte of the pattern at an index. -/
def code? (problem : Problem) (index : Nat) : Option UInt8 :=
  byteAt? problem.pattern index

/-- The byte of the subject at an index. -/
def byte? (problem : Problem) (index : Nat) : Option UInt8 :=
  byteAt? problem.subject index

end Problem

/-- Whether a byte is in the class of a letter; other letters stand for themselves. -/
def inClass (byte letter : UInt8) : Bool :=
  let positive? : Option Bool :=
    match lowerByte letter with
    | 97 => some (isAlpha byte)
    | 99 => some (isControl byte)
    | 100 => some (isDigit byte)
    | 103 => some (isGraphic byte)
    | 108 => some (isLower byte)
    | 112 => some (isPunctuation byte)
    | 115 => some (isSpace byte)
    | 117 => some (isUpper byte)
    | 119 => some (isAlnum byte)
    | 120 => some (isHexDigit byte)
    | _ => none
  match positive? with
  | some positive => if isUpper letter then !positive else positive
  | none => letter == byte

/-- Index of the bracket that closes a set, searched from the index of its first member. -/
def setEnd (problem : Problem) : Nat → Nat → Except String Nat
  | 0, _ => .error "malformed pattern (missing ']')"
  | fuel + 1, index =>
      match problem.code? index with
      | none => .error "malformed pattern (missing ']')"
      | some 37 =>
          if index + 1 < problem.pattern.size then closing fuel (index + 2)
          else .error "malformed pattern (missing ']')"
      | some _ => closing fuel (index + 1)
where
  /-- The same once at least one member has been passed. -/
  closing (fuel index : Nat) : Except String Nat :=
    if problem.code? index == some 93 then .ok index else setEnd problem fuel index

/-- Index after the single-character class at an index. -/
def classEnd (problem : Problem) (index : Nat) : Except String Nat :=
  match problem.code? index with
  | some 37 =>
      if index + 1 < problem.pattern.size then .ok (index + 2)
      else .error "malformed pattern (ends with '%')"
  | some 91 =>
      let start := if problem.code? (index + 1) == some 94 then index + 2 else index + 1
      (setEnd problem (problem.pattern.size + 1) start).map (· + 1)
  | _ => .ok (index + 1)

/-- Whether a byte is one of the members of a set between two indices. -/
def inMembers (problem : Problem) (byte : UInt8) (stop : Nat) : Nat → Nat → Bool
  | 0, _ => false
  | fuel + 1, index =>
      if stop ≤ index then false
      else
        let code := (problem.code? index).getD 0
        if code == 37 then
          let letter := (problem.code? (index + 1)).getD 0
          inClass byte letter || inMembers problem byte stop fuel (index + 2)
        else if problem.code? (index + 1) == some 45 && index + 2 < stop then
          let last := (problem.code? (index + 2)).getD 0
          (code ≤ byte && byte ≤ last) || inMembers problem byte stop fuel (index + 3)
        else code == byte || inMembers problem byte stop fuel (index + 1)

/-- Whether a byte is in the set whose brackets stand at the two indices. -/
def inSet (problem : Problem) (byte : UInt8) (start stop : Nat) : Bool :=
  let negated := problem.code? (start + 1) == some 94
  let first := if negated then start + 2 else start + 1
  inMembers problem byte stop (problem.pattern.size + 1) first != negated

/-- Whether the subject has at an index a byte of the class between two pattern indices. -/
def matchesOne (problem : Problem) (place start stop : Nat) : Bool :=
  match problem.byte? place with
  | none => false
  | some byte =>
      match problem.code? start with
      | some 46 => true
      | some 37 => inClass byte ((problem.code? (start + 1)).getD 0)
      | some 91 => inSet problem byte start (stop - 1)
      | some code => code == byte
      | none => false

/-- Number of consecutive bytes of a class. -/
def countRun (problem : Problem) (start stop : Nat) : Nat → Nat → Nat
  | 0, _ => 0
  | fuel + 1, place =>
      if matchesOne problem place start stop then
        countRun problem start stop fuel (place + 1) + 1
      else 0

/-- Index after the byte that balances an opening one, if there is one. -/
def balanceEnd (problem : Problem) (opening closing : UInt8) : Nat → Nat → Nat → Option Nat
  | 0, _, _ => none
  | fuel + 1, place, level =>
      match problem.byte? place with
      | none => none
      | some byte =>
          if byte == closing then
            if level == 1 then some (place + 1)
            else balanceEnd problem opening closing fuel (place + 1) (level - 1)
          else if byte == opening then
            balanceEnd problem opening closing fuel (place + 1) (level + 1)
          else balanceEnd problem opening closing fuel (place + 1) level

/-- Position of the last unfinished capture. -/
def lastOpen? (captures : Captures) : Option Nat :=
  (List.range captures.size).reverse.find? fun index =>
    (captures[index]?.map (·.extent == .unfinished)).getD false

/-- The bytes of a finished capture that a back reference names. -/
def backReference (problem : Problem) (captures : Captures) (digit : UInt8) :
    Except String Bytes :=
  let index := digit.toNat - 49
  let refuse := .error ("invalid capture index %" ++ toString ((digit.toNat : Int) - 48))
  if digit < 49 then refuse
  else
    match captures[index]? with
    | some { start, extent := .length count } => .ok (slice problem.subject start (start + count))
    | some { start := _, extent := .position } => .ok .empty
    | _ => refuse

/-- The end of a match of the pattern from an index on at a place of the subject, with the
captures made. -/
def matchHere (problem : Problem) :
    Nat → Nat → Captures → Nat → Nat → Except String (Option (Nat × Captures))
  | 0, _, _, _, _ => .error "pattern too complex"
  | fuel + 1, depth, captures, place, index =>
      if depthLimit ≤ depth then .error "pattern too complex"
      else
        let deeper := matchHere problem fuel (depth + 1)
        let single : Except String (Option (Nat × Captures)) := do
          let stop ← classEnd problem index
          let fits := matchesOne problem place index stop
          match problem.code? stop with
          | some 63 =>
              if fits then
                match ← deeper captures (place + 1) (stop + 1) with
                | some found => return some found
                | none => matchHere problem fuel depth captures place (stop + 1)
              else matchHere problem fuel depth captures place (stop + 1)
          | some 42 =>
              let count := countRun problem index stop (problem.subject.size + 1 - place) place
              longest deeper captures place (stop + 1) (count + 1)
          | some 43 =>
              if fits then
                let count :=
                  countRun problem index stop (problem.subject.size + 1 - place) (place + 1)
                longest deeper captures (place + 1) (stop + 1) (count + 1)
              else return none
          | some 45 =>
              shortest deeper captures index stop (problem.subject.size + 1 - place) place
          | _ =>
              if fits then matchHere problem fuel depth captures (place + 1) stop
              else return none
        match problem.code? index with
        | none => .ok (some (place, captures))
        | some 40 =>
            let isPosition := problem.code? (index + 1) == some 41
            if captureLimit ≤ captures.size then .error "too many captures"
            else
              let extent := if isPosition then .position else .unfinished
              deeper (captures.push { start := place, extent }) place
                (if isPosition then index + 2 else index + 1)
        | some 41 =>
            match lastOpen? captures with
            | none => .error "invalid pattern capture"
            | some position =>
                let closed := captures.modify position fun capture =>
                  { capture with extent := .length (place - capture.start) }
                deeper closed place (index + 1)
        | some 36 =>
            if index + 1 == problem.pattern.size then
              .ok (if place == problem.subject.size then some (place, captures) else none)
            else single
        | some 37 =>
            match problem.code? (index + 1) with
            | some 98 =>
                match problem.code? (index + 2), problem.code? (index + 3) with
                | some opening, some closing =>
                    if problem.byte? place == some opening then
                      match balanceEnd problem opening closing problem.subject.size (place + 1) 1 with
                      | some stop => matchHere problem fuel depth captures stop (index + 4)
                      | none => .ok none
                    else .ok none
                | _, _ => .error "malformed pattern (missing arguments to '%b')"
            | some 102 => do
                if problem.code? (index + 2) != some 91 then
                  throw "missing '[' after '%f' in pattern"
                let stop ← classEnd problem (index + 2)
                let previous := if place == 0 then 0 else (problem.byte? (place - 1)).getD 0
                let current := (problem.byte? place).getD 0
                if !inSet problem previous (index + 2) (stop - 1)
                    && inSet problem current (index + 2) (stop - 1) then
                  matchHere problem fuel depth captures place stop
                else return none
            | some digit =>
                if isDigit digit then do
                  let bytes ← backReference problem captures digit
                  if occursAt problem.subject bytes place then
                    matchHere problem fuel depth captures (place + bytes.size) (index + 2)
                  else return none
                else single
            | none => single
        | some _ => single
where
  /-- Try the rest of the pattern after fewer and fewer repetitions. -/
  longest (rest : Captures → Nat → Nat → Except String (Option (Nat × Captures)))
      (captures : Captures) (place index : Nat) :
      Nat → Except String (Option (Nat × Captures))
    | 0 => .ok none
    | count + 1 => do
        match ← rest captures (place + count) index with
        | some found => return some found
        | none => longest rest captures place index count
  /-- Try the rest of the pattern after more and more repetitions. -/
  shortest (rest : Captures → Nat → Nat → Except String (Option (Nat × Captures)))
      (captures : Captures) (start stop : Nat) :
      Nat → Nat → Except String (Option (Nat × Captures))
    | 0, _ => .ok none
    | fuel + 1, place => do
        match ← rest captures place (stop + 1) with
        | some found => return some found
        | none =>
            if matchesOne problem place start stop then
              shortest rest captures start stop fuel (place + 1)
            else return none

/-- Fuel for one attempt: backtracking is bounded by depth, not by this. -/
def matchFuel : Nat := 1 <<< 60

/-- One attempt at a place. -/
def attempt (problem : Problem) (place index : Nat) : Except String (Option (Nat × Captures)) :=
  matchHere problem matchFuel 0 #[] place index

/-- Whether a pattern begins with the anchor. -/
def isAnchored (pattern : Bytes) : Bool := byteAt? pattern 0 == some 94

/-- Attempts at each place from the given one on. -/
def searchFrom (problem : Problem) (index : Nat) :
    Nat → Nat → Except String (Option (Nat × Nat × Captures))
  | 0, _ => .ok none
  | fuel + 1, place => do
      match ← attempt problem place index with
      | some (stop, captures) => return some (place, stop, captures)
      | none => searchFrom problem index fuel (place + 1)

/-- The first match at or after a place: start, end and captures. -/
def search (problem : Problem) (start : Nat) : Except String (Option (Nat × Nat × Captures)) :=
  if isAnchored problem.pattern then
    searchFrom problem 1 1 start
  else searchFrom problem 0 (problem.subject.size + 1 - start) start

/-- Whether a pattern has no special bytes, so that it matches only itself. -/
def isPlain (pattern : Bytes) : Bool :=
  pattern.toList.all fun byte => !("^$*+?.([%-".toUTF8.toList.contains byte)

/-- What a capture stands for. -/
inductive Captured where
  | bytes (bytes : Bytes)
  /-- A place, counted from one. -/
  | place (index : Nat)

/-- The capture at an index; the whole match stands for the first one if there are none. -/
def captured (problem : Problem) (captures : Captures) (start stop index : Nat) :
    Except String Captured :=
  match captures[index]? with
  | some { start, extent := .length count } =>
      .ok (.bytes (slice problem.subject start (start + count)))
  | some { start, extent := .position } => .ok (.place (start + 1))
  | some { start := _, extent := .unfinished } => .error "unfinished capture"
  | none =>
      if index == 0 then .ok (.bytes (slice problem.subject start stop))
      else .error ("invalid capture index %" ++ toString (index + 1))

/-- All captures of a match, or the whole match if it has none. -/
def allCaptured (problem : Problem) (captures : Captures) (start stop : Nat) :
    Except String (List Captured) :=
  (List.range (max captures.size 1)).mapM (captured problem captures start stop)

end Pattern
end Script
end MacroHost
