import Steward.Json.Number

/-!
This module contains the reading of a JSON text. The grammar is the strict one: no comments, no
leading zeros, no control characters in texts. What keeps to the grammar may still have no value: a
text with half of a surrogate pair, a number that is too large, containers that are nested too deep,
and an object with a name that is no text. Every function returns what it read and the characters
after it.
-/

namespace Steward.Json

namespace Reader

def isSpace (c : Char) : Bool := c == ' ' || c == '\n' || c == '\t' || c == '\r'

def skip (cs : List Char) : List Char := cs.dropWhile isSpace

def hexDigit? (c : Char) : Option Nat :=
  if c.isDigit then some (c.toNat - '0'.toNat)
  else if 'a' ≤ c ∧ c ≤ 'f' then some (c.toNat - 'a'.toNat + 10)
  else if 'A' ≤ c ∧ c ≤ 'F' then some (c.toNat - 'A'.toNat + 10)
  else none

/--
A code unit written in four hexadecimal digits.
-/
def unit : List Char → Option (Nat × List Char)
  | a :: b :: c :: d :: cs => do
    let a ← hexDigit? a
    let b ← hexDigit? b
    let c ← hexDigit? c
    let d ← hexDigit? d
    return (((a * 16 + b) * 16 + c) * 16 + d, cs)
  | _ => none

/--
The character that an escape names after its first four digits: a pair of surrogates makes one
character, and a lone surrogate none.
-/
def unitChar (first : Nat) (cs : List Char) : Option (Option Char × List Char) :=
  if 0xdc00 ≤ first ∧ first ≤ 0xdfff then some (none, cs)
  else if 0xd800 ≤ first ∧ first ≤ 0xdbff then
    match cs with
    | '\\' :: 'u' :: rest => do
      let (second, rest) ← unit rest
      if 0xdc00 ≤ second ∧ second ≤ 0xdfff then
        return (Char.ofNat (0x10000 + (first - 0xd800) * 0x400 + (second - 0xdc00)), rest)
      else return (none, cs)
    | _ => some (none, cs)
  else some (Char.ofNat first, cs)

/--
The character of an escape, after the backslash.
-/
def escape : List Char → Option (Option Char × List Char)
  | '"' :: cs => some ('"', cs)
  | '\\' :: cs => some ('\\', cs)
  | '/' :: cs => some ('/', cs)
  | 'b' :: cs => some ('\x08', cs)
  | 'f' :: cs => some ('\x0c', cs)
  | 'n' :: cs => some ('\n', cs)
  | 'r' :: cs => some ('\r', cs)
  | 't' :: cs => some ('\t', cs)
  | 'u' :: cs => do
    let (n, cs) ← unit cs
    unitChar n cs
  | _ => none

structure Spelling where
  /-- The text, if every escape names a character. -/
  text? : Option String
  escaped : Bool

/--
The rest of a text after its opening quote. The characters so far are in reverse.
-/
def spelling (fuel : Nat) (sofar : Option (List Char)) (escaped : Bool) (cs : List Char) :
    Option (Spelling × List Char) :=
  match fuel with
  | 0 => none
  | fuel + 1 =>
    match cs with
    | [] => none
    | '"' :: cs => some (⟨sofar.map fun cs => String.ofList cs.reverse, escaped⟩, cs)
    | '\\' :: cs => do
      let (c?, cs) ← escape cs
      let sofar := sofar.bind fun before => c?.map fun c => c :: before
      spelling fuel sofar true cs
    | c :: cs =>
      if c.toNat < 0x20 then none
      else spelling fuel (sofar.map fun before => c :: before) escaped cs

/--
The name of a member. Where ids have to be written without escapes, a name with escapes that would be
an id is kept behind a backslash, and so is none.
-/
def memberName (plainIds : Bool) (s : Spelling) : Option String :=
  s.text?.map fun name => if plainIds && s.escaped && (id? name).isSome then "\\" ++ name else name

/--
A container, where `room` more of them may be nested.
-/
def nested (room : Nat) (j : Json) : Json := if room = 0 then .unreadable else j

mutual

def value (plainIds : Bool) (fuel room : Nat) (cs : List Char) : Option (Json × List Char) :=
  match fuel with
  | 0 => none
  | fuel + 1 =>
    match skip cs with
    | 'n' :: 'u' :: 'l' :: 'l' :: cs => some (.null, cs)
    | 't' :: 'r' :: 'u' :: 'e' :: cs => some (.bool true, cs)
    | 'f' :: 'a' :: 'l' :: 's' :: 'e' :: cs => some (.bool false, cs)
    | '"' :: cs => do
      let (s, cs) ← spelling fuel (some []) false cs
      return ((s.text?.map .str).getD .unreadable, cs)
    | '[' :: cs =>
      match skip cs with
      | ']' :: cs => some (nested room (.arr []), cs)
      | cs => do
        let (items, cs) ← items plainIds fuel (room - 1) cs
        return (nested room (.arr items), cs)
    | '\x7b' :: cs =>
      match skip cs with
      | '\x7d' :: cs => some (nested room (.obj []), cs)
      | cs => do
        let (members?, cs) ← members plainIds fuel (room - 1) cs
        return (nested room ((members?.map .obj).getD .unreadable), cs)
    | '-' :: cs => Number.read true cs
    | cs => Number.read false cs

/--
The items of an array up to its end.
-/
def items (plainIds : Bool) (fuel room : Nat) (cs : List Char) :
    Option (List Json × List Char) :=
  match fuel with
  | 0 => none
  | fuel + 1 => do
    let (j, cs) ← value plainIds fuel room cs
    match skip cs with
    | ']' :: cs => return ([j], cs)
    | ',' :: cs =>
      let (js, cs) ← items plainIds fuel room cs
      return (j :: js, cs)
    | _ => none

/--
The members of an object up to its end, if all their names are texts.
-/
def members (plainIds : Bool) (fuel room : Nat) (cs : List Char) :
    Option (Option (List (String × Json)) × List Char) :=
  match fuel with
  | 0 => none
  | fuel + 1 =>
    match skip cs with
    | '"' :: cs => do
      let (s, cs) ← spelling fuel (some []) false cs
      match skip cs with
      | ':' :: cs =>
        let (j, cs) ← value plainIds fuel room cs
        let m? := (memberName plainIds s).map fun name => (name, j)
        match skip cs with
        | '\x7d' :: cs => return (m?.map fun m => [m], cs)
        | ',' :: cs =>
          let (ms?, cs) ← members plainIds fuel room cs
          return (m?.bind fun m => ms?.map fun ms => m :: ms, cs)
        | _ => none
      | _ => none
    | _ => none

end

/--
How many containers may stand in each other.
-/
def maxNesting : Nat := 127

/--
The value of a text that holds one value and blanks around it.
-/
def whole (plainIds : Bool) (s : String) : Option Json :=
  let cs := s.toList
  match value plainIds (2 * cs.length + 2) maxNesting cs with
  | some (j, rest) => if (skip rest).isEmpty then some j else none
  | none => none

end Reader

/--
The value of a text all of which has a value.
-/
def read? (s : String) : Option Json :=
  match Reader.whole false s with
  | some j => if j.isReadable then some j else none
  | none => none

/--
The value of the text of a file. Parts of it may have no value, and the ids are written without
escapes.
-/
def readFile? (s : String) : Option Json := Reader.whole true s

end Steward.Json
