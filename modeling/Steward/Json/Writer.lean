import Steward.Json.Basic

/-!
This module contains the two written forms of a JSON value: in one line without blanks, and
indented by two blanks for each level. Text stands as it is but for quotes, backslashes and
control characters.
-/

namespace Steward.Json

/--
The escape of a control character that has a short one.
-/
def shortEscape : Char → Option Char
  | '"' => some '"'
  | '\\' => some '\\'
  | '\x08' => some 'b'
  | '\x0c' => some 'f'
  | '\n' => some 'n'
  | '\r' => some 'r'
  | '\t' => some 't'
  | _ => none

def escapeChar (c : Char) : List Char :=
  match shortEscape c with
  | some e => ['\\', e]
  | none =>
    if c.toNat < 0x20 then
      "\\u00".toList ++ [Nat.digitChar (c.toNat / 16), Nat.digitChar (c.toNat % 16)]
    else [c]

def quoted (s : String) : String :=
  String.ofList ('"' :: s.toList.flatMap escapeChar ++ ['"'])

def compact : Json → String
  | .null => "null"
  | .bool b => toString b
  | .int n => toString n
  | .real | .unreadable => "null"
  | .str s => quoted s
  | .arr items => "[" ++ ",".intercalate (compactItems items) ++ "]"
  | .obj members => "\x7b" ++ ",".intercalate (compactMembers members) ++ "\x7d"
where
  compactItems : List Json → List String
    | [] => []
    | j :: js => j.compact :: compactItems js
  compactMembers : List (String × Json) → List String
    | [] => []
    | (name, j) :: ms => (quoted name ++ ":" ++ j.compact) :: compactMembers ms

/--
A new line at the given level.
-/
def newline (level : Nat) : String :=
  String.ofList ('\n' :: List.replicate (2 * level) ' ')

/--
The value with every item and member on a line of its own.
-/
def indented (level : Nat) : Json → String
  | .null => "null"
  | .bool b => toString b
  | .int n => toString n
  | .real | .unreadable => "null"
  | .str s => quoted s
  | .arr [] => "[]"
  | .arr items =>
    "[" ++ newline (level + 1) ++
      ("," ++ newline (level + 1)).intercalate (indentedItems (level + 1) items) ++
      newline level ++ "]"
  | .obj [] => "\x7b\x7d"
  | .obj members =>
    "\x7b" ++ newline (level + 1) ++
      ("," ++ newline (level + 1)).intercalate (indentedMembers (level + 1) members) ++
      newline level ++ "\x7d"
where
  indentedItems (level : Nat) : List Json → List String
    | [] => []
    | j :: js => j.indented level :: indentedItems level js
  indentedMembers (level : Nat) : List (String × Json) → List String
    | [] => []
    | (name, j) :: ms =>
      (quoted name ++ ": " ++ j.indented level) :: indentedMembers level ms

/--
The value indented from the left margin.
-/
def pretty (j : Json) : String := j.indented 0

end Steward.Json

/-!
### Sorted forms

In the sorted form of a value the members of every object are in the order of their names. Values
that differ only in the order of members have one sorted form.
-/

namespace Steward.Json

def insertMember (m : String × Json) : List (String × Json) → List (String × Json)
  | [] => [m]
  | first :: rest => if m.1 < first.1 then m :: first :: rest else first :: insertMember m rest

mutual

def sorted : Json → Json
  | .arr js => .arr (sortedItems js)
  | .obj ms => .obj (sortedMembers ms)
  | j => j

def sortedItems : List Json → List Json
  | [] => []
  | j :: js => sorted j :: sortedItems js

def sortedMembers : List (String × Json) → List (String × Json)
  | [] => []
  | (name, j) :: ms => insertMember (name, sorted j) (sortedMembers ms)

end

def sortedText (j : Json) : String := j.sorted.compact

/--
Values in the order of their texts.
-/
def inOrder (js : List Json) : List Json :=
  ((js.map fun j => (j.sortedText, j)).mergeSort fun a b => !(b.1 < a.1)).map (·.2)

end Steward.Json
