import Steward.Text.Hidden

/-!
This module contains the display of a text in messages: between double quotes, with an escape for
every character that ends the text, starts an escape or does not show.
-/

namespace Steward.Text

/--
The escape of a character that has a name of its own.
-/
def namedEscape : Char → Option Char
  | '\x00' => some '0'
  | '\t' => some 't'
  | '\n' => some 'n'
  | '\r' => some 'r'
  | '"' => some '"'
  | '\\' => some '\\'
  | _ => none

/--
The code point of a character in small hexadecimal digits.
-/
def hexDigits (c : Char) : List Char :=
  Nat.toDigits 16 c.toNat

def displayChar (c : Char) : List Char :=
  match namedEscape c with
  | some e => ['\\', e]
  | none => if isHidden c then "\\u\x7b".toList ++ hexDigits c ++ "\x7d".toList else [c]

/--
A text as it stands in messages.
-/
def display (s : String) : String :=
  String.ofList ('"' :: s.toList.flatMap displayChar ++ ['"'])

end Steward.Text
