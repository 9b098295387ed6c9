/-!
This module contains the comparison of names: ASCII letters match in either case, and every other
character matches itself alone.
-/

namespace Steward.Text

/--
`s` with every ASCII capital letter replaced by the small one.
-/
def fold (s : String) : String :=
  String.ofList (s.toList.map Char.toLower)

/--
Two names are the same if they differ at most in the case of ASCII letters.
-/
def same (a b : String) : Bool :=
  fold a == fold b

/--
Two lists of names agree position by position.
-/
def sameAll (as bs : List String) : Bool :=
  as.map fold == bs.map fold

/--
Does `needle` occur in the text, as an uninterrupted run of characters?
-/
def occursIn (needle : List Char) : List Char → Bool
  | [] => needle.isEmpty
  | c :: cs => needle.isPrefixOf (c :: cs) || occursIn needle cs

/--
Does `needle` occur in `s`, case and all?
-/
def contains (s needle : String) : Bool :=
  occursIn needle.toList s.toList

def startsWith (s head : String) : Bool :=
  head.toList.isPrefixOf s.toList

theorem same_comm (a b : String) : same a b = same b a := by
  simp only [same]
  exact Bool.beq_comm

@[simp]
theorem same_self (a : String) : same a a = true := by
  simp [same]

theorem same_trans {a b c : String} (hab : same a b) (hbc : same b c) : same a c := by
  simp_all [same]

end Steward.Text
