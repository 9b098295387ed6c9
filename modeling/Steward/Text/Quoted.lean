/-!
This module contains back-quoted identifiers: a name stands between back quotes, and a back quote
inside the name is written twice.
-/

namespace Steward.Text

def backQuote : Char := '\x60'

namespace Quoted

/--
The characters of a name with every back quote doubled.
-/
def encode : List Char → List Char
  | [] => []
  | c :: cs => if c = backQuote then backQuote :: backQuote :: encode cs else c :: encode cs

end Quoted

def quote (name : String) : String :=
  String.ofList (backQuote :: Quoted.encode name.toList ++ [backQuote])

/--
Quoted names with a comma and a blank between them.
-/
def quoteAll (names : List String) : String :=
  ", ".intercalate (names.map quote)

end Steward.Text
