/-
# Lines and pieces of a text

A text is cut at every occurrence of a separator, or into lines. A line ends at
a line feed; a carriage return directly before the line feed belongs to the line
ending; a text that ends in a line feed has no empty last line. A carriage
return anywhere else is an ordinary character.
-/

namespace AgentKit.Text

/-- Cut a text at every character that satisfies `p`. The pieces keep their
order and may be empty; there is always at least one. -/
def splitWhere (p : Char → Bool) : List Char → List (List Char)
  | [] => [[]]
  | c :: cs =>
    if p c then [] :: splitWhere p cs
    else
      match splitWhere p cs with
      | [] => [[c]]
      | piece :: pieces => (c :: piece) :: pieces

/-- Cut a text at every occurrence of the character `sep`. -/
def splitAt (sep : Char) (cs : List Char) : List (List Char) :=
  splitWhere (· == sep) cs

/-- The lines of a text, without their line endings. -/
def lines : List Char → List (List Char)
  | [] => []
  | '\n' :: cs => [] :: lines cs
  | '\r' :: '\n' :: cs => [] :: lines cs
  | c :: cs =>
    match lines cs with
    | [] => [[c]]
    | line :: rest => (c :: line) :: rest

/-- The lines of a string, without their line endings. -/
def linesOf (s : String) : List String :=
  (lines s.toList).map String.ofList

end AgentKit.Text
