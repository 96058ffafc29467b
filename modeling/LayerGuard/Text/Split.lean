/-! # Beginnings, ends and pieces of texts

Whether a text begins or ends with another is decided character by character; nothing here knows
of words or separators unless one is given.
-/

namespace LayerGuard.Text

def beginsWith (s start : String) : Bool := start.toList.isPrefixOf s.toList

def endsWith (s tail : String) : Bool := tail.toList.isSuffixOf s.toList

/-- The rest of `s` behind `start`, if it begins with it. -/
def behind? (start s : String) : Option String :=
  if beginsWith s start then some (String.ofList (s.toList.drop start.length)) else none

/-- The pieces between the separators of a list of characters; without one the list is the only
piece. -/
def splitChars (separator : Char) : List Char → List (List Char)
  | [] => [[]]
  | c :: cs =>
    if c == separator then [] :: splitChars separator cs
    else match splitChars separator cs with
      | [] => [[c]]
      | piece :: pieces => (c :: piece) :: pieces

def split (separator : Char) (s : String) : List String :=
  (splitChars separator s.toList).map String.ofList

/-- Texts with a separator between them. -/
def join (separator : String) (pieces : List String) : String :=
  separator.intercalate pieces

/-- A list with every element at its first place only. -/
def distinct [BEq α] (xs : List α) : List α :=
  xs.foldl (fun seen x => if seen.contains x then seen else seen ++ [x]) []

end LayerGuard.Text
