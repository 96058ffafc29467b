import LayerGuard.Text.CaseTable

/-! # Small letters

A text in small letters by the rules of Unicode for any language. Two rules go beyond a table of
letters: the capital I with a dot becomes two characters, and the capital sigma at the end of a
word becomes the final sigma.
-/

namespace LayerGuard.Text

/-- Whether a character is in one of the ranges of a table. -/
def inRanges (ranges : List (Nat × Nat)) (c : Char) : Bool :=
  ranges.any fun (low, high) => low ≤ c.toNat && c.toNat ≤ high

/-- The small letter of a character, or the character itself if it has none. -/
def lowerLetter (c : Char) : Char :=
  match lowerRanges.find? fun (low, high, step, _) =>
      low ≤ c.toNat && c.toNat ≤ high && (c.toNat - low) % step == 0 with
  | some (low, _, _, first) => Char.ofNat (first + (c.toNat - low))
  | none => c

/-- Whether the next character that is not passed over has case. -/
def meetsCased (cs : List Char) : Bool :=
  (cs.dropWhile (inRanges caseIgnorableRanges)).head?.any (inRanges casedRanges)

/-- The small letters of a character between the characters before it, the nearest first, and
those behind it. -/
def lowerChar (before : List Char) (c : Char) (behind : List Char) : List Char :=
  if c == 'Σ' then (if meetsCased before && !meetsCased behind then ['ς'] else ['σ'])
  else if c == 'İ' then ['i', '\u0307']
  else [lowerLetter c]

/-- The small letters of a text whose earlier characters are given, the nearest first. -/
def lowerFrom (before : List Char) : List Char → List Char
  | [] => []
  | c :: cs => lowerChar before c cs ++ lowerFrom (c :: before) cs

def lowerCase (s : String) : String := String.ofList (lowerFrom [] s.toList)

end LayerGuard.Text
