/-! # Places in a YAML text

A YAML text is read as a list of characters in which every ordinary line end is a single line feed;
the two separators of Unicode also end lines, and are kept. Layout has a meaning, so a cursor knows
the line and the column of what follows.
-/

namespace LayerGuard.Yaml

def isBlank (c : Char) : Bool := c == ' ' || c == '\t'

/-- A character that ends a line. -/
def isBreak (c : Char) : Bool := c == '\n' || c == '\u2028' || c == '\u2029'

/-- A character of a line that is neither a space nor a tab. -/
def isSolid (c : Char) : Bool := !isBlank c && !isBreak c

/-- A character of the name of an anchor, a tag handle or a directive. -/
def isNameChar (c : Char) : Bool := c.isAlphanum || c == '_' || c == '-'

def isAllowed (c : Char) : Bool :=
  let n := c.toNat
  n == 0x9 || n == 0xA || n == 0xD || (0x20 ≤ n && n ≤ 0x7E) || n == 0x85 ||
    (0xA0 ≤ n && n ≤ 0xFFFD) || 0x10000 ≤ n

/-- The characters with a single line feed for every ordinary line end. -/
def unifyBreaks : List Char → List Char
  | [] => []
  | '\r' :: '\n' :: cs => '\n' :: unifyBreaks cs
  | c :: cs => (if c == '\r' || c == '\u0085' then '\n' else c) :: unifyBreaks cs

/-- A place: how many characters lie before it, in which line and column it is. -/
structure Place where
  index : Nat
  line : Nat
  column : Nat
  deriving DecidableEq, Repr

/-- The place behind a character. -/
def Place.after (p : Place) (c : Char) : Place :=
  if isBreak c then ⟨p.index + 1, p.line + 1, 0⟩ else ⟨p.index + 1, p.line, p.column + 1⟩

/-- The rest of a text, and the place where it starts. -/
structure Cursor where
  rest : List Char
  place : Place
  deriving DecidableEq, Repr

namespace Cursor

def start (cs : List Char) : Cursor := ⟨cs, ⟨0, 0, 0⟩⟩

def column (c : Cursor) : Nat := c.place.column

/-- The cursor a number of characters further. -/
def drop (n : Nat) (c : Cursor) : Cursor :=
  ⟨c.rest.drop n, (c.rest.take n).foldl Place.after c.place⟩

/-- The cursor moved on to an end of its rest. -/
def moveTo (rest : List Char) (c : Cursor) : Cursor := c.drop (c.rest.length - rest.length)

/-- The cursor behind a run of characters. -/
def dropWhile (p : Char → Bool) (c : Cursor) : Cursor := c.drop (c.rest.takeWhile p).length

def sees (c : Cursor) (x : Char) : Bool := c.rest.head? == some x

def seesOne (c : Cursor) (p : Char → Bool) : Bool := c.rest.head?.any p

/-- Whether no further character of a word follows behind the given number of characters. -/
def wordEndsAt (c : Cursor) (n : Nat) : Bool := (c.rest.drop n).head?.all (!isSolid ·)

def atLineEnd (c : Cursor) : Bool := c.rest.head?.all isBreak

/-- Whether a line starts here with the given mark of a document. -/
def atMark (c : Cursor) (mark : String) : Bool :=
  c.column == 0 && mark.toList.isPrefixOf c.rest && c.wordEndsAt 3

/-- Whether a line starts here with a mark between documents. -/
def atDocumentMark (c : Cursor) : Bool := c.atMark "---" || c.atMark "..."

/-- The cursor behind blanks and a comment, if the line ends there; a line end is passed. -/
def endOfLine? (c : Cursor) : Option Cursor :=
  let c := c.dropWhile isBlank
  let c := if c.sees '#' then c.dropWhile (!isBreak ·) else c
  if c.atLineEnd then some (c.drop 1) else none

end Cursor
end LayerGuard.Yaml
