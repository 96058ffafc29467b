/-! # Bytes of PHP source

The byte classes that PHP's lexical rules speak of. Every byte of a character outside ASCII
belongs to labels, so these classes are meaningful on the UTF-8 bytes of a source.
-/

namespace LayerGuard.Source

/-- The byte of an ASCII character. -/
@[reducible] def ascii (c : Char) : UInt8 := c.toNat.toUInt8

def isLetter (b : UInt8) : Bool :=
  (ascii 'a' ≤ b && b ≤ ascii 'z') || (ascii 'A' ≤ b && b ≤ ascii 'Z')

def isDigit (b : UInt8) : Bool := ascii '0' ≤ b && b ≤ ascii '9'

def isLabelStart (b : UInt8) : Bool := isLetter b || b == ascii '_' || 0x80 ≤ b

def isLabelByte (b : UInt8) : Bool := isLabelStart b || isDigit b

/-- A byte that may stand inside a number once a digit has begun it. -/
def isNumberByte (b : UInt8) : Bool :=
  isLetter b || isDigit b || b == ascii '_' || b == ascii '.'

/-- White space between tokens: space, tab, line feed, form feed, carriage return. -/
def isSpace (b : UInt8) : Bool :=
  b == 0x20 || b == 0x09 || b == 0x0A || b == 0x0C || b == 0x0D

/-- White space that may indent a line. -/
def isIndent (b : UInt8) : Bool := b == 0x20 || b == 0x09

def newline : UInt8 := 0x0A

def separator : UInt8 := 0x5C

/-- The byte with an ASCII capital made small. -/
def lower (b : UInt8) : UInt8 :=
  if ascii 'A' ≤ b && b ≤ ascii 'Z' then b + 32 else b

/-- Whether the next byte exists and is in a class. -/
def nextIs (inClass : UInt8 → Bool) (text : List UInt8) : Bool :=
  text.head?.any inClass

/-- How many line feeds a stretch of text holds. -/
def lineFeeds (text : List UInt8) : Nat := text.count newline

end LayerGuard.Source
