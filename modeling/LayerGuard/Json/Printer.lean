import LayerGuard.Json.Value

/-! # Writing JSON

A value is written with its fields in order. The layout decides only the blanks between the
tokens: the compact one has none, the indented one gives every item a line of its own and two
blanks per level. In a text the quote, the backslash and the control characters below the blank
are escaped, everything else stands for itself.
-/

namespace LayerGuard.Json

/-- The blanks between tokens: what stands in front of an item or a closing bracket at a depth,
and what stands behind the colon of a field. -/
structure Layout where
  breakAt : Nat → List Char
  afterColon : List Char

/-- No blanks at all. -/
def Layout.compact : Layout := ⟨fun _ => [], []⟩

/-- One item a line, two blanks of indentation per level. -/
def Layout.indented : Layout := ⟨fun depth => '\n' :: List.replicate (2 * depth) ' ', [' ']⟩

/-- The lower-case hexadecimal digit of a number below sixteen. -/
def hexDigit (n : Nat) : Char := Nat.digitChar n

/-- A character inside a quoted text. -/
def escapeChar (c : Char) : List Char :=
  if c == '"' then ['\\', '"']
  else if c == '\\' then ['\\', '\\']
  else if c == '\n' then ['\\', 'n']
  else if c == '\r' then ['\\', 'r']
  else if c == '\t' then ['\\', 't']
  else if c.toNat == 8 then ['\\', 'b']
  else if c.toNat == 12 then ['\\', 'f']
  else if c.toNat < 32 then ['\\', 'u', '0', '0', hexDigit (c.toNat / 16), hexDigit (c.toNat % 16)]
  else [c]

def quote (s : String) : List Char := '"' :: s.toList.flatMap escapeChar ++ ['"']

/-- A number in the form it is kept in. -/
def writeNumber (n : Decimal) : List Char :=
  (if n.negative then ['-'] else []) ++ Nat.toDigits 10 n.whole ++
    (if n.fraction.isEmpty then [] else '.' :: n.fraction.map fun d => Nat.digitChar d.val) ++
    (match n.exponent with
      | none => []
      | some e => 'e' :: (if e < 0 then ['-'] else []) ++ Nat.toDigits 10 e.natAbs)

mutual

/-- A value at a depth. -/
def write (layout : Layout) (depth : Nat) : Json → List Char
  | .null => "null".toList
  | .bool true => "true".toList
  | .bool false => "false".toList
  | .number n => writeNumber n
  | .string s => quote s
  | .array [] => ['[', ']']
  | .array (item :: items) =>
    '[' :: layout.breakAt (depth + 1) ++ item.write layout (depth + 1) ++
      writeItems layout (depth + 1) items ++ layout.breakAt depth ++ [']']
  | .object [] => ['\x7b', '\x7d']
  | .object ((key, value) :: fields) =>
    '\x7b' :: layout.breakAt (depth + 1) ++ quote key ++ ':' :: layout.afterColon ++
      value.write layout (depth + 1) ++ writeFields layout (depth + 1) fields ++
      layout.breakAt depth ++ ['\x7d']

/-- The further items of an array. -/
def writeItems (layout : Layout) (depth : Nat) : List Json → List Char
  | [] => []
  | item :: items =>
    ',' :: layout.breakAt depth ++ item.write layout depth ++ writeItems layout depth items

/-- The further fields of an object. -/
def writeFields (layout : Layout) (depth : Nat) : List (String × Json) → List Char
  | [] => []
  | (key, value) :: fields =>
    ',' :: layout.breakAt depth ++ quote key ++ ':' :: layout.afterColon ++
      value.write layout depth ++ writeFields layout depth fields

end

def compact (value : Json) : String := String.ofList (value.write .compact 0)

def indented (value : Json) : String := String.ofList (value.write .indented 0)

end LayerGuard.Json
