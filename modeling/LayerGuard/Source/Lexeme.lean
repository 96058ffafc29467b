import LayerGuard.Source.Byte

/-! # Lexemes

How far a lexeme reaches, given the text it begins. Each function looks at the text that is
really there, so a lexeme is never cut short of its longest reading; at the end of the text an
unfinished lexeme takes all that is left.
-/

namespace LayerGuard.Source

/-- The length of the longest run of bytes in a class. -/
def runLength (inClass : UInt8 → Bool) (text : List UInt8) : Nat :=
  (text.takeWhile inClass).length

/-- The length of a line comment's text: up to a line feed or a close tag, neither included. -/
def commentLineLength : List UInt8 → Nat
  | [] => 0
  | b :: rest =>
    if b == newline || (b == ascii '?' && nextIs (· == ascii '>') rest) then 0
    else commentLineLength rest + 1

/-- The length of a block comment after its opener: through the first closer, or to the end. -/
def commentBlockLength : List UInt8 → Nat
  | [] => 0
  | b :: rest =>
    if b == ascii '*' && nextIs (· == ascii '/') rest then 2 else commentBlockLength rest + 1

/-- The bytes of a name from its first label on: label bytes, and separators that a further label
follows. -/
def nameBytes : List UInt8 → List UInt8
  | [] => []
  | b :: rest =>
    if isLabelByte b || (b == separator && nextIs isLabelStart rest) then b :: nameBytes rest
    else []

def firstLabel (text : List UInt8) : List UInt8 := text.takeWhile isLabelByte

def namespaceWord : List UInt8 := "namespace".toList.map ascii

/-- Whether a label is the word `namespace` in some letter case. -/
def isNamespaceWord (label : List UInt8) : Bool := label.map lower == namespaceWord

/-- The length of the open tag at the front of a text: `<?=`, or `<?php` in some letter case. -/
def openTagLength? (text : List UInt8) : Option Nat :=
  if (text.take 3) == "<?=".toList.map ascii then some 3
  else if (text.take 5).map lower == "<?php".toList.map ascii then some 5
  else none

/-- The head of a heredoc or nowdoc: its label, whether its body is raw, and the length of the
head through the line end. -/
structure HeredocHead where
  label : List UInt8
  raw : Bool
  length : Nat

/-- The length of a line end: a line feed, with or without a carriage return before it. -/
def lineEndLength? : List UInt8 → Option Nat
  | b :: rest =>
    if b == newline then some 1
    else if b == 0x0D && nextIs (· == newline) rest then some 2
    else none
  | [] => none

/-- The label between matching quotes and the line end behind it. -/
def heredocLabel? (quote? : Option UInt8) (text : List UInt8) : Option (List UInt8 × Nat) :=
  let label := firstLabel text
  let rest := text.drop label.length
  if !nextIs isLabelStart text then none
  else match quote? with
    | none => (lineEndLength? rest).map fun n => (label, label.length + n)
    | some quote =>
      if nextIs (· == quote) rest then
        (lineEndLength? (rest.drop 1)).map fun n => (label, label.length + 1 + n)
      else none

/-- The head that follows `<<<`, if a well-formed one does: blanks, a label that may be quoted,
and a line end. -/
def heredocHead? (text : List UInt8) : Option HeredocHead :=
  let indent := runLength isIndent text
  match text.drop indent with
  | [] => none
  | b :: rest =>
    if b == ascii '\'' || b == ascii '"' then
      (heredocLabel? (some b) rest).map fun (label, n) => ⟨label, b == ascii '\'', indent + 1 + n⟩
    else
      (heredocLabel? none (b :: rest)).map fun (label, n) => ⟨label, false, indent + n⟩

/-- Whether a text begins with a label that no label byte continues. -/
def startsWord (label text : List UInt8) : Bool :=
  label.isPrefixOf text && !nextIs isLabelByte (text.drop label.length)

/-- What opens a line of a heredoc body: how many bytes of indentation, and of closing label if
the label ends the body here. -/
def heredocLineStart (label text : List UInt8) : Nat × Bool :=
  let indent := runLength isIndent text
  if startsWord label (text.drop indent) then (indent + label.length, true) else (indent, false)

/-- The length of the opener of an interpolated expression that stays outside the expression:
the brace of `{$`, or all of `${`. -/
def interpolationLength? : List UInt8 → Option Nat
  | b :: c :: _ =>
    if b == ascii '\x7b' && c == ascii '$' then some 1
    else if b == ascii '$' && c == ascii '\x7b' then some 2
    else none
  | _ => none

end LayerGuard.Source
