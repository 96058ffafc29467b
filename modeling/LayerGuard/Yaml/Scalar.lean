import LayerGuard.Decimal
import LayerGuard.Yaml.Cursor

/-! # YAML scalars

A scalar is a text written without quotes, in quotes, or as an indented block. Line ends within the
first two kinds fold: a single one becomes a space, of several the first is dropped. In a block
only the folded style folds, and only between lines that do not start with a blank.
-/

namespace LayerGuard.Yaml

/-! ## Gaps -/

/-- Blanks and line ends between the words of a scalar: the blanks before the first line end; that
line end, which has no characters if it was escaped; the further line ends. -/
structure Gap where
  blanks : List Char
  first? : Option (List Char)
  further : List Char
  deriving Repr

namespace Gap

def none : Gap := ⟨[], .none, []⟩

/-- The gap that an escaped line end opens. -/
def escaped : Gap := ⟨[], some [], []⟩

def isBroken (g : Gap) : Bool := g.first?.isSome

/-- The gap with one more blank; blanks behind a line end do not count. -/
def addBlank (g : Gap) (c : Char) : Gap :=
  if g.isBroken then g else { g with blanks := g.blanks ++ [c] }

def addBreak (g : Gap) (c : Char) : Gap :=
  if g.isBroken then { g with further := g.further ++ [c] } else ⟨[], some [c], []⟩

/-- What stands for the gap in the scalar. -/
def folded (g : Gap) : List Char :=
  match g.first? with
  | .none => g.blanks
  | some ['\n'] => if g.further.isEmpty then [' '] else g.further
  | some first => first ++ g.further

/-- The gap at the front of a text, and the cursor behind it. Behind a line end no tab may stand
left of the indentation. -/
def read? (indent : Nat) (g : Gap) (p : Place) : List Char → Option (Gap × Cursor)
  | [] => some (g, ⟨[], p⟩)
  | c :: rest =>
    if isBlank c then
      if g.isBroken && p.column < indent && c == '\t' then .none
      else read? indent (g.addBlank c) (p.after c) rest
    else if isBreak c then read? indent (g.addBreak c) (p.after c) rest
    else some (g, ⟨c :: rest, p⟩)

end Gap

/-! ## Without quotes -/

/-- A character that ends a word between brackets. -/
def isFlowMark (c : Char) : Bool := c == ',' || c == '[' || c == ']' || c == '\x7b' || c == '\x7d'

/-- The word at the front of a text. Between brackets a colon may not touch a mark. -/
def plainWord? (inFlow : Bool) : List Char → Option (List Char)
  | [] => some []
  | c :: rest =>
    if !isSolid c then some []
    else if inFlow && c == ':' && rest.head?.any (fun d => isFlowMark d || d == '?') then none
    else if c == ':' && rest.head?.all (!isSolid ·) then some []
    else if inFlow && isFlowMark c then some []
    else (plainWord? inFlow rest).map (c :: ·)

/-- A scalar as read: its text, whether it was left behind a line end, and the cursor there. -/
structure Scanned where
  text : List Char
  leftLine : Bool
  cursor : Cursor
  deriving Repr

/-- The scalar without quotes that continues a text behind a gap. Each round of fuel reads a
word. -/
def plain? (fuel : Nat) (inFlow : Bool) (indent : Nat) (text : List Char) (gap : Gap) (c : Cursor) :
    Option Scanned :=
  match fuel with
  | 0 => none
  | fuel + 1 =>
    if c.atDocumentMark || c.sees '#' then some ⟨text, gap.isBroken, c⟩
    else do
      let word ← plainWord? inFlow c.rest
      let text := if word.isEmpty then text else text ++ gap.folded ++ word
      let gap := if word.isEmpty then gap else .none
      let c := c.drop word.length
      if c.seesOne (!isSolid ·) then
        let (gap, c) ← gap.read? indent c.place c.rest
        if !inFlow && c.column < indent then some ⟨text, gap.isBroken, c⟩
        else plain? fuel inFlow indent text gap c
      else some ⟨text, gap.isBroken, c⟩

/-! ## In quotes -/

/-- The character that a letter stands for behind a backslash. -/
def escapes : List (Char × Char) :=
  [('0', '\x00'), ('a', '\x07'), ('b', '\x08'), ('t', '\t'), ('\t', '\t'), ('n', '\n'),
   ('v', '\x0b'), ('f', '\x0c'), ('r', '\r'), ('e', '\x1b'), (' ', ' '), ('"', '"'), ('/', '/'),
   ('\\', '\\'), ('N', '\u0085'), ('_', '\u00A0'), ('L', '\u2028'), ('P', '\u2029')]

/-- How many hexadecimal digits follow a letter behind a backslash. -/
def escapeWidths : List (Char × Nat) := [('x', 2), ('u', 4), ('U', 8)]

/-- The character of a number, if there is one. -/
def scalarValue? (n : Nat) : Option Char := if n.isValidChar then some (Char.ofNat n) else none

/-- The character that an escape stands for, read from behind its backslash, and what follows. -/
def escape? : List Char → Option (Char × List Char)
  | [] => none
  | c :: rest =>
    match escapes.lookup c, escapeWidths.lookup c with
    | some value, _ => some (value, rest)
    | none, some width => do
      let digits := rest.take width
      if digits.length < width then none
      let n ← Decimal.natOfHex? digits
      return (← scalarValue? n, rest.drop width)
    | none, none => none

/-- The characters of a scalar in quotes up to a blank, a line end, escaped or not, or the closing
quote, and what follows. Each round of fuel reads a character. -/
def quotedWord? (fuel : Nat) (quote : Char) (cs : List Char) : Option (List Char × List Char) :=
  match fuel, cs with
  | 0, _ => none
  | _, [] => some ([], [])
  | fuel + 1, c :: rest =>
    if !isSolid c then some ([], cs)
    else if c == quote then
      match rest with
      | '\'' :: rest =>
        if quote == '\'' then
          (quotedWord? fuel quote rest).map fun (word, rest) => ('\'' :: word, rest)
        else some ([], cs)
      | _ => some ([], cs)
    else if c == '\\' && quote == '"' then
      if rest.head?.any isBreak then some ([], cs)
      else do
        let (value, rest) ← escape? rest
        let (word, rest) ← quotedWord? fuel quote rest
        return (value :: word, rest)
    else (quotedWord? fuel quote rest).map fun (word, rest) => (c :: word, rest)

/-- The scalar in quotes that continues a text, through the closing quote. Each round of fuel reads
a word and a gap. -/
def quoted? (fuel : Nat) (quote : Char) (text : List Char) (c : Cursor) :
    Option (List Char × Cursor) :=
  match fuel with
  | 0 => none
  | fuel + 1 =>
    if c.atDocumentMark then none
    else do
      let (word, rest) ← quotedWord? (c.rest.length + 1) quote c.rest
      let text := text ++ word
      let c := c.moveTo rest
      match rest with
      | [] => none
      | next :: _ =>
        if next == quote then some (text, c.drop 1)
        else
          let (gap, c) ← if isSolid next then Gap.escaped.read? 0 (c.drop 2).place (c.drop 2).rest
            else Gap.none.read? 0 c.place c.rest
          quoted? fuel quote (text ++ gap.folded) c

/-! ## Blocks -/

/-- What becomes of the line ends at the end of a block. -/
inductive Chomping where
  | strip
  | clip
  | keep
  deriving DecidableEq, Repr

def Chomping.ofChar? : Char → Option Chomping
  | '+' => some .keep
  | '-' => some .strip
  | _ => none

/-- The first line of a block: chomping, and the indentation if it is given. -/
structure BlockHeader where
  chomping : Chomping
  indentation? : Option Nat
  deriving Repr

/-- The value of a digit of indentation; nought is none. -/
def indentation? (c : Char) : Option Nat := if c == '0' then none else some (c.toNat - '0'.toNat)

/-- The header of a block behind its first character, and the cursor on the line after it. -/
def blockHeader? (c : Cursor) : Option (BlockHeader × Cursor) := do
  let (header, length) ← match c.rest with
    | [] => some (⟨.clip, none⟩, 0)
    | x :: rest =>
      match Chomping.ofChar? x with
      | some chomping =>
        match rest with
        | d :: _ =>
          if d.isDigit then (indentation? d).map fun n => (⟨chomping, some n⟩, 2)
          else some (⟨chomping, none⟩, 1)
        | [] => some (⟨chomping, none⟩, 1)
      | none =>
        if x.isDigit then do
          let n ← indentation? x
          match rest.head?.bind Chomping.ofChar? with
          | some chomping => some (⟨chomping, some n⟩, 2)
          | none => some (⟨.clip, some n⟩, 1)
        else some (⟨.clip, none⟩, 0)
  return (header, ← (c.drop length).endOfLine?)

/-- The line ends of empty lines, the greatest column met before a line end or the next line, and
the cursor at that line. As long as there is no indentation every space belongs to it; no tab may
stand within it. -/
def emptyLines? (indent? : Option Nat) (most : Nat) (breaks : List Char) (p : Place) :
    List Char → Option (List Char × Nat × Cursor)
  | [] => some (breaks, max most p.column, ⟨[], p⟩)
  | c :: rest =>
    let within := indent?.all (p.column < ·)
    if c == ' ' && within then emptyLines? indent? most breaks (p.after c) rest
    else if c == '\t' && within then none
    else if isBreak c then
      emptyLines? indent? (max most p.column) (breaks ++ [c]) (p.after c) rest
    else some (breaks, max most p.column, ⟨c :: rest, p⟩)

/-- The lines of a block read so far, the line end behind the last one and whether that one starts
with a blank, and the line ends of the empty lines after it. -/
structure BlockLines where
  text : List Char
  lastBreak? : Option Char
  startsBlank : Bool
  further : List Char
  deriving Repr

/-- What stands between the last line and the next one. -/
def BlockLines.joint (b : BlockLines) (folds nextBlank : Bool) : List Char :=
  if folds && b.lastBreak? == some '\n' && !b.startsBlank && !nextBlank then
    if b.further.isEmpty then [' '] else b.further
  else b.lastBreak?.toList ++ b.further

/-- The lines of a block with those that follow, and the cursor behind them. Each round of fuel
reads a line. -/
def BlockLines.read? (fuel : Nat) (folds : Bool) (indent : Nat) (b : BlockLines) (c : Cursor) :
    Option (BlockLines × Cursor) :=
  match fuel with
  | 0 => none
  | fuel + 1 =>
    if c.column == indent && !c.rest.isEmpty then do
      let nextBlank := c.seesOne isBlank
      let line := c.rest.takeWhile (!isBreak ·)
      let text := b.text ++ b.joint folds nextBlank ++ line
      let behind := c.drop line.length
      let next := behind.drop 1
      let (further, _, c) ← emptyLines? (some indent) 0 [] next.place next.rest
      BlockLines.read? fuel folds indent ⟨text, behind.rest.head?, nextBlank, further⟩ c
    else some (b, c)

/-- The text of a block at its end. -/
def BlockLines.chomp (b : BlockLines) : Chomping → List Char
  | .strip => b.text
  | .clip => b.text ++ b.lastBreak?.toList
  | .keep => b.text ++ b.lastBreak?.toList ++ b.further

/-- The block behind its first character. Its lines stand at least at the given margin. -/
def block? (folds : Bool) (margin : Nat) (c : Cursor) : Option (List Char × Cursor) := do
  let (header, c) ← blockHeader? c
  let indent? := header.indentation?.map (margin - 1 + ·)
  let (further, most, c) ← emptyLines? indent? 0 [] c.place c.rest
  let indent := indent?.getD (max (max most margin) 1)
  let (lines, c) ← BlockLines.read? (c.rest.length + 1) folds indent ⟨[], none, false, further⟩ c
  return (lines.chomp header.chomping, c)

end LayerGuard.Yaml
