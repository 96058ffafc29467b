import LayerGuard.Yaml.Property
import LayerGuard.Yaml.Scalar

/-! # YAML texts as tokens

Reading goes from token to token. Indentation opens and closes blocks. Whether a word is a key shows
only at the colon behind it, so the place of a possible key is remembered, one for each pair of
brackets that is open, until its line is over; the tokens for the key are then put in front of it.
Where the text does not follow YAML, the tokens up to the first possible key still count. The
format is version 1.1, read as the `serde_yaml` library reads it.
-/

namespace LayerGuard.Yaml

/-- The start of what may turn out to be a key: whether it must, how many tokens come before it, and
its place. -/
structure Candidate where
  required : Bool
  number : Nat
  place : Place
  deriving Repr

/-- Whether it is too late for a colon behind a possible key: it has to follow in the same line and
within 1024 characters. -/
def Candidate.isStale (k : Candidate) (p : Place) : Bool :=
  k.place.line < p.line || k.place.index + 1024 < p.index

/-- The state between two tokens. The margin of a block is the least column of what belongs into it,
one more than that of the block itself; `margins` are those of the blocks around it. `outer` are the
possible keys outside of the brackets that are open. -/
structure Scan where
  cursor : Cursor
  tokens : Array Token
  margin : Nat
  margins : List Nat
  keyAllowed : Bool
  candidate? : Option Candidate
  outer : List (Option Candidate)
  deriving Repr

namespace Scan

def start (cs : List Char) : Scan := ⟨.start cs, #[], 0, [], true, none, []⟩

def inFlow (s : Scan) : Bool := !s.outer.isEmpty

def column (s : Scan) : Nat := s.cursor.column

def push (s : Scan) (t : Token) : Scan := { s with tokens := s.tokens.push t }

/-- The state with one more token of a number of characters, which tells whether a key may
follow. -/
def take (s : Scan) (length : Nat) (keyAllowed : Bool) (t : Token) : Scan :=
  { s with cursor := s.cursor.drop length, keyAllowed, tokens := s.tokens.push t }

/-! ## Blanks between tokens -/

/-- Blanks and comments up to the next token. A tab may not stand where a key may. Each round of
fuel passes a line. -/
def skipBlanks (fuel : Nat) (s : Scan) : Scan :=
  match fuel with
  | 0 => s
  | fuel + 1 =>
    let atStart := s.cursor.place.index == 0
    let c := if atStart && s.cursor.sees '\uFEFF' then s.cursor.drop 1 else s.cursor
    let c := c.dropWhile fun x => x == ' ' || (x == '\t' && (s.inFlow || !s.keyAllowed))
    let c := if c.sees '#' then c.dropWhile (!isBreak ·) else c
    if c.seesOne isBreak then
      skipBlanks fuel { s with cursor := c.drop 1, keyAllowed := s.keyAllowed || !s.inFlow }
    else { s with cursor := c }

/-! ## Possible keys -/

/-- A possible key once its time is over; a required one may not be missed. -/
def expire? (p : Place) : Option Candidate → Option (Option Candidate)
  | none => some none
  | some k => if k.isStale p then (if k.required then none else some none) else some (some k)

/-- The state without the possible keys whose time is over. -/
def expireKeys? (s : Scan) : Option Scan := do
  let candidate? ← expire? s.cursor.place s.candidate?
  let outer ← s.outer.mapM (expire? s.cursor.place)
  return { s with candidate?, outer }

/-- The state without the innermost possible key; a required one may not be given up. -/
def dropKey? (s : Scan) : Option Scan :=
  if s.candidate?.any (·.required) then none else some { s with candidate? := none }

/-- The state with a possible key at the cursor, if a key may stand there. -/
def saveKey? (s : Scan) : Option Scan :=
  if s.keyAllowed then do
    let s ← s.dropKey?
    let required := !s.inFlow && s.margin == s.column + 1
    return { s with candidate? := some ⟨required, s.tokens.size, s.cursor.place⟩ }
  else some s

/-! ## Blocks -/

/-- The state with a block opened at a column, unless one is open there. Its token gets the given
number. -/
def openBlock (s : Scan) (column number : Nat) (t : Token) : Scan :=
  if !s.inFlow && s.margin ≤ column then
    { s with
      margin := column + 1
      margins := s.margin :: s.margins
      tokens := s.tokens.insertIdxIfInBounds number t }
  else s

/-- The state with all blocks closed that have a greater margin. -/
def closeBlocks (margin : Nat) (s : Scan) : Scan :=
  if s.inFlow then s
  else
    let closed := (s.margin :: s.margins).takeWhile (margin < ·)
    match (s.margin :: s.margins).drop closed.length with
    | m :: margins =>
      { s with margin := m, margins, tokens := s.tokens ++ (closed.map fun _ => Token.blockEnd) }
    | [] => s

/-! ## Tokens -/

/-- The state behind the end of the text. -/
def endStream? (s : Scan) : Option Scan := do
  let s ← (s.closeBlocks 0).dropKey?
  return { s.push .streamEnd with keyAllowed := false }

def directive? (s : Scan) : Option Scan := do
  let s ← (s.closeBlocks 0).dropKey?
  let (token, cursor) ← Yaml.directive? (s.cursor.drop 1)
  return { s.push token with cursor, keyAllowed := false }

def documentMark? (s : Scan) (t : Token) : Option Scan := do
  let s ← (s.closeBlocks 0).dropKey?
  return s.take 3 false t

def openFlow? (s : Scan) (t : Token) : Option Scan := do
  let s ← s.saveKey?
  return { s.take 1 true t with candidate? := none, outer := s.candidate? :: s.outer }

def closeFlow? (s : Scan) (t : Token) : Option Scan := do
  let s ← s.dropKey?
  let s := match s.outer with
    | candidate? :: outer => { s with candidate?, outer }
    | [] => s
  return s.take 1 false t

/-- The state behind a comma between brackets. -/
def flowEntry? (s : Scan) : Option Scan := do
  let s ← s.dropKey?
  return s.take 1 true .flowEntry

/-- The state behind the dash of an item. -/
def blockEntry? (s : Scan) : Option Scan := do
  if !s.inFlow && !s.keyAllowed then none
  let s ← (s.openBlock s.column s.tokens.size .blockSequence).dropKey?
  return s.take 1 true .blockEntry

/-- The state behind the question mark of a key. -/
def key? (s : Scan) : Option Scan := do
  if !s.inFlow && !s.keyAllowed then none
  let s ← (s.openBlock s.column s.tokens.size .blockMapping).dropKey?
  return s.take 1 (!s.inFlow) .key

/-- The state behind the colon of a value. A possible key in front of it becomes a key. -/
def value? (s : Scan) : Option Scan :=
  match s.candidate? with
  | some k =>
    let s := { s with candidate? := none, tokens := s.tokens.insertIdxIfInBounds k.number .key }
    some ((s.openBlock k.place.column k.number .blockMapping).take 1 false .value)
  | none =>
    if !s.inFlow && !s.keyAllowed then none
    else some ((s.openBlock s.column s.tokens.size .blockMapping).take 1 (!s.inFlow) .value)

def anchor? (s : Scan) (make : String → Token) : Option Scan := do
  let s ← s.saveKey?
  let (name, cursor) ← anchorName? (s.cursor.drop 1)
  return { s.push (make name) with cursor, keyAllowed := false }

def tag? (s : Scan) : Option Scan := do
  let s ← s.saveKey?
  let (name, cursor) ← Yaml.tag? s.inFlow s.cursor
  return { s.push (.tag name) with cursor, keyAllowed := false }

def block? (s : Scan) (folds : Bool) : Option Scan := do
  let s ← s.dropKey?
  let (text, cursor) ← Yaml.block? folds s.margin (s.cursor.drop 1)
  return { s.push (.scalar (String.ofList text) false) with cursor, keyAllowed := true }

def quoted? (s : Scan) (quote : Char) : Option Scan := do
  let s ← s.saveKey?
  let (text, cursor) ← Yaml.quoted? (s.cursor.rest.length + 1) quote [] (s.cursor.drop 1)
  return { s.push (.scalar (String.ofList text) false) with cursor, keyAllowed := false }

def plain? (s : Scan) : Option Scan := do
  let s ← s.saveKey?
  let scanned ← Yaml.plain? (s.cursor.rest.length + 1) s.inFlow s.margin [] .none s.cursor
  return { s.push (.scalar (String.ofList scanned.text) true) with
    cursor := scanned.cursor, keyAllowed := scanned.leftLine }

/-- The characters with a meaning of their own, which start no text without quotes. -/
def indicators : List Char := "-?:,[]\x7b\x7d#&*!|>'\"%@`".toList

/-- Whether a text without quotes starts at the cursor. -/
def startsPlain (s : Scan) (c : Char) (next? : Option Char) : Bool :=
  (isSolid c && !indicators.contains c) || (c == '-' && !next?.any isBlank) ||
    (!s.inFlow && (c == '?' || c == ':') && next?.any isSolid)

def token? (s : Scan) (c : Char) (next? : Option Char) : Option Scan :=
  let wordEnds := next?.all (!isSolid ·)
  if s.column == 0 && c == '%' then s.directive?
  else if s.cursor.atMark "---" then s.documentMark? .documentStart
  else if s.cursor.atMark "..." then s.documentMark? .documentEnd
  else if c == '[' then s.openFlow? .flowSequence
  else if c == '\x7b' then s.openFlow? .flowMapping
  else if c == ']' then s.closeFlow? .flowSequenceEnd
  else if c == '\x7d' then s.closeFlow? .flowMappingEnd
  else if c == ',' then s.flowEntry?
  else if c == '-' && wordEnds then s.blockEntry?
  else if c == '?' && (s.inFlow || wordEnds) then s.key?
  else if c == ':' && (s.inFlow || wordEnds) then s.value?
  else if c == '*' then s.anchor? .alias
  else if c == '&' then s.anchor? .anchor
  else if c == '!' then s.tag?
  else if c == '|' && !s.inFlow then s.block? false
  else if c == '>' && !s.inFlow then s.block? true
  else if c == '\'' || c == '"' then s.quoted? c
  else if s.startsPlain c next? then s.plain?
  else none

def next? (s : Scan) : Option Scan := do
  let s ← (s.skipBlanks (s.cursor.rest.length + 1)).expireKeys?
  let s := s.closeBlocks (s.column + 1)
  match s.cursor.rest with
  | [] => s.endStream?
  | c :: rest => s.token? c rest.head?

/-- The tokens in front of the first possible key. -/
def settled (s : Scan) : List Token :=
  let pending := (s.candidate? :: s.outer).filterMap fun k? =>
    k?.bind fun k => if k.isStale s.cursor.place && !k.required then none else some k.number
  s.tokens.toList.take (pending.foldl min s.tokens.size)

/-- All tokens from a state on. The list ends without the end of the stream where the text does not
follow YAML. Each round of fuel reads a token. -/
def run (fuel : Nat) (s : Scan) : List Token :=
  match fuel with
  | 0 => s.settled
  | fuel + 1 =>
    match s.next? with
    | none => s.settled
    | some s => if s.tokens.back? == some .streamEnd then s.tokens.toList else run fuel s

end Scan

/-- The tokens of a text. A byte order mark in front is passed over, and a text with a character
that may not occur has no tokens. -/
def tokens (text : String) : List Token :=
  let cs := match text.toList with
    | '\uFEFF' :: rest => rest
    | cs => cs
  if cs.all isAllowed then
    let cs := unifyBreaks cs
    (Scan.start cs).run (cs.length + 2)
  else []

end LayerGuard.Yaml
