import LayerGuard.Source.Lexeme

/-! # Scanning PHP source for qualified names

The scanner moves through the bytes of a source one lexeme at a time. Its mode says what the
bytes mean: text outside the tags, code, code embedded in a string, the text of a quoted
literal, or the body of a heredoc. Literals and embedded code nest, so the modes left behind
stand on a stack. A move takes at least one byte, hence the scan ends, and the line of every
position is one more than the line feeds before it.

Text outside the tags, comments, the text of literals and variables never give a name, and neither
does the declaration of the namespace itself, which lasts from the word `namespace` to the next
semicolon.
-/

namespace LayerGuard.Source

/-- What the bytes at a position mean. -/
inductive Mode where
  /-- Text outside the tags. -/
  | outside
  /-- Code between the tags. -/
  | code
  /-- Code inside a literal, with the number of braces it has opened itself. -/
  | embedded (depth : Nat)
  /-- The text of a literal that ends at the given quote. -/
  | quoted (quote : UInt8)
  /-- The body of a heredoc that ends at the given label; a raw one holds no code. -/
  | heredoc (label : List UInt8) (raw : Bool)
  deriving DecidableEq, Repr

/-- What the scanner remembers between lexemes. -/
structure State where
  mode : Mode
  /-- The modes to come back to, innermost first. -/
  outer : List Mode
  /-- Whether a declaration of a namespace is still open. -/
  inDeclaration : Bool
  /-- Whether the last token was a member operator. -/
  afterMember : Bool
  deriving DecidableEq, Repr

def State.initial : State := ⟨.outside, [], false, false⟩

/-- The state inside a nested region. -/
def State.enter (s : State) (inner : Mode) : State :=
  { s with mode := inner, outer := s.mode :: s.outer }

/-- The state behind a nested region. -/
def State.leave (s : State) : State :=
  match s.outer with
  | mode :: outer => { s with mode, outer }
  | [] => { s with mode := .code }

/-- One step of the scanner at a byte: how many further bytes its lexeme has, the state behind it
and whether the lexeme is a name to record. -/
structure Move where
  more : Nat
  next : State
  records : Bool

/-- A move that records nothing. -/
def State.pass (s : State) (more : Nat) : Move := ⟨more, s, false⟩

/-- The move over an escape: the backslash and the byte behind it, if there is one. -/
def State.escape (s : State) (rest : List UInt8) : Move := s.pass (min 1 rest.length)

/-- The move past a line end of a heredoc body, where the next line may close the body. -/
def State.heredocLine (s : State) (label : List UInt8) (lineEnd : Nat) (body : List UInt8) : Move :=
  let (taken, closed) := heredocLineStart label body
  (if closed then s.leave else s).pass (lineEnd + taken)

/-- The move over a name or a label. `member` tells whether a member operator stands before it. -/
def State.name (s : State) (member : Bool) (b : UInt8) (rest : List UInt8) : Move :=
  if b == separator then
    if nextIs isLabelStart rest then ⟨(nameBytes rest).length, s, !s.inDeclaration⟩ else s.pass 0
  else
    let name := nameBytes (b :: rest)
    let label := firstLabel (b :: rest)
    let qualified := label.length < name.length
    if isNamespaceWord label then
      (if !qualified && !member then { s with inDeclaration := true } else s).pass (name.length - 1)
    else ⟨name.length - 1, s, qualified && !s.inDeclaration⟩

/-- The move over a token of code. `member` tells whether a member operator stands before it. -/
def State.token (s : State) (member : Bool) (b : UInt8) (rest : List UInt8) : Move :=
  if b == ascii '-' && nextIs (· == ascii '>') rest then { s with afterMember := true }.pass 1
  else if b == ascii '?' && nextIs (· == ascii '-') rest &&
      nextIs (· == ascii '>') (rest.drop 1) then
    { s with afterMember := true }.pass 2
  else if b == ascii ':' && nextIs (· == ascii ':') rest then { s with afterMember := true }.pass 1
  else if b == ascii '\'' || b == ascii '"' || b == ascii '\x60' then (s.enter (.quoted b)).pass 0
  else if b == ascii '<' && nextIs (· == ascii '<') rest &&
      nextIs (· == ascii '<') (rest.drop 1) then
    match heredocHead? (rest.drop 2) with
    | none => s.pass 2
    | some head =>
      (s.enter (.heredoc head.label head.raw)).heredocLine head.label (2 + head.length)
        (rest.drop (2 + head.length))
  else if b == ascii '$' then s.pass (runLength isLabelByte rest)
  else if b == ascii ';' then { s with inDeclaration := false }.pass 0
  else if isDigit b then s.pass (runLength isNumberByte rest)
  else if b == separator || isLabelStart b then s.name member b rest
  else match s.mode with
    | .embedded depth =>
      if b == ascii '\x7b' then { s with mode := .embedded (depth + 1) }.pass 0
      else if b == ascii '\x7d' then
        match depth with
        | 0 => s.leave.pass 0
        | outer + 1 => { s with mode := .embedded outer }.pass 0
      else s.pass 0
    | _ => s.pass 0

/-- The move at a byte of code. White space and comments leave the state alone. -/
def State.codeMove (s : State) (b : UInt8) (rest : List UInt8) : Move :=
  if isSpace b then s.pass 0
  else if s.mode == .code && b == ascii '?' && nextIs (· == ascii '>') rest then
    { s with mode := .outside }.pass 1
  else if (b == ascii '/' && nextIs (· == ascii '/') rest) ||
      (b == ascii '#' && !nextIs (· == ascii '[') rest) then
    s.pass (commentLineLength rest)
  else if b == ascii '/' && nextIs (· == ascii '*') rest then
    s.pass (1 + commentBlockLength (rest.drop 1))
  else { s with afterMember := false }.token s.afterMember b rest

def State.outsideMove (s : State) (b : UInt8) (rest : List UInt8) : Move :=
  match openTagLength? (b :: rest) with
  | some n => { s with mode := .code }.pass (n - 1)
  | none => s.pass 0

/-- The move at a byte of text in which expressions may be embedded. -/
def State.textMove (s : State) (b : UInt8) (rest : List UInt8) : Move :=
  match interpolationLength? (b :: rest) with
  | some n => (s.enter (.embedded 0)).pass (n - 1)
  | none => s.pass 0

def State.quotedMove (s : State) (quote b : UInt8) (rest : List UInt8) : Move :=
  if b == separator then s.escape rest
  else if b == quote then s.leave.pass 0
  else if quote == ascii '\'' then s.pass 0
  else s.textMove b rest

/-- The move at a byte of a heredoc body. A backslash at the end of a line escapes nothing. -/
def State.heredocMove (s : State) (label : List UInt8) (raw : Bool) (b : UInt8)
    (rest : List UInt8) : Move :=
  if b == newline then s.heredocLine label 0 rest
  else if raw then s.pass 0
  else if b == separator && !nextIs (· == newline) rest then s.escape rest
  else s.textMove b rest

/-- The move of the scanner at the byte `b` with `rest` behind it. -/
def State.move (s : State) (b : UInt8) (rest : List UInt8) : Move :=
  match s.mode with
  | .outside => s.outsideMove b rest
  | .code => s.codeMove b rest
  | .embedded _ => s.codeMove b rest
  | .quoted quote => s.quotedMove quote b rest
  | .heredoc label raw => s.heredocMove label raw b rest

/-- A recorded name: where its first label begins, on which line, and its bytes without a leading
separator. -/
structure Occurrence where
  offset : Nat
  line : Nat
  name : List UInt8
  deriving DecidableEq, Repr

/-- A position in a source: the state there, the bytes and lines passed, and the names recorded
so far, the last one first. -/
structure Cursor where
  state : State
  offset : Nat
  line : Nat
  found : List Occurrence

def Cursor.start : Cursor := ⟨.initial, 0, 1, []⟩

/-- The occurrence that a lexeme is when it is recorded. -/
def Cursor.occurrence (c : Cursor) (lexeme : List UInt8) : Occurrence :=
  match lexeme with
  | b :: rest => if b == separator then ⟨c.offset + 1, c.line, rest⟩ else ⟨c.offset, c.line, lexeme⟩
  | [] => ⟨c.offset, c.line, []⟩

/-- The position behind a move over the given lexeme. -/
def Cursor.advance (c : Cursor) (move : Move) (lexeme : List UInt8) : Cursor where
  state := move.next
  offset := c.offset + lexeme.length
  line := c.line + lineFeeds lexeme
  found := if move.records then c.occurrence lexeme :: c.found else c.found

/-- The position at the end of the text that follows a position. -/
def Cursor.run (c : Cursor) : List UInt8 → Cursor
  | [] => c
  | b :: rest =>
    let move := c.state.move b rest
    (c.advance move (b :: rest.take move.more)).run (rest.drop move.more)
termination_by text => text.length
decreasing_by simp only [List.length_cons, List.length_drop]; omega

/-- The names recorded in a source, in order of appearance. -/
def occurrences (text : List UInt8) : List Occurrence :=
  (Cursor.start.run text).found.reverse

end LayerGuard.Source
