import LayerGuard.Yaml.Token

/-! # YAML documents as trees

The first document of a token stream is a tree of scalars, sequences and mappings. Anchors are
numbered in the order in which they appear: a name that is used again gets a new number, which the
next new name shares with it, and a number means the last node that bears it. So it is in the
`serde_yaml` library, whose documents these are. A tree ends in `broken` where its tokens make no
sense or run out.
-/

namespace LayerGuard.Yaml

/-- A part of a document. -/
inductive Node where
  /-- The text does not follow YAML here. -/
  | broken
  | scalar (text : String) (isPlain : Bool) (tag? : Option String)
  | sequence (items : List Node)
  | mapping (entries : List (Node × Node))
  /-- A node that aliases refer to by a number. -/
  | anchored (number : Nat) (node : Node)
  | alias (number : Nat)
  deriving Repr, Inhabited

/-- The tokens that are left, and the numbers of the anchors met so far. -/
structure Stream where
  tokens : List Token
  anchors : List (String × Nat)
  deriving Repr

namespace Stream

def tail (s : Stream) : Stream := { s with tokens := s.tokens.tail }

/-- The stream with a number for an anchor: how many names there have been. -/
def define (s : Stream) (name : String) : Nat × Stream :=
  (s.anchors.length, { s with
    anchors := (name, s.anchors.length) :: s.anchors.filter (·.1 != name) })

def sees (s : Stream) (ts : List Token) : Bool := s.tokens.head?.any ts.contains

end Stream

/-- A part of a document, and the stream behind it unless the part is broken. -/
abbrev Parsed (α : Type) := α × Option Stream

/-- What stands in front of a node: the name of an anchor and a tag, in any order. -/
structure Properties where
  anchor? : Option String
  tag? : Option TagName
  deriving Repr

/-- The properties at the front of a stream, and what follows. -/
def Properties.read : List Token → Properties × List Token
  | .anchor name :: .tag tag :: rest => (⟨some name, some tag⟩, rest)
  | .anchor name :: rest => (⟨some name, none⟩, rest)
  | .tag tag :: .anchor name :: rest => (⟨some name, some tag⟩, rest)
  | .tag tag :: rest => (⟨none, some tag⟩, rest)
  | rest => (⟨none, none⟩, rest)

/-- The short forms of tags, each with the text it stands for. -/
abbrev Handles := List (String × String)

/-- A tag in full, if its handle is known. -/
def TagName.expand? (handles : Handles) (t : TagName) : Option String :=
  if t.handle == "" then some t.suffix else (handles.lookup t.handle).map (· ++ t.suffix)

/-- The scalar that stands where nothing is written. -/
def Node.empty : Node := .scalar "" true none

/-- A node under its anchor. -/
def Node.under (number? : Option Nat) (node : Node) : Node :=
  match number? with
  | some number => .anchored number node
  | none => node

mutual

/-- A node of a block or, otherwise, of brackets. Where `dashes`, a list of items need not be
indented. The fuel bounds the recursion. -/
def node (fuel : Nat) (handles : Handles) (inBlock dashes : Bool) (s : Stream) : Parsed Node :=
  match fuel with
  | 0 => (.broken, none)
  | fuel + 1 =>
    match s.tokens with
    | .alias name :: rest =>
      match s.anchors.lookup name with
      | some number => (.alias number, some { s with tokens := rest })
      | none => (.broken, none)
    | tokens =>
      let (properties, rest) := Properties.read tokens
      match properties.tag?.mapM (·.expand? handles) with
      | none => (.broken, none)
      | some tag? =>
        let (number?, s) := match properties.anchor? with
          | some name => let (number, s) := s.define name; (some number, s)
          | none => (none, s)
        let s := { s with tokens := rest }
        let hasProperties := properties.anchor?.isSome || tag?.isSome
        let (inner, behind) := content fuel handles inBlock dashes hasProperties tag? s
        (inner.under number?, behind)

/-- A node behind its properties. With properties, nothing need be written. -/
def content (fuel : Nat) (handles : Handles) (inBlock dashes hasProperties : Bool)
    (tag? : Option String) (s : Stream) : Parsed Node :=
  match fuel with
  | 0 => (.broken, none)
  | fuel + 1 =>
    match s.tokens with
    | [] => (.broken, none)
    | .scalar text isPlain :: _ =>
      (.scalar text isPlain (if tag? == some "!" then none else tag?), some s.tail)
    | .flowSequence :: _ =>
      let (items, behind) := flowItems fuel handles true s.tail
      (.sequence items, behind)
    | .flowMapping :: _ =>
      let (entries, behind) := flowEntries fuel handles true s.tail
      (.mapping entries, behind)
    | token :: _ =>
      if token == .blockEntry && dashes then
        let (items, behind) := dashItems fuel handles s
        (.sequence items, behind)
      else if token == .blockSequence && inBlock then
        let (items, behind) := blockItems fuel handles s.tail
        (.sequence items, behind)
      else if token == .blockMapping && inBlock then
        let (entries, behind) := blockEntries fuel handles s.tail
        (.mapping entries, behind)
      else if hasProperties then (.scalar "" true tag?, some s)
      else (.broken, none)

/-- A node that may be left out in front of the given tokens. -/
def optional (fuel : Nat) (handles : Handles) (inBlock dashes : Bool) (ends : List Token)
    (s : Stream) : Parsed Node :=
  match fuel with
  | 0 => (.broken, none)
  | fuel + 1 =>
    if s.sees ends then (.empty, some s) else node fuel handles inBlock dashes s

/-- The value of an entry, which may be left out with its colon. -/
def valueOf (fuel : Nat) (handles : Handles) (inBlock : Bool) (ends : List Token) (s : Stream) :
    Parsed Node :=
  match fuel with
  | 0 => (.broken, none)
  | fuel + 1 =>
    match s.tokens with
    | [] => (.broken, none)
    | .value :: _ => optional fuel handles inBlock inBlock ends s.tail
    | _ => (.empty, some s)

/-- The items of an indented list from the next dash on. -/
def blockItems (fuel : Nat) (handles : Handles) (s : Stream) : Parsed (List Node) :=
  match fuel with
  | 0 => ([.broken], none)
  | fuel + 1 =>
    match s.tokens with
    | .blockEntry :: _ =>
      match optional fuel handles true false [.blockEntry, .blockEnd] s.tail with
      | (item, none) => ([item], none)
      | (item, some s) => let (items, behind) := blockItems fuel handles s; (item :: items, behind)
    | .blockEnd :: _ => ([], some s.tail)
    | _ => ([.broken], none)

/-- The items of a list that is not indented, from the next dash on. -/
def dashItems (fuel : Nat) (handles : Handles) (s : Stream) : Parsed (List Node) :=
  match fuel with
  | 0 => ([.broken], none)
  | fuel + 1 =>
    match s.tokens with
    | .blockEntry :: _ =>
      match optional fuel handles true false [.blockEntry, .key, .value, .blockEnd] s.tail with
      | (item, none) => ([item], none)
      | (item, some s) => let (items, behind) := dashItems fuel handles s; (item :: items, behind)
    | [] => ([.broken], none)
    | _ => ([], some s)

/-- The entries of an indented mapping from the next key on. -/
def blockEntries (fuel : Nat) (handles : Handles) (s : Stream) : Parsed (List (Node × Node)) :=
  match fuel with
  | 0 => ([(.broken, .broken)], none)
  | fuel + 1 =>
    match s.tokens with
    | .key :: _ =>
      let ends := [Token.key, .value, .blockEnd]
      match optional fuel handles true true ends s.tail with
      | (key, none) => ([(key, .broken)], none)
      | (key, some s) =>
        match valueOf fuel handles true ends s with
        | (value, none) => ([(key, value)], none)
        | (value, some s) =>
          let (entries, behind) := blockEntries fuel handles s
          ((key, value) :: entries, behind)
    | .blockEnd :: _ => ([], some s.tail)
    | _ => ([(.broken, .broken)], none)

/-- The items between square brackets, from the comma in front of the next one unless it is the
first. An item may be an entry without braces. -/
def flowItems (fuel : Nat) (handles : Handles) (isFirst : Bool) (s : Stream) : Parsed (List Node) :=
  match fuel with
  | 0 => ([.broken], none)
  | fuel + 1 =>
    if s.sees [.flowSequenceEnd] then ([], some s.tail)
    else if !isFirst && !s.sees [.flowEntry] then ([.broken], none)
    else
      let s := if isFirst then s else s.tail
      if s.sees [.flowSequenceEnd] then ([], some s.tail)
      else
        match (if s.sees [.key] then
            let (entry, behind) := flowPair fuel handles s.tail
            (Node.mapping [entry], behind)
          else node fuel handles false false s) with
        | (item, none) => ([item], none)
        | (item, some s) =>
          let (items, behind) := flowItems fuel handles false s
          (item :: items, behind)

/-- An entry among the items between square brackets. A key that is left out takes the token behind
it along. -/
def flowPair (fuel : Nat) (handles : Handles) (s : Stream) : Parsed (Node × Node) :=
  match fuel with
  | 0 => ((.broken, .broken), none)
  | fuel + 1 =>
    let (key, behind) := if s.sees [.value, .flowEntry, .flowSequenceEnd] then (.empty, some s.tail)
      else node fuel handles false false s
    match behind with
    | none => ((key, .broken), none)
    | some s =>
      let (value, behind) := valueOf fuel handles false [.flowEntry, .flowSequenceEnd] s
      ((key, value), behind.filter (!·.tokens.isEmpty))

/-- The entries between braces, from the comma in front of the next one unless it is the first. -/
def flowEntries (fuel : Nat) (handles : Handles) (isFirst : Bool) (s : Stream) :
    Parsed (List (Node × Node)) :=
  match fuel with
  | 0 => ([(.broken, .broken)], none)
  | fuel + 1 =>
    if s.sees [.flowMappingEnd] then ([], some s.tail)
    else if !isFirst && !s.sees [.flowEntry] then ([(.broken, .broken)], none)
    else
      let s := if isFirst then s else s.tail
      if s.sees [.flowMappingEnd] then ([], some s.tail)
      else
        let hasKey := s.sees [.key]
        let (key, behind) := if hasKey then
            optional fuel handles false false [.value, .flowEntry, .flowMappingEnd] s.tail
          else node fuel handles false false s
        match behind with
        | none => ([(key, .broken)], none)
        | some s =>
          let (value, behind) := if hasKey then
              valueOf fuel handles false [.flowEntry, .flowMappingEnd] s
            else (.empty, some s)
          match behind with
          | none => ([(key, value)], none)
          | some s =>
            let (entries, behind) := flowEntries fuel handles false s
            ((key, value) :: entries, behind)

end

/-! ## Documents -/

/-- The short forms that need no directive. -/
def defaultHandles : Handles := [("!", "!"), ("!!", "tag:yaml.org,2002:")]

/-- The short forms that directives state, and the tokens behind the directives. The version may be
stated once, as may each short form. -/
def directives? (hasVersion : Bool) (handles : Handles) : List Token → Option (Handles × List Token)
  | .version major minor :: rest =>
    if hasVersion || major != 1 || (minor != 1 && minor != 2) then none
    else directives? true handles rest
  | .tagHandle handle stem :: rest =>
    if (handles.lookup handle).isSome then none
    else directives? hasVersion (handles ++ [(handle, stem)]) rest
  | rest => some (handles ++ defaultHandles, rest)

/-- The tokens that end a document before anything is written in it. -/
def endsDocument : Token → Bool
  | .version _ _ => true
  | .tagHandle _ _ => true
  | .documentStart => true
  | .documentEnd => true
  | .streamEnd => true
  | _ => false

/-- The first document of a token stream, and whether the stream ends behind it. -/
def document (tokens : List Token) : Node × Bool :=
  match directives? false [] tokens with
  | none => (.broken, false)
  | some (handles, rest) =>
    let isExplicit := tokens.head?.any fun t =>
      endsDocument t && t != .documentEnd && t != .streamEnd
    let fuel := 4 * tokens.length + 8
    let (root, behind) : Parsed Node :=
      if tokens.head? == some .streamEnd then (.empty, some ⟨tokens, []⟩)
      else if isExplicit then
        match rest with
        | .documentStart :: rest =>
          if rest.head?.any endsDocument then (.empty, some ⟨rest, []⟩)
          else node fuel handles true false ⟨rest, []⟩
        | _ => (.broken, none)
      else node fuel handles true false ⟨tokens, []⟩
    (root, behind.any fun s => (s.tokens.dropWhile (· == .documentEnd)) == [.streamEnd])

end LayerGuard.Yaml
