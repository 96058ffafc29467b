import LayerGuard.Toml.Scalar
import LayerGuard.Toml.Table

/-! # Reading TOML

A text is read whole, line by line: comments, headers, and keys with values. It is no TOML text as
soon as one line is not, or a key or table is given that is taken. Arrays may be broken over lines,
tables in braces may not. The format is version 1.0; what it leaves open, such as how deep tables
may nest, is settled as the `toml` library does.
-/

namespace LayerGuard.Toml

/-- The greatest depth of arrays and tables within each other, and of the names of a key. -/
def depthLimit : Nat := 80

/-! ## Keys -/

/-- A character of a key without quotes. -/
def isBareChar (c : Char) : Bool := c.isAlphanum || c == '_' || c == '-'

/-- One name of a key, and what follows. -/
def name? (cs : List Char) : Option (String × List Char) :=
  match cs with
  | '"' :: rest => lineString? '"' cs.length [] rest
  | '\'' :: rest => lineString? '\'' cs.length [] rest
  | _ =>
    let bare := cs.takeWhile isBareChar
    if bare.isEmpty then none else some (String.ofList bare, cs.drop bare.length)

/-- The names of a dotted key, and what follows. Each round of fuel reads one name. -/
def names? (fuel : Nat) (cs : List Char) : Option (List String × List Char) :=
  match fuel with
  | 0 => none
  | fuel + 1 => do
    let (name, rest) ← name? (skipBlanks cs)
    match skipBlanks rest with
    | '.' :: rest =>
      let (names, rest) ← names? fuel rest
      return (name :: names, rest)
    | rest => return ([name], rest)

/-- A key as the path to a table and the name in it, and what follows. -/
def key? (cs : List Char) : Option (List String × String × List Char) := do
  let (names, rest) ← names? cs.length cs
  let last ← names.getLast?
  if names.length < depthLimit then some (names.dropLast, last, rest) else none

/-! ## Values -/

/-- What follows blanks, comments and line ends between the items of an array. Each round of fuel
passes one line. -/
def skipLines? (fuel : Nat) (cs : List Char) : Option (List Char) :=
  match fuel with
  | 0 => none
  | fuel + 1 =>
    let cs := skipBlanks cs
    match cs with
    | '#' :: _ => do skipLines? fuel (← newline? (skipComment cs))
    | _ =>
      match newline? cs with
      | some rest => skipLines? fuel rest
      | none => some cs

/-- A value that is neither an array nor a table, and what follows. -/
def scalar? (cs : List Char) : Option (Value × List Char) :=
  match cs with
  | [] => none
  | c :: _ =>
    if c == '"' || c == '\'' then (string? cs).map fun (s, rest) => (.text s, rest)
    else if c == 't' then if "true".toList.isPrefixOf cs then some (.other, cs.drop 4) else none
    else if c == 'f' then if "false".toList.isPrefixOf cs then some (.other, cs.drop 5) else none
    else match date? cs with
      | some rest => some (.date, rest)
      | none => ((float? cs).or ((integer? cs).or (specialFloat? cs))).map (.other, ·)

mutual

/-- The value at the front of a text, at a depth, and what follows. The fuel bounds the
recursion. -/
def value? (fuel depth : Nat) (cs : List Char) : Option (Value × List Char) :=
  match fuel, cs with
  | 0, _ => none
  | fuel + 1, '[' :: rest =>
    if depth + 1 < depthLimit then do
      let (items, rest) ← items? fuel (depth + 1) rest
      return (.array items, rest)
    else none
  | fuel + 1, '\x7b' :: rest =>
    if depth + 1 < depthLimit then
      match skipBlanks rest with
      | '\x7d' :: rest => some (.table [], rest)
      | rest => do
        let (entries, rest) ← pairs? fuel (depth + 1) [] rest
        return (.table (Item.toEntries entries), rest)
    else none
  | _, cs => scalar? cs

/-- The items of an array from the next one on, through the closing bracket. -/
def items? (fuel depth : Nat) (cs : List Char) : Option (List Value × List Char) :=
  match fuel with
  | 0 => none
  | fuel + 1 => do
    match ← skipLines? (cs.length + 1) cs with
    | ']' :: rest => return ([], rest)
    | cs =>
      let (item, rest) ← value? fuel depth cs
      match ← skipLines? (rest.length + 1) rest with
      | ',' :: rest =>
        let (items, rest) ← items? fuel depth rest
        return (item :: items, rest)
      | ']' :: rest => return ([item], rest)
      | _ => none

/-- The entries of a table in braces from the next one on, through the closing brace, behind those
already read. -/
def pairs? (fuel depth : Nat) (read : Entries) (cs : List Char) : Option (Entries × List Char) :=
  match fuel with
  | 0 => none
  | fuel + 1 => do
    let (path, name, rest) ← key? cs
    let (value, rest) ← value? fuel depth (skipBlanks (← expect? '=' rest))
    let read ← read.addDotted? path name (.value value)
    match skipBlanks rest with
    | ',' :: rest => pairs? fuel depth read rest
    | '\x7d' :: rest => return (read, rest)
    | _ => none

end

/-! ## Lines -/

/-- The tables read so far, and the path of the table that keys now go to. -/
structure Progress where
  entries : Entries
  current : List String

/-- The progress after a key with a value. -/
def Progress.addPair? (p : Progress) (path : List String) (name : String) (value : Value) :
    Option Progress := do
  let entries ← p.entries.editAt? .way
    (fun _ inner => inner.addDotted? path name (.value value)) p.current .header
  return { p with entries }

/-- The progress after a header, which opens a table or an element of an array of tables. -/
def Progress.header? (p : Progress) (isElement : Bool) (path : List String) (name : String) :
    Option Progress := do
  let entries ← if isElement then p.entries.openElement? path name
    else p.entries.openTable? path name
  return ⟨entries, path ++ [name]⟩

/-- The progress after a line that is neither blank nor a comment, and what follows the line. -/
def line? (p : Progress) (cs : List Char) : Option (Progress × List Char) :=
  match cs with
  | '[' :: '[' :: rest => do
    let (path, name, rest) ← key? rest
    let p ← p.header? true path name
    return (p, ← endOfLine? (← expect? ']' (← expect? ']' rest)))
  | '[' :: rest => do
    let (path, name, rest) ← key? rest
    let p ← p.header? false path name
    return (p, ← endOfLine? (← expect? ']' rest))
  | _ => do
    let (path, name, rest) ← key? cs
    let body := skipBlanks (← expect? '=' rest)
    let (value, rest) ← value? (2 * body.length + 2) 0 body
    return (← p.addPair? path name value, ← endOfLine? rest)

/-- The tables after all lines. Each round of fuel reads one line. -/
def lines? (fuel : Nat) (p : Progress) (cs : List Char) : Option Entries :=
  match fuel with
  | 0 => none
  | fuel + 1 =>
    match skipBlanks cs with
    | [] => some p.entries
    | c :: rest =>
      if c == '#' || c == '\n' || c == '\r' then do lines? fuel p (← endOfLine? (c :: rest))
      else do
        let (p, rest) ← line? p (c :: rest)
        lines? fuel p rest

/-- The entries of the table that a text describes, if it is a TOML text. A byte order mark in
front is passed over. -/
def parse? (text : String) : Option (List (String × Value)) :=
  let cs := match text.toList with
    | '\uFEFF' :: rest => rest
    | cs => cs
  (lines? (cs.length + 1) ⟨[], []⟩ cs).map Item.toEntries

end LayerGuard.Toml
