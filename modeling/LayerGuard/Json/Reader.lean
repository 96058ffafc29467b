import LayerGuard.Json.Value

/-! # Reading JSON

A text is read from left to right. Whatever precedes the first fault is kept, because a reader of
settings may meet an unsuitable value before the fault and has to say so: the draft of a text is
its value up to there, with `broken` where the text stops being JSON. A text is a JSON text if its
draft is unbroken, every string in it is Unicode text and nothing but blanks follows.
-/

namespace LayerGuard.Json

/-- A value read from a text that may turn out faulty. A string is kept without its text if an
escape names one half of a surrogate pair and the other half is missing. -/
inductive Draft where
  /-- The text is no JSON from here on. -/
  | broken
  | null
  | bool (value : Bool)
  | number (value : Decimal)
  | string (text? : Option String)
  | array (items : List Draft)
  | object (fields : List (Option String × Draft))
  deriving Repr, Inhabited

/-- The blanks that JSON allows between tokens. -/
def isJsonBlank (c : Char) : Bool := c == ' ' || c == '\n' || c == '\t' || c == '\r'

def skipBlanks (cs : List Char) : List Char := cs.dropWhile isJsonBlank

/-! ## Strings -/

/-- A part of a quoted text: a character, or half of a surrogate pair. -/
inductive TextUnit where
  | char (c : Char)
  | half (code : Nat)

/-- The unit that an escape by number names. -/
def TextUnit.ofCode (code : Nat) : TextUnit :=
  if 0xD800 ≤ code && code ≤ 0xDFFF then .half code else .char (Char.ofNat code)

/-- The character that a letter behind a backslash stands for. -/
def escaped? (c : Char) : Option Char :=
  if c == '"' || c == '\\' || c == '/' then some c
  else if c == 'b' then some '\x08'
  else if c == 'f' then some '\x0c'
  else if c == 'n' then some '\n'
  else if c == 'r' then some '\r'
  else if c == 't' then some '\t'
  else none

/-- The units of a quoted text up to its closing quote and what follows, behind the units
already read. -/
def textUnits? (read : List TextUnit) : List Char → Option (List TextUnit × List Char)
  | [] => none
  | '"' :: rest => some (read.reverse, rest)
  | '\\' :: 'u' :: a :: b :: c :: d :: rest =>
    match Decimal.natOfHex? [a, b, c, d] with
    | some code => textUnits? (.ofCode code :: read) rest
    | none => none
  | '\\' :: c :: rest =>
    match escaped? c with
    | some c => textUnits? (.char c :: read) rest
    | none => none
  | c :: rest => if c.toNat < 32 then none else textUnits? (.char c :: read) rest

/-- The characters of a quoted text, with halves of surrogate pairs joined; there are none if a
half stands alone. -/
def joinHalves? (read : List Char) : List TextUnit → Option (List Char)
  | [] => some read.reverse
  | .char c :: rest => joinHalves? (c :: read) rest
  | .half high :: .half low :: rest =>
    if high < 0xDC00 && 0xDC00 ≤ low then
      joinHalves? (Char.ofNat (0x10000 + (high - 0xD800) * 1024 + (low - 0xDC00)) :: read) rest
    else none
  | .half _ :: _ => none

/-- The text behind an opening quote: what it says, if that is Unicode text, and what follows. -/
def quoted? (cs : List Char) : Option (Option String × List Char) :=
  (textUnits? [] cs).map fun (units, rest) => ((joinHalves? [] units).map String.ofList, rest)

/-! ## Numbers -/

/-- The whole part of a number: a zero, or digits that begin with none. -/
def whole? (cs : List Char) : Option (Nat × List Char) :=
  match Decimal.digits cs with
  | ([], _) => none
  | (d :: ds, rest) =>
    if d = 0 && !ds.isEmpty then none else some (Decimal.natOfDigits (d :: ds), rest)

/-- The fraction of a number: nothing, or a point and at least one digit. -/
def fraction? : List Char → Option (List (Fin 10) × List Char)
  | '.' :: cs =>
    match Decimal.digits cs with
    | ([], _) => none
    | (ds, rest) => some (ds, rest)
  | cs => some ([], cs)

/-- The exponent of a number: nothing, or a mark, a sign that may be missing and digits. -/
def exponent? (cs : List Char) : Option (Option Int × List Char) :=
  match cs with
  | c :: tail =>
    if c == 'e' || c == 'E' then
      let (negative, body) := Decimal.sign tail
      match Decimal.digits body with
      | ([], _) => none
      | (ds, rest) =>
        let magnitude : Int := Decimal.natOfDigits ds
        some (some (if negative then -magnitude else magnitude), rest)
    else some (none, cs)
  | [] => some (none, cs)

/-- The number at the front of a text, and what follows. -/
def number? (cs : List Char) : Option (Decimal × List Char) := do
  let (negative, cs) := match cs with
    | '-' :: rest => (true, rest)
    | _ => (false, cs)
  let (whole, cs) ← whole? cs
  let (fraction, cs) ← fraction? cs
  let (exponent, cs) ← exponent? cs
  return (⟨negative, whole, fraction, exponent⟩, cs)

/-! ## Values -/

/-- A draft and what follows it in the text, if the draft is unbroken. -/
abbrev Reading := Draft × Option (List Char)

/-- The reading of a text that is no JSON from here on. -/
def Reading.broken : Reading := (.broken, none)

/-- The word at the front of a text read as a value. -/
def readWord (word : List Char) (value : Draft) (cs : List Char) : Reading :=
  if word.isPrefixOf cs then (value, some (cs.drop word.length)) else .broken

mutual

/-- The value at the front of a text. The fuel bounds the depth of the recursion. -/
def readValue (fuel : Nat) (cs : List Char) : Reading :=
  match fuel with
  | 0 => .broken
  | fuel + 1 =>
    match skipBlanks cs with
    | [] => .broken
    | c :: rest =>
      if c == '"' then
        match quoted? rest with
        | some (text?, rest) => (.string text?, some rest)
        | none => .broken
      else if c == '[' then
        match skipBlanks rest with
        | ']' :: rest => (.array [], some rest)
        | rest =>
          let (items, rest?) := readItems fuel rest
          (.array items, rest?)
      else if c == '\x7b' then
        match skipBlanks rest with
        | '\x7d' :: rest => (.object [], some rest)
        | rest =>
          let (fields, rest?) := readFields fuel rest
          (.object fields, rest?)
      else if c == 'n' then readWord "null".toList .null (c :: rest)
      else if c == 't' then readWord "true".toList (.bool true) (c :: rest)
      else if c == 'f' then readWord "false".toList (.bool false) (c :: rest)
      else match number? (c :: rest) with
        | some (n, rest) => (.number n, some rest)
        | none => .broken

/-- The items of an array from the next one on, through the closing bracket. -/
def readItems (fuel : Nat) (cs : List Char) : List Draft × Option (List Char) :=
  match fuel with
  | 0 => ([.broken], none)
  | fuel + 1 =>
    match readValue fuel cs with
    | (item, none) => ([item], none)
    | (item, some rest) =>
      match skipBlanks rest with
      | ',' :: rest =>
        let (items, rest?) := readItems fuel rest
        (item :: items, rest?)
      | ']' :: rest => ([item], some rest)
      | _ => ([item, .broken], none)

/-- The fields of an object from the next one on, through the closing brace. -/
def readFields (fuel : Nat) (cs : List Char) :
    List (Option String × Draft) × Option (List Char) :=
  match fuel with
  | 0 => ([(none, .broken)], none)
  | fuel + 1 =>
    match skipBlanks cs with
    | '"' :: rest =>
      match quoted? rest with
      | none => ([(none, .broken)], none)
      | some (key, rest) =>
        match skipBlanks rest with
        | ':' :: rest =>
          match readValue fuel rest with
          | (value, none) => ([(key, value)], none)
          | (value, some rest) =>
            match skipBlanks rest with
            | ',' :: rest =>
              let (fields, rest?) := readFields fuel rest
              ((key, value) :: fields, rest?)
            | '\x7d' :: rest => ([(key, value)], some rest)
            | _ => ([(key, value), (none, .broken)], none)
        | _ => ([(key, .broken)], none)
    | _ => ([(none, .broken)], none)

end

/-- The draft of a whole text, and whether the text ends well behind it. -/
def draft (text : String) : Draft × Bool :=
  let cs := text.toList
  let (value, rest?) := readValue (2 * cs.length + 2) cs
  (value, rest?.any fun rest => (skipBlanks rest).isEmpty)

mutual

/-- The value of a draft that is unbroken and whose strings are all Unicode text. -/
def Draft.complete? : Draft → Option Json
  | .broken => none
  | .null => some .null
  | .bool b => some (.bool b)
  | .number n => some (.number n)
  | .string text? => text?.map .string
  | .array items => (Draft.completeItems? items).map .array
  | .object fields => (Draft.completeFields? fields).map .object

def Draft.completeItems? : List Draft → Option (List Json)
  | [] => some []
  | item :: items => do return (← item.complete?) :: (← Draft.completeItems? items)

def Draft.completeFields? : List (Option String × Draft) → Option (List (String × Json))
  | [] => some []
  | (key?, value) :: fields => do
    return (← key?, ← value.complete?) :: (← Draft.completeFields? fields)

end

/-- The value that a text names, if it is a JSON text. -/
def parse? (text : String) : Option Json :=
  match draft text with
  | (value, true) => value.complete?
  | (_, false) => none

end LayerGuard.Json
