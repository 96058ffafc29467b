import LayerGuard.Decimal
import LayerGuard.Yaml.Cursor
import LayerGuard.Yaml.Token

/-! # Anchors, tags and directives

These carry names: an anchor and its aliases share one, a tag is a short form or a full text, and a
directive states the version of YAML or a short form for tags.
-/

namespace LayerGuard.Yaml

/-! ## Anchors -/

/-- A character that may touch the name of an anchor. -/
def endsAnchor (c : Char) : Bool := !isSolid c || "?:,]\x7d%@`".toList.contains c

/-- The name of an anchor or alias behind its first character. -/
def anchorName? (c : Cursor) : Option (String × Cursor) :=
  let name := c.rest.takeWhile isNameChar
  let behind := c.drop name.length
  if name.isEmpty || !behind.rest.head?.all endsAnchor then none
  else some (String.ofList name, behind)

/-! ## Tags -/

/-- A character of a tag. Only a tag in angle brackets or of a directive has room for more. -/
def isTagChar (inFull : Bool) (c : Char) : Bool :=
  isNameChar c || ";/?:@&=+$.%!~*'()".toList.contains c ||
    (inFull && (c == ',' || c == '[' || c == ']'))

/-- How many octets a character has whose first octet is given. -/
def octetCount? (octet : Nat) : Option Nat :=
  if octet < 0x80 then some 1
  else if 0xC0 ≤ octet && octet < 0xE0 then some 2
  else if 0xE0 ≤ octet && octet < 0xF0 then some 3
  else if 0xF0 ≤ octet && octet < 0xF8 then some 4
  else none

def octet? : List Char → Option (Nat × List Char)
  | '%' :: a :: b :: rest => do
    let n ← Decimal.natOfHex? [a, b]
    return (n, rest)
  | _ => none

/-- A number of escaped octets that continue a character, and what follows. -/
def furtherOctets? : Nat → List Char → Option (List Char × List Char)
  | 0, cs => some ([], cs)
  | n + 1, cs => do
    let (octet, rest) ← octet? cs
    if octet < 0x80 || 0xC0 ≤ octet then none
    let (octets, rest) ← furtherOctets? n rest
    return (Char.ofNat octet :: octets, rest)

/-- The run of characters of a tag, and what follows. Each round of fuel reads a character. -/
def tagChars? (fuel : Nat) (inFull : Bool) (cs : List Char) : Option (List Char × List Char) :=
  match fuel, cs with
  | 0, _ => none
  | _, [] => some ([], [])
  | fuel + 1, c :: rest =>
    if c == '%' then do
      let (first, rest) ← octet? cs
      let count ← octetCount? first
      let (octets, rest) ← furtherOctets? (count - 1) rest
      let (tag, rest) ← tagChars? fuel inFull rest
      return (Char.ofNat first :: octets ++ tag, rest)
    else if isTagChar inFull c then
      (tagChars? fuel inFull rest).map fun (tag, rest) => (c :: tag, rest)
    else some ([], cs)

/-- The text of a tag at a cursor, which may be empty. -/
def tagText? (inFull : Bool) (c : Cursor) : Option (List Char × Cursor) := do
  let (tag, rest) ← tagChars? (c.rest.length + 1) inFull c.rest
  return (tag, c.moveTo rest)

/-- The handle at a cursor: an exclamation mark, a name, and the closing exclamation mark if there
is one. -/
def tagHandle? (c : Cursor) : Option (List Char × Bool × Cursor) :=
  match c.rest with
  | '!' :: rest =>
    let name := rest.takeWhile isNameChar
    let behind := c.drop (name.length + 1)
    if behind.sees '!' then some ('!' :: name ++ ['!'], true, behind.drop 1)
    else some ('!' :: name, false, behind)
  | _ => none

/-- The tag at a cursor, up to its last character. -/
def tagName? (c : Cursor) : Option (TagName × Cursor) :=
  if (c.drop 1).sees '<' then do
    let (text, c) ← tagText? true (c.drop 2)
    if text.isEmpty || !c.sees '>' then none
    return (⟨"", String.ofList text⟩, c.drop 1)
  else do
    let (handle, isClosed, c) ← tagHandle? c
    let (text, c) ← tagText? false c
    if isClosed then
      if text.isEmpty then none else some (⟨String.ofList handle, String.ofList text⟩, c)
    else
      let suffix := handle.drop 1 ++ text
      if suffix.isEmpty then some (⟨"", "!"⟩, c) else some (⟨"!", String.ofList suffix⟩, c)

/-- The tag at a cursor. Blanks or a line end follow, or a comma between brackets. -/
def tag? (inFlow : Bool) (c : Cursor) : Option (TagName × Cursor) := do
  let (name, c) ← tagName? c
  if (inFlow && c.sees ',') || c.wordEndsAt 0 then some (name, c) else none

/-! ## Directives -/

/-- The number at a cursor, of at most nine digits. -/
def versionNumber? (c : Cursor) : Option (Nat × Cursor) :=
  let (digits, _) := Decimal.digits c.rest
  if digits.isEmpty || 9 < digits.length then none
  else some (Decimal.natOfDigits digits, c.drop digits.length)

def version? (c : Cursor) : Option (Token × Cursor) := do
  let (major, c) ← versionNumber? (c.dropWhile isBlank)
  if !c.sees '.' then none
  let (minor, c) ← versionNumber? (c.drop 1)
  return (.version major minor, c)

def shortForm? (c : Cursor) : Option (Token × Cursor) := do
  let (handle, isClosed, c) ← tagHandle? (c.dropWhile isBlank)
  if (!isClosed && handle != ['!']) || !c.seesOne isBlank then none
  let (stem, c) ← tagText? true (c.dropWhile isBlank)
  if stem.isEmpty || !c.wordEndsAt 0 then none
  return (.tagHandle (String.ofList handle) (String.ofList stem), c)

/-- The directive behind its percent sign, through the end of its line. -/
def directive? (c : Cursor) : Option (Token × Cursor) := do
  let name := c.rest.takeWhile isNameChar
  let behind := c.drop name.length
  if !behind.wordEndsAt 0 then none
  let (token, c) ← if name == "YAML".toList then version? behind
    else if name == "TAG".toList then shortForm? behind else none
  return (token, ← c.endOfLine?)

end LayerGuard.Yaml
