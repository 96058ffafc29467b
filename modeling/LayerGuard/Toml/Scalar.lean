import LayerGuard.Decimal

/-! # TOML scalars

Strings, numbers, truth values and dates at the front of a text, each with what follows it. A
number or a date is only checked for being one; its value does not matter here.
-/

namespace LayerGuard.Toml

/-- The blanks within a line. -/
def isBlank (c : Char) : Bool := c == ' ' || c == '\t'

def skipBlanks (cs : List Char) : List Char := cs.dropWhile isBlank

def isCommentChar (c : Char) : Bool :=
  c == '\t' || (0x20 ≤ c.toNat && c.toNat ≤ 0x7E) || 0x80 ≤ c.toNat

/-- What follows a line end, which may have a carriage return. -/
def newline? : List Char → Option (List Char)
  | '\n' :: rest => some rest
  | '\r' :: '\n' :: rest => some rest
  | _ => none

def skipComment : List Char → List Char
  | '#' :: rest => rest.dropWhile isCommentChar
  | cs => cs

/-- What follows the end of a line: blanks, a comment, and a line end or the end of the text. -/
def endOfLine? (cs : List Char) : Option (List Char) :=
  match skipComment (skipBlanks cs) with
  | [] => some []
  | rest => newline? rest

/-! ## Strings -/

/-- The character that a backslash and hexadecimal digits name. -/
def charOfHex? (cs : List Char) : Option Char := do
  let n ← Decimal.natOfHex? cs
  if n.isValidChar then some (Char.ofNat n) else none

/-- The character that an escape names, and what follows; the backslash has been read. -/
def escape? : List Char → Option (Char × List Char)
  | 'u' :: a :: b :: c :: d :: rest => (charOfHex? [a, b, c, d]).map (·, rest)
  | 'U' :: a :: b :: c :: d :: e :: f :: g :: h :: rest =>
    (charOfHex? [a, b, c, d, e, f, g, h]).map (·, rest)
  | 'b' :: rest => some ('\x08', rest)
  | 't' :: rest => some ('\t', rest)
  | 'n' :: rest => some ('\n', rest)
  | 'f' :: rest => some ('\x0c', rest)
  | 'r' :: rest => some ('\r', rest)
  | '"' :: rest => some ('"', rest)
  | '\\' :: rest => some ('\\', rest)
  | _ => none

/-- A string on one line behind its opening quote. Each round of fuel reads one character. -/
def lineString? (quote : Char) (fuel : Nat) (read : List Char) (cs : List Char) :
    Option (String × List Char) :=
  match fuel, cs with
  | 0, _ => none
  | _, [] => none
  | fuel + 1, c :: rest =>
    if c == quote then some (String.ofList read.reverse, rest)
    else if c == '\\' && quote == '"' then
      match escape? rest with
      | some (d, rest) => lineString? quote fuel (d :: read) rest
      | none => none
    else if isCommentChar c then lineString? quote fuel (c :: read) rest
    else none

/-- What follows a backslash at the end of a line, when only blanks stand between them: the blanks
and line ends up to the next character. -/
def continuation? (cs : List Char) : Option (List Char) :=
  (newline? (skipBlanks cs)).map fun rest =>
    rest.dropWhile fun c => isBlank c || c == '\n' || c == '\r'

/-- A string over several lines behind its opening quotes. Up to two quotes may stand in front of
the closing ones. Each round of fuel reads one character or a run of quotes. -/
def blockString? (quote : Char) (fuel : Nat) (read : List Char) (cs : List Char) :
    Option (String × List Char) :=
  match fuel, cs with
  | 0, _ => none
  | _, [] => none
  | fuel + 1, c :: rest =>
    if c == quote then
      let run := (cs.takeWhile (· == quote)).length
      if run < 3 then
        blockString? quote fuel (List.replicate run quote ++ read) (cs.drop run)
      else
        let extra := min 2 (run - 3)
        some (String.ofList (List.replicate extra quote ++ read).reverse, cs.drop (3 + extra))
    else if c == '\\' && quote == '"' then
      match continuation? rest with
      | some rest => blockString? quote fuel read rest
      | none =>
        match escape? rest with
        | some (d, rest) => blockString? quote fuel (d :: read) rest
        | none => none
    else match newline? cs with
      | some rest => blockString? quote fuel ('\n' :: read) rest
      | none => if isCommentChar c then blockString? quote fuel (c :: read) rest else none

def string? (cs : List Char) : Option (String × List Char) :=
  match cs with
  | a :: b :: c :: rest =>
    if a == b && b == c then
      blockString? a cs.length [] ((newline? rest).getD rest)
    else lineString? a cs.length [] (b :: c :: rest)
  | a :: rest => lineString? a cs.length [] rest
  | [] => none

/-! ## Numbers -/

/-- Digits of a class with single underscores between them, and what follows. -/
def digitRun? (isDigit : Char → Bool) : List Char → Option (List Char × List Char)
  | c :: rest =>
    if isDigit c then
      let (more, rest) := go rest
      some (c :: more, rest)
    else none
  | [] => none
where
  /-- The digits behind the first one. -/
  go : List Char → List Char × List Char
    | '_' :: c :: rest =>
      if isDigit c then let (more, rest) := go rest; (c :: more, rest) else ([], '_' :: c :: rest)
    | c :: rest =>
      if isDigit c then let (more, rest) := go rest; (c :: more, rest) else ([], c :: rest)
    | [] => ([], [])

/-- The decimal digits of a run as numbers. -/
def decimals (cs : List Char) : List (Fin 10) := cs.filterMap Decimal.digit?

/-- A decimal integer without leading zeros: its sign, its digits and what follows. -/
def decimalInteger? (cs : List Char) : Option (Bool × List (Fin 10) × List Char) :=
  let (negative, body) := Decimal.sign cs
  match body with
  | '0' :: rest => some (negative, [⟨0, by decide⟩], rest)
  | _ => (digitRun? Char.isDigit body).map fun (run, rest) => (negative, decimals run, rest)

/-- What follows the exponent of a float, and the exponent. -/
def exponent? : List Char → Option (Int × List Char)
  | c :: rest =>
    if c == 'e' || c == 'E' then
      let (negative, body) := Decimal.sign rest
      (digitRun? Char.isDigit body).map fun (run, rest) =>
        let magnitude : Int := Decimal.natOfDigits (decimals run)
        (if negative then -magnitude else magnitude, rest)
    else none
  | [] => none

/-- What follows a float. One that is larger than double precision holds is none. -/
def float? (cs : List Char) : Option (List Char) := do
  let (negative, whole, rest) ← decimalInteger? cs
  let (fraction, rest) ← match rest with
    | '.' :: body => (digitRun? Char.isDigit body).map fun (run, rest) => (decimals run, rest)
    | _ => some ([], rest)
  let (exponent, rest) ← match exponent? rest with
    | some (e, rest) => some (some e, rest)
    | none => if fraction.isEmpty then none else some (none, rest)
  let value : Decimal := ⟨negative, Decimal.natOfDigits whole, fraction, exponent⟩
  if !negative && value.isOutOfRange then none else some rest

/-- What follows a number in another base, if it fits into 63 bits. -/
def basedInteger? (base : Nat) (cs : List Char) : Option (List Char) := do
  let isDigit (c : Char) : Bool := (Decimal.hexValue? c).any (· < base)
  let (run, rest) ← digitRun? isDigit cs
  let value := run.foldl (fun value c => value * base + (Decimal.hexValue? c).getD 0) 0
  if value < Nat.pow 2 63 then some rest else none

/-- What follows an integer, if it fits into 64 bits with a sign. -/
def integer? : List Char → Option (List Char)
  | '0' :: 'x' :: rest => basedInteger? 16 rest
  | '0' :: 'o' :: rest => basedInteger? 8 rest
  | '0' :: 'b' :: rest => basedInteger? 2 rest
  | cs => do
    let (negative, digits, rest) ← decimalInteger? cs
    if Decimal.natOfDigits digits ≤ Nat.pow 2 63 - 1 + negative.toNat then some rest else none

/-- What follows a number that is infinite or none. -/
def specialFloat? (cs : List Char) : Option (List Char) :=
  match (Decimal.sign cs).2 with
  | 'i' :: 'n' :: 'f' :: rest => some rest
  | 'n' :: 'a' :: 'n' :: rest => some rest
  | _ => none

/-! ## Dates -/

/-- A number of exactly so many digits, and what follows. -/
def digitsExactly? (count : Nat) (cs : List Char) : Option (Nat × List Char) :=
  let run := cs.take count
  if run.length == count && run.all Char.isDigit then
    some (Decimal.natOfDigits (decimals run), cs.drop count)
  else none

/-- A number of two digits within bounds, and what follows. -/
def twoDigits? (low high : Nat) (cs : List Char) : Option (Nat × List Char) :=
  (digitsExactly? 2 cs).filter fun (n, _) => low ≤ n && n ≤ high

def expect? (c : Char) : List Char → Option (List Char)
  | d :: rest => if c == d then some rest else none
  | [] => none

def daysIn (year month : Nat) : Nat :=
  if month == 2 then
    if year % 4 == 0 && (year % 100 != 0 || year % 400 == 0) then 29 else 28
  else if month == 4 || month == 6 || month == 9 || month == 11 then 30
  else 31

def calendarDate? (cs : List Char) : Option (List Char) := do
  let (year, rest) ← digitsExactly? 4 cs
  let (month, rest) ← twoDigits? 1 12 (← expect? '-' rest)
  let (_, rest) ← twoDigits? 1 (daysIn year month) (← expect? '-' rest)
  return rest

def timeOfDay? (cs : List Char) : Option (List Char) := do
  let (_, rest) ← twoDigits? 0 23 cs
  let (_, rest) ← twoDigits? 0 59 (← expect? ':' rest)
  let (_, rest) ← twoDigits? 0 60 (← expect? ':' rest)
  match rest with
  | '.' :: body =>
    let behind := body.dropWhile Char.isDigit
    if behind.length < body.length then some behind else none
  | _ => some rest

/-- What follows the offset of a time from universal time, where one may be missing. -/
def offset? : List Char → Option (List Char)
  | c :: rest =>
    if c == 'Z' || c == 'z' then some rest
    else if c == '+' || c == '-' then do
      let (_, rest) ← twoDigits? 0 23 rest
      let (_, rest) ← twoDigits? 0 59 (← expect? ':' rest)
      return rest
    else some (c :: rest)
  | [] => some []

/-- What follows a date, a time, or a date with a time. -/
def date? (cs : List Char) : Option (List Char) :=
  match calendarDate? cs with
  | none => timeOfDay? cs
  | some [] => some []
  | some (c :: rest) =>
    if c == 'T' || c == 't' || c == ' ' then
      match timeOfDay? rest with
      | some rest => offset? rest
      | none => some (c :: rest)
    else some (c :: rest)

end LayerGuard.Toml
