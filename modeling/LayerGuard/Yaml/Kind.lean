import LayerGuard.Decimal

/-! # Kinds of YAML scalars

A tag can declare that a scalar is a truth value, an integer, a floating-point number or nothing.
Here is which words are of these kinds.
-/

namespace LayerGuard.Yaml

/-- The words that stand for absence. -/
def isNullWord (s : String) : Bool := ["~", "null", "Null", "NULL"].contains s

/-- The words that stand for a truth value. -/
def isTruthWord (s : String) : Bool :=
  ["true", "True", "TRUE", "false", "False", "FALSE"].contains s

/-- The number that digits name in a base, if there are digits and all of them belong to it. -/
def natInBase? (base : Nat) (cs : List Char) : Option Nat :=
  if cs.isEmpty then none
  else cs.foldlM (fun value c =>
    (Decimal.hexValue? c).bind fun d => if d < base then some (value * base + d) else none) 0

/-- The number that is written without a sign, in hexadecimal, octal, binary or decimal digits. A
decimal number has no zero in front. -/
def magnitude? : List Char → Option Nat
  | '0' :: 'x' :: digits => natInBase? 16 digits
  | '0' :: 'o' :: digits => natInBase? 8 digits
  | '0' :: 'b' :: digits => natInBase? 2 digits
  | '0' :: _ :: _ => none
  | digits => natInBase? 10 digits

def isInteger (s : String) : Bool :=
  match s.toList with
  | '-' :: cs => (magnitude? cs).any (· ≤ Nat.pow 2 127)
  | '+' :: cs => (magnitude? cs).any (· < Nat.pow 2 128)
  | cs => (magnitude? cs).any (· < Nat.pow 2 128)

/-- The exponent that is a whole text. -/
def exponent? (cs : List Char) : Option Int :=
  let (negative, cs) := Decimal.sign cs
  let (digits, rest) := Decimal.digits cs
  if digits.isEmpty || !rest.isEmpty then none
  else
    let n : Int := Decimal.natOfDigits digits
    some (if negative then -n else n)

/-- The decimal number that is a whole text without a sign. -/
def decimal? (cs : List Char) : Option Decimal := do
  let (whole, rest) := Decimal.digits cs
  let (fraction, rest) := match rest with
    | '.' :: rest => Decimal.digits rest
    | rest => ([], rest)
  if whole.isEmpty && fraction.isEmpty then none
  let exponent ← match rest with
    | [] => some none
    | c :: rest => if c == 'e' || c == 'E' then (exponent? rest).map some else none
  return ⟨false, Decimal.natOfDigits whole, fraction, exponent⟩

def isFloat (s : String) : Bool :=
  let (_, cs) := Decimal.sign s.toList
  [".inf", ".Inf", ".INF"].contains (String.ofList cs) || [".nan", ".NaN", ".NAN"].contains s ||
    (decimal? cs).any (!·.isOutOfRange)

/-- The tag of a standard kind. -/
def standardTag (kind : String) : String := "tag:yaml.org,2002:" ++ kind

/-- Whether a word is of the kind that a tag declares; other tags declare none. -/
def fits (tag word : String) : Bool :=
  if tag == standardTag "bool" then isTruthWord word
  else if tag == standardTag "int" then isInteger word
  else if tag == standardTag "float" then isFloat word
  else if tag == standardTag "null" then isNullWord word
  else true

end LayerGuard.Yaml
