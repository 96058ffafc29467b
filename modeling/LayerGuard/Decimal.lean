/-! # Decimal numbers as written

A number keeps the form in which it is written, because an integer with a fraction or an exponent
is not accepted where a count is wanted. The value matters only for the question whether it is too
large for double precision.
-/

namespace LayerGuard

/-- A decimal number: sign, whole part, the digits after the point (none without a point), and the
exponent if one is written. -/
structure Decimal where
  negative : Bool
  whole : Nat
  fraction : List (Fin 10)
  exponent : Option Int
  deriving DecidableEq, Repr

namespace Decimal

def ofNat (n : Nat) : Decimal := ⟨false, n, [], none⟩

/-- The natural number that is written without sign, point and exponent. -/
def toNat? (n : Decimal) : Option Nat :=
  if n.negative || !n.fraction.isEmpty || n.exponent.isSome then none else some n.whole

@[simp] theorem toNat?_ofNat (n : Nat) : (ofNat n).toNat? = some n := rfl

/-- The digits of the whole part and the fraction read as one number. -/
def significand (n : Decimal) : Nat :=
  n.fraction.foldl (fun value digit => value * 10 + digit.val) n.whole

/-- The power of ten that scales the significand. -/
def scale (n : Decimal) : Int := n.exponent.getD 0 - n.fraction.length

/-- The least number that double precision rounds to infinity. -/
def doubleLimit : Nat := Nat.pow 2 1024 - Nat.pow 2 970

/-- Whether the number is too large for double precision. -/
def isOutOfRange (n : Decimal) : Bool :=
  let digits := (Nat.toDigits 10 n.significand).length
  if n.significand == 0 then false
  else if n.scale + digits > 310 then true
  else if n.scale + digits < 300 then false
  else if n.scale < 0 then doubleLimit * Nat.pow 10 n.scale.natAbs ≤ n.significand
  else doubleLimit ≤ n.significand * Nat.pow 10 n.scale.natAbs

/-! ## Digits -/

def digit? (c : Char) : Option (Fin 10) :=
  if h : 48 ≤ c.toNat ∧ c.toNat < 58 then some ⟨c.toNat - 48, by omega⟩ else none

def hexValue? (c : Char) : Option Nat :=
  if '0' ≤ c && c ≤ '9' then some (c.toNat - 48)
  else if 'a' ≤ c && c ≤ 'f' then some (c.toNat - 87)
  else if 'A' ≤ c && c ≤ 'F' then some (c.toNat - 55)
  else none

/-- The longest run of digits at the front of a text, and what follows. -/
def digits : List Char → List (Fin 10) × List Char
  | [] => ([], [])
  | c :: rest =>
    match digit? c with
    | some d => let (ds, rest) := digits rest; (d :: ds, rest)
    | none => ([], c :: rest)

/-- The number that a run of digits names. -/
def natOfDigits (ds : List (Fin 10)) : Nat := ds.foldl (fun value d => value * 10 + d.val) 0

/-- Whether a sign that may be missing is a minus, and what follows it. -/
def sign : List Char → Bool × List Char
  | '-' :: cs => (true, cs)
  | '+' :: cs => (false, cs)
  | cs => (false, cs)

/-- The number that hexadecimal digits name, if all of them are. -/
def natOfHex? (cs : List Char) : Option Nat :=
  cs.foldlM (fun value c => (hexValue? c).map (value * 16 + ·)) 0

end Decimal
end LayerGuard
