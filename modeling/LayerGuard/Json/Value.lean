import LayerGuard.Decimal

/-! # JSON values

A number keeps the form in which it is written. The fields of an object keep their order and may
repeat.
-/

namespace LayerGuard

inductive Json where
  | null
  | bool (value : Bool)
  | number (value : Decimal)
  | string (text : String)
  | array (items : List Json)
  | object (fields : List (String × Json))
  deriving Repr, Inhabited

namespace Json

def nat (n : Nat) : Json := .number (.ofNat n)

def strings (texts : List String) : Json := .array (texts.map .string)

/-- A text or null. -/
def string? : Option String → Json
  | some text => .string text
  | none => .null

/-- The value of the last field of an object that has the given key. -/
def field? (key : String) : Json → Option Json
  | .object fields => (fields.reverse.find? (·.1 == key)).map (·.2)
  | _ => none

end Json
end LayerGuard
