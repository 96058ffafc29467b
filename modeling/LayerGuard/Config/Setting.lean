/-! # Settings

What a configuration text says at one place, whatever notation it is written in. Texts are taken
apart up to the first fault of notation, because an unsuitable value in front of the fault is
reported before it; `malformed` stands where the text can no longer be read.
-/

namespace LayerGuard

/-- What a word without quotes says where a value may be absent. -/
inductive Presence where
  /-- It stands for the absence of a value. -/
  | absent
  /-- It stands for itself. -/
  | present
  /-- It is declared to stand for absence, and does not. -/
  | contradictory
  deriving DecidableEq, Repr

/-- What stands at one place of a configuration text. -/
inductive Setting where
  /-- The text does not follow its notation here. -/
  | malformed
  /-- Well-formed, but without a meaning: it may only be passed over. -/
  | meaningless
  /-- The explicit absence of a value. -/
  | null
  | text (value : String)
  /-- A text that is not of the kind it is declared to be. -/
  | mislabelled (value : String)
  /-- A text without quotes that is empty or has to do with absence. The empty one also stands for
  a list or a table without entries. -/
  | word (value : String) (presence : Presence)
  /-- A number, a truth value or the like. -/
  | other
  | list (items : List Setting)
  /-- Entries in order; a key is missing if it is not a text. -/
  | table (entries : List (Option String × Setting))
  deriving Repr, Inhabited

namespace Setting

mutual

/-- Whether a setting follows its notation throughout. -/
def isWellFormed : Setting → Bool
  | .malformed => false
  | .list items => allWellFormed items
  | .table entries => entriesWellFormed entries
  | _ => true

def allWellFormed : List Setting → Bool
  | [] => true
  | item :: items => item.isWellFormed && allWellFormed items

def entriesWellFormed : List (Option String × Setting) → Bool
  | [] => true
  | (_, value) :: entries => value.isWellFormed && entriesWellFormed entries

end

/-- Why a setting is not accepted. -/
inductive Refusal where
  /-- The layers are not given as a mapping. -/
  | mappingExpected
  | unsuitable
  deriving DecidableEq, Repr

def toText : Setting → Except Refusal String
  | .text s => .ok s
  | .mislabelled s => .ok s
  | .word s _ => .ok s
  | _ => .error .unsuitable

/-- A setting read as a text that may be absent. -/
def toText? : Setting → Except Refusal (Option String)
  | .null => .ok none
  | .word _ .absent => .ok none
  | .word _ .contradictory => .error .unsuitable
  | setting => setting.toText.map some

def toTexts : Setting → Except Refusal (List String)
  | .word s _ => if s.isEmpty then .ok [] else .error .unsuitable
  | .list items => items.mapM toText
  | _ => .error .unsuitable

def keyText : Option String → Except Refusal String
  | some key => .ok key
  | none => .error .unsuitable

/-- An entry of the definition of layers. -/
def toLayer : Option String × Setting → Except Refusal (String × List String)
  | (key?, value) => do
    let name ← keyText key?
    return (name, ← value.toTexts)

/-- A setting read as the definition of layers, which may be absent. -/
def toLayers? : Setting → Except Refusal (Option (List (String × List String)))
  | .null => .ok none
  | .word _ .absent => .ok none
  | .word s .present => if s.isEmpty then .ok (some []) else .error .mappingExpected
  | .table entries => (entries.mapM toLayer).map some
  | .text _ => .error .mappingExpected
  | .other => .error .mappingExpected
  | .list _ => .error .mappingExpected
  | _ => .error .unsuitable

end Setting

/-- A configuration text taken apart: its settings, and whether it ends well behind them. -/
structure Document where
  root : Setting
  endsWell : Bool
  deriving Repr

end LayerGuard
