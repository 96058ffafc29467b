import LayerGuard.Config.Setting
import LayerGuard.Yaml.Kind
import LayerGuard.Yaml.Node
import LayerGuard.Yaml.Scan

/-! # Configurations in YAML

Every scalar can be read as a text. One without quotes may also stand for the absence of a value,
and a tag may contradict what is written. An alias stands for its node as far as settings reach
into each other; where it is passed over, its node is not looked at again.
-/

namespace LayerGuard.Yaml

/-- The setting that a scalar stands for. -/
def scalarSetting (text : String) (isPlain : Bool) (tag? : Option String) : Setting :=
  match tag? with
  | none =>
    if isPlain && (text == "" || isNullWord text) then .word text .absent else .text text
  | some tag =>
    if isPlain && tag == standardTag "null" then
      .word text (if isNullWord text then .absent else .contradictory)
    else if isPlain && text == "" then .word "" .present
    else if fits tag text then .text text
    else .mislabelled text

/-- The text of a key, where `expand` tells what an alias stands for. -/
def Node.keyText? (expand : Nat → Setting) : Node → Option String
  | .scalar text _ _ => some text
  | .anchored _ node => node.keyText? expand
  | .alias number => (expand number).toText.toOption
  | _ => none

mutual

/-- The setting that a node stands for, where `broken` stands for what does not follow YAML and
`expand` tells what an alias stands for. -/
def Node.toSetting (broken : Setting) (expand : Nat → Setting) : Node → Setting
  | .broken => broken
  | .scalar text isPlain tag? => scalarSetting text isPlain tag?
  | .sequence items => .list (Node.toSettings broken expand items)
  | .mapping entries => .table (Node.toEntries broken expand entries)
  | .anchored _ node => node.toSetting broken expand
  | .alias number => expand number

def Node.toSettings (broken : Setting) (expand : Nat → Setting) : List Node → List Setting
  | [] => []
  | item :: items => item.toSetting broken expand :: Node.toSettings broken expand items

def Node.toEntries (broken : Setting) (expand : Nat → Setting) :
    List (Node × Node) → List (Option String × Setting)
  | [] => []
  | (key, value) :: entries =>
    (key.keyText? expand, value.toSetting broken expand) :: Node.toEntries broken expand entries

end

mutual

/-- The anchored nodes of a tree in the order in which they start. -/
def Node.anchors : Node → List (Nat × Node)
  | .sequence items => Node.anchorsOfItems items
  | .mapping entries => Node.anchorsOfEntries entries
  | .anchored number node => (number, node) :: node.anchors
  | _ => []

def Node.anchorsOfItems : List Node → List (Nat × Node)
  | [] => []
  | item :: items => item.anchors ++ Node.anchorsOfItems items

def Node.anchorsOfEntries : List (Node × Node) → List (Nat × Node)
  | [] => []
  | (key, value) :: entries => key.anchors ++ value.anchors ++ Node.anchorsOfEntries entries

end

/-- What the aliases of a number stand for, with aliases in it expanded to a depth. -/
def expansion (anchors : List (Nat × Node)) : Nat → Nat → Setting
  | 0, _ => .meaningless
  | depth + 1, number =>
    match anchors.lookup number with
    | some node => node.toSetting .meaningless (expansion anchors depth)
    | none => .meaningless

/-- How far settings reach into each other: a value, its entries, their items. -/
def settingDepth : Nat := 3

def settings (text : String) : Document :=
  let (root, endsWell) := document (tokens text)
  ⟨root.toSetting .malformed (expansion root.anchors.reverse settingDepth), endsWell⟩

end LayerGuard.Yaml
