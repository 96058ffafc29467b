/-! # TOML tables

A table grows while its text is read: key by key, header by header. What may still be added to a
table depends on how it came about. A table named by a header of its own is closed to dotted keys;
one that only lies on the way to another may later get a header; one made by dotted keys may not.
The elements of an array of tables are open in its last element only.
-/

namespace LayerGuard.Toml

/-- A value as far as a configuration can tell values apart. -/
inductive Value where
  | text (s : String)
  | date
  /-- A number or a truth value. -/
  | other
  | array (items : List Value)
  | table (entries : List (String × Value))
  deriving Repr, Inhabited

/-- How a table came about. -/
inductive Origin where
  /-- By a header of its own. -/
  | header
  /-- On the way of a header to another table. -/
  | way
  /-- By a dotted key. -/
  | dots
  deriving DecidableEq, Repr

/-- What stands under a key of a table that is still growing. -/
inductive Item where
  | value (v : Value)
  | table (origin : Origin) (entries : List (String × Item))
  | tables (elements : List (List (String × Item)))
  deriving Repr, Inhabited

/-- The entries of a growing table. -/
abbrev Entries := List (String × Item)

/-- Entries with another item under a key that is there. -/
def Entries.replace (entries : Entries) (key : String) (item : Item) : Entries :=
  entries.map fun (k, old) => (k, if k == key then item else old)

/-- Entries with a new key. There is no result if the key is taken. -/
def Entries.add? (key : String) (item : Item) (entries : Entries) : Option Entries :=
  if (entries.lookup key).isSome then none else some (entries ++ [(key, item)])

/-- Entries after an edit at the end of a path. The tables on the way are made with the given
origin where they are missing, and dotted keys do not pass through tables with a header. The edit
is told the origin of the table it is applied to. -/
def Entries.editAt? (via : Origin) (edit : Origin → Entries → Option Entries) :
    List String → Origin → Entries → Option Entries
  | [], origin, entries => edit origin entries
  | key :: path, _, entries =>
    match entries.lookup key with
    | none => do
      let inner ← editAt? via edit path via []
      return entries ++ [(key, .table via inner)]
    | some (.value _) => none
    | some (.table origin inner) =>
      if via == .dots && origin == .header then none
      else do
        let inner ← editAt? via edit path origin inner
        return entries.replace key (.table origin inner)
    | some (.tables elements) => do
      let last ← elements.getLast?
      let last ← editAt? via edit path .header last
      return entries.replace key (.tables (elements.dropLast ++ [last]))

/-- Entries with a value under a dotted key. The last table on the way has to be made by dotted
keys too. -/
def Entries.addDotted? (path : List String) (key : String) (item : Item) (entries : Entries) :
    Option Entries :=
  entries.editAt? .dots (fun origin inner =>
    if origin == .dots || path.isEmpty then inner.add? key item else none) path .header

/-- Entries with a table under a header of its own. A table that has only been on the way of others
moves to the end. -/
def Entries.openTable? (path : List String) (key : String) (entries : Entries) : Option Entries :=
  entries.editAt? .way (fun _ inner =>
    match inner.lookup key with
    | none => some (inner ++ [(key, .table .header [])])
    | some (.table .way old) => some (inner.filter (·.1 != key) ++ [(key, .table .header old)])
    | some _ => none) path .header

/-- Entries with a further element of an array of tables. -/
def Entries.openElement? (path : List String) (key : String) (entries : Entries) : Option Entries :=
  entries.editAt? .way (fun _ inner =>
    match inner.lookup key with
    | none => some (inner ++ [(key, .tables [[]])])
    | some (.tables elements) => some (inner.replace key (.tables (elements ++ [[]])))
    | some _ => none) path .header

mutual

/-- The value of a table that has stopped growing. -/
def Item.toValue : Item → Value
  | .value v => v
  | .table _ entries => .table (Item.toEntries entries)
  | .tables elements => .array (Item.toElements elements)

def Item.toEntries : List (String × Item) → List (String × Value)
  | [] => []
  | (key, item) :: entries => (key, item.toValue) :: Item.toEntries entries

def Item.toElements : List (List (String × Item)) → List Value
  | [] => []
  | entries :: elements => .table (Item.toEntries entries) :: Item.toElements elements

end

end LayerGuard.Toml
