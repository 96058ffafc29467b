import LayerGuard.Path

/-! # Trees of files

A tree is a finite set of files with their bytes and of folders, each at a location, which is the
list of names from the root. Relative paths start at the working directory. A path is followed one
segment at a time and every segment must be followed from a folder, so a slash behind the name of a
file leads nowhere. Links do not exist here, nor do files that cannot be read or whose names are no
UTF-8. Everything stands in a folder and under a name, and no file stands where another file or a
folder is: that is part of the type, and an operation that would break it leaves the tree as it is.
-/

namespace LayerGuard

/-- What a file or folder can be called. -/
def IsName (s : String) : Prop := s ≠ "" ∧ s ≠ "." ∧ s ≠ ".." ∧ '/' ∉ s.toList

instance (s : String) : Decidable (IsName s) := by unfold IsName; infer_instance

/-- The names that lead from the root to a file or folder. -/
abbrev Location := List String

/-- Files and folders, and the folder where relative paths start. The root is a folder, and is not
listed. -/
structure FileTree where
  workingDirectory : Location
  files : List (Location × List UInt8)
  folders : List Location
  /-- No two files stand at one location. -/
  distinct : (files.map Prod.fst).Nodup
  /-- What stands somewhere has a name, as have the folders on the way. -/
  named : ∀ l ∈ files.map Prod.fst ++ folders, l ≠ [] ∧ ∀ name ∈ l, IsName name
  /-- What stands somewhere stands in a folder. -/
  rooted : ∀ l ∈ files.map Prod.fst ++ folders, l.dropLast = [] ∨ l.dropLast ∈ folders
  /-- No file stands where a folder is. -/
  apart : ∀ l ∈ folders, l ∉ files.map Prod.fst
  deriving Repr

namespace FileTree

def bare (workingDirectory : Location) : FileTree where
  workingDirectory := workingDirectory
  files := []
  folders := []
  distinct := List.nodup_nil
  named := by simp
  rooted := by simp
  apart := by simp

/-- Whether a folder stands at a location. The root is one. -/
def isFolderAt (t : FileTree) (l : Location) : Bool := l.isEmpty || t.folders.contains l

def fileAt? (t : FileTree) (l : Location) : Option (List UInt8) := t.files.lookup l

/-! ## Growing and shrinking -/

/-- Whether a location is made of names and lies in a folder. -/
def HasRoom (t : FileTree) (l : Location) : Prop :=
  (l ≠ [] ∧ ∀ name ∈ l, IsName name) ∧ (l.dropLast = [] ∨ l.dropLast ∈ t.folders)

instance (t : FileTree) (l : Location) : Decidable (t.HasRoom l) := by
  unfold HasRoom; infer_instance

/-- The tree with a file, in the place of whatever file stood there. Where there is no room for it
the tree stays as it is. -/
def putFile (t : FileTree) (l : Location) (bytes : List UInt8) : FileTree :=
  if room : t.HasRoom l ∧ l ∉ t.folders then
    { t with
      files := t.files.filter (·.1 ≠ l) ++ [(l, bytes)]
      distinct := by
        have kept : ((t.files.filter (·.1 ≠ l)).map Prod.fst).Nodup :=
          t.distinct.sublist (List.filter_sublist.map Prod.fst)
        rw [List.map_append, List.nodup_append]
        refine ⟨kept, by simp, ?_⟩
        grind
      named := by have := t.named; have := room.1.1; grind
      rooted := by have := t.rooted; have := room.1.2; grind
      apart := by have := t.apart; have := room.2; grind }
  else t

/-- The tree with a folder. Where there is no room for it the tree stays as it is. -/
def putFolder (t : FileTree) (l : Location) : FileTree :=
  if room : t.HasRoom l ∧ l ∉ t.files.map Prod.fst ∧ l ∉ t.folders then
    { t with
      folders := t.folders ++ [l]
      named := by have := t.named; have := room.1.1; grind
      rooted := by have := t.rooted; have := room.1.2; grind
      apart := by have := t.apart; have := room.2.1; grind }
  else t

/-- The tree without what stands at a location and below it. -/
def removeAt (t : FileTree) (l : Location) : FileTree where
  workingDirectory := t.workingDirectory
  files := t.files.filter (¬ l <+: ·.1)
  folders := t.folders.filter (¬ l <+: ·)
  distinct := t.distinct.sublist (List.filter_sublist.map Prod.fst)
  named := by have := t.named; grind
  rooted := by
    have := t.rooted
    have above (m : Location) (below : l <+: m.dropLast) : l <+: m :=
      below.trans (List.dropLast_prefix m)
    grind
  apart := by have := t.apart; grind

/-- The folders on the way to a location, the location itself included and the root left out. -/
def wayTo (l : Location) : List Location := (List.range l.length).map fun n => l.take (n + 1)

/-- The tree with a folder, and the folders on the way to it. -/
def addFolderAt (t : FileTree) (l : Location) : FileTree := (wayTo l).foldl putFolder t

/-- The tree with a file, and the folders on the way to it. -/
def addFileAt (t : FileTree) (l : Location) (bytes : List UInt8) : FileTree :=
  (t.addFolderAt l.dropLast).putFile l bytes

/-- The tree that holds nothing but the way to its working directory. -/
def empty (workingDirectory : Location) : FileTree :=
  (bare workingDirectory).addFolderAt workingDirectory

/-! ## Following paths -/

/-- The location that a segment leads to from a folder. -/
def follow (t : FileTree) (l : Location) (segment : String) : Option Location :=
  if !t.isFolderAt l then none
  else if segment == "" || segment == "." then some l
  else if segment == ".." then some l.dropLast
  else some (l ++ [segment])

/-- The location that a path names, whether or not something stands there. The empty path names
none. -/
def locate? (t : FileTree) (p : Path) : Option Location :=
  if p.text == "" then none
  else p.segments.foldlM t.follow (if p.isAbsolute then [] else t.workingDirectory)

def isFolder (t : FileTree) (p : Path) : Bool := (t.locate? p).any t.isFolderAt

def read? (t : FileTree) (p : Path) : Option (List UInt8) := (t.locate? p).bind t.fileAt?

def isFile (t : FileTree) (p : Path) : Bool := (t.read? p).isSome

def contains (t : FileTree) (p : Path) : Bool := t.isFile p || t.isFolder p

/-- The files below a folder, at their locations told from that folder. -/
def filesBelow (t : FileTree) (l : Location) : List (Location × List UInt8) :=
  t.files.filterMap fun (file, bytes) =>
    if l <+: file then some (file.drop l.length, bytes) else none

/-! ## Changes by paths -/

/-- The location that a path names, found without asking what stands on the way. -/
def place (t : FileTree) (p : Path) : Location :=
  p.components.foldl step (if p.isAbsolute then [] else t.workingDirectory)
where
  /-- The location behind a component. -/
  step (l : Location) : Component → Location
    | .name s => l ++ [s]
    | .up => l.dropLast
    | _ => l

def addFolder (t : FileTree) (p : Path) : FileTree := t.addFolderAt (t.place p)

def addFile (t : FileTree) (p : Path) (bytes : List UInt8) : FileTree :=
  t.addFileAt (t.place p) bytes

/-- The tree after writing a file, which fails where a folder stands or none leads there. -/
def write? (t : FileTree) (p : Path) (bytes : List UInt8) : Option FileTree := do
  let l ← t.locate? p
  if t.isFolderAt l || !t.isFolderAt l.dropLast then none else some (t.putFile l bytes)

def remove (t : FileTree) (p : Path) : FileTree :=
  match t.locate? p with
  | none => t
  | some l => t.removeAt l

end FileTree
end LayerGuard
