import LayerGuard.FileTree
import LayerGuard.IgnoreList

/-! # Finding sources

The sources of a directory are the files below it whose extension is wanted, unless a name on the
way starts with a dot or the ignore list excludes them. They come in the order of paths. A root
that is itself a file is its only source.
-/

namespace LayerGuard.Discovery

def isHidden (name : String) : Bool := Text.beginsWith name "."

/-- The extension of a path with its dot; the empty text if there is none. -/
def dottedExtension (p : Path) : String :=
  match p.extension? with
  | some extension => "." ++ extension
  | none => ""

/-- Whether a file at a location told from the root is a source. -/
def isSource (ignored : IgnoreList) (extensions : List String) (relative : Location) : Bool :=
  let path : Path := ⟨Text.join "/" relative⟩
  !relative.any isHidden && extensions.contains (dottedExtension path) && !ignored.excludes path

def le (a b : Path × List UInt8) : Bool := Path.le a.1 b.1

/-- The sources at or below a root with their bytes. -/
def found (tree : FileTree) (root : Path) (ignored : IgnoreList) (extensions : List String) :
    List (Path × List UInt8) :=
  match tree.locate? root with
  | none => []
  | some l =>
    if tree.isFolderAt l then
      (((tree.filesBelow l).filter (isSource ignored extensions ·.1)).map fun (relative, bytes) =>
        (root.join ⟨Text.join "/" relative⟩, bytes)).mergeSort le
    else match tree.fileAt? l with
      | some bytes => if extensions.contains (dottedExtension root) then [(root, bytes)] else []
      | none => []

def sources (tree : FileTree) (root : Path) (ignored : IgnoreList) (extensions : List String) :
    List Path :=
  (found tree root ignored extensions).map Prod.fst

end LayerGuard.Discovery
