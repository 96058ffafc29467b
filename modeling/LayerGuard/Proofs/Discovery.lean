import LayerGuard.Proofs.Path.Names
import LayerGuard.Proofs.Path.Order

/-! # What is found below a directory

The sources of a directory are exactly the files below it that are sought: no name on the way is
hidden, the extension is wanted and the ignore list does not exclude the way. They stand in the
order of their paths, each once, so the order in which a tree lists its files and folders does not
show.
-/

namespace LayerGuard

namespace FileTree

/-- The files below a folder are those of the tree whose location continues that of the folder. -/
theorem mem_filesBelow (t : FileTree) {l names : Location} {bytes : List UInt8} :
    (names, bytes) ∈ t.filesBelow l ↔ (l ++ names, bytes) ∈ t.files := by
  rw [filesBelow, List.mem_filterMap]
  constructor
  · rintro ⟨⟨file, content⟩, listed, below⟩
    obtain ⟨⟨rest, rfl⟩, same⟩ := Option.ite_none_right_eq_some.mp below
    simp only [List.drop_left, Option.some.injEq, Prod.mk.injEq] at same
    obtain ⟨rfl, rfl⟩ := same
    exact listed
  · intro listed
    refine ⟨_, listed, ?_⟩
    simp

/-- At least one name leads from a folder to a file below it. -/
theorem areNames_of_mem (t : FileTree) {l names : Location} {bytes : List UInt8}
    (folder : t.isFolderAt l = true) (listed : (l ++ names, bytes) ∈ t.files) :
    Path.AreNames names := by
  have stands : l ++ names ∈ t.files.map Prod.fst := List.mem_map_of_mem listed
  obtain ⟨inside, named⟩ := t.named _ (List.mem_append_left _ stands)
  refine ⟨?_, fun name member => named name (List.mem_append_right _ member)⟩
  rintro rfl
  rw [List.append_nil] at stands inside
  have known : l ∈ t.folders := by simpa [isFolderAt, inside] using folder
  exact t.apart l known stands

theorem pairwise_filesBelow (t : FileTree) (l : Location) :
    (t.filesBelow l).Pairwise fun a b => a.1 ≠ b.1 := by
  refine List.Pairwise.filterMap _ ?_ (List.pairwise_map.mp t.distinct)
  rintro ⟨file, content⟩ ⟨other, content'⟩ apart ⟨names, bytes⟩ below ⟨names', bytes'⟩ below'
  obtain ⟨⟨rest, rfl⟩, same⟩ := Option.ite_none_right_eq_some.mp below
  obtain ⟨⟨rest', rfl⟩, same'⟩ := Option.ite_none_right_eq_some.mp below'
  simp only [List.drop_left, Option.some.injEq, Prod.mk.injEq] at same same'
  rintro rfl
  exact apart (by rw [same.1, same'.1])

/-- Two trees that hold the same files and folders, listed in whatever order. -/
structure SameContents (t u : FileTree) : Prop where
  workingDirectory : t.workingDirectory = u.workingDirectory
  files : ∀ file, file ∈ t.files ↔ file ∈ u.files
  folders : ∀ l, l ∈ t.folders ↔ l ∈ u.folders

section SameContents

variable {t u : FileTree} (same : t.SameContents u)

include same

theorem SameContents.isFolderAt : t.isFolderAt = u.isFolderAt := by
  funext l
  rw [FileTree.isFolderAt, FileTree.isFolderAt, Bool.eq_iff_iff]
  simp only [Bool.or_eq_true, List.contains_iff_mem, same.folders]

theorem SameContents.locate? (p : Path) : t.locate? p = u.locate? p := by
  have follow : t.follow = u.follow := by
    funext l segment
    rw [FileTree.follow, FileTree.follow, same.isFolderAt]
  rw [FileTree.locate?, FileTree.locate?, follow, same.workingDirectory]

end SameContents

/-- The names that lead to a file from where a path leads. -/
def LeadsToFile (t : FileTree) (root : Path) (names : Location) : Prop :=
  ∃ l bytes, t.locate? root = some l ∧ (l ++ names, bytes) ∈ t.files

end FileTree

namespace Discovery

/-! ## Files that are sought -/

/-- The extension of a file name with the dot in front of it, or the empty text for a name that has
none. -/
inductive DottedExtension (name : String) : String → Prop where
  | dotted {extension : String} (has : Path.HasExtension name extension) :
    DottedExtension name ("." ++ extension)
  | none (lacks : ∀ extension, ¬ Path.HasExtension name extension) : DottedExtension name ""

/-- A way that no hidden name is on, that ends with a wanted extension and that the ignore list does
not exclude. -/
structure Sought (ignored : IgnoreList) (extensions : List String) (names : Location) : Prop where
  visible : ∀ name ∈ names, name.toList.head? ≠ some '.'
  wanted : ∃ front file extension, names = front ++ [file] ∧ DottedExtension file extension ∧
    extension ∈ extensions
  kept : ignored.excludes (.ofNames names) = false

theorem isHidden_eq_false_iff (name : String) :
    isHidden name = false ↔ name.toList.head? ≠ some '.' := by
  have dot : ".".toList = ['.'] := rfl
  rw [← Bool.not_eq_true, isHidden, Text.beginsWith_iff, dot, not_iff_not]
  cases name.toList with
  | nil => simp
  | cons c cs => simp only [List.cons_prefix_cons, List.nil_prefix, and_true, List.head?_cons,
      Option.some.injEq, eq_comm]

/-- A name has one extension with its dot, and it is the one found in a path that ends with it. -/
theorem dottedExtension_iff {front : Location} {file : String}
    (clean : Path.AreNames (front ++ [file])) (extension : String) :
    DottedExtension file extension ↔
      dottedExtension (.ofNames (front ++ [file])) = extension := by
  have cut := @Path.cutName_eq_some_iff file
  rw [dottedExtension, clean.extension?]
  cases found : (Path.cutName file).2 with
  | none =>
    have lacks : ∀ e, ¬ Path.HasExtension file e := fun e has => by
      have := cut.mpr has
      simp [found] at this
    constructor
    · rintro (⟨has⟩ | _)
      · exact absurd has (lacks _)
      · rfl
    · rintro rfl
      exact .none lacks
  | some e =>
    have has : Path.HasExtension file e := cut.mp found
    constructor
    · rintro (⟨other⟩ | lacks)
      · have same := found.symm.trans (cut.mpr other)
        rw [Option.some.inj same]
      · exact absurd has (lacks e)
    · rintro rfl
      exact .dotted has

theorem isSource_iff {ignored : IgnoreList} {extensions : List String} {names : Location}
    (clean : Path.AreNames names) :
    isSource ignored extensions names = true ↔ Sought ignored extensions names := by
  obtain ⟨front, file, rfl⟩ : ∃ front file, names = front ++ [file] :=
    ⟨_, _, (List.dropLast_concat_getLast clean.nonempty).symm⟩
  have wanted : extensions.contains (dottedExtension (.ofNames (front ++ [file]))) = true ↔
      ∃ front' file' extension, front ++ [file] = front' ++ [file'] ∧
        DottedExtension file' extension ∧ extension ∈ extensions := by
    rw [List.contains_iff_mem]
    constructor
    · intro listed
      exact ⟨front, file, _, rfl, (dottedExtension_iff clean _).mpr rfl, listed⟩
    · rintro ⟨front', file', extension, same, has, listed⟩
      rw [same] at clean ⊢
      rwa [(dottedExtension_iff clean _).mp has]
  rw [isSource, Bool.and_eq_true, Bool.and_eq_true, Bool.not_eq_true', List.any_eq_false,
    Bool.not_eq_true']
  simp only [Bool.not_eq_true, isHidden_eq_false_iff]
  constructor
  · rintro ⟨⟨visible, listed⟩, kept⟩
    exact ⟨visible, wanted.mp listed, kept⟩
  · rintro ⟨visible, has, kept⟩
    exact ⟨⟨visible, wanted.mpr has⟩, kept⟩

/-! ## What is found -/

/-- Sorting puts files in order if no two of their paths have the same components. -/
theorem pairwise_mergeSort {files : List (Path × List UInt8)}
    (apart : files.Pairwise fun a b => a.1.components ≠ b.1.components) :
    (files.mergeSort le).Pairwise fun a b => Path.cmp a.1 b.1 = .lt := by
  have trans (a b c : Path × List UInt8) (first : Path.le a.1 b.1 = true)
      (second : Path.le b.1 c.1 = true) : Path.le a.1 c.1 = true := Path.le_trans first second
  have sorted : (files.mergeSort le).Pairwise fun a b => le a b = true :=
    List.pairwise_mergeSort trans (fun a b => Path.le_total a.1 b.1) files
  have still : (files.mergeSort le).Pairwise fun a b => a.1.components ≠ b.1.components :=
    ((List.mergeSort_perm files le).pairwise_iff fun differ => differ.symm).mpr apart
  exact sorted.imp₂ (fun _ _ ordered differ => Path.cmp_of_le_of_ne ordered differ) still

section Folder

variable {tree : FileTree} {root : Path} {l : Location} (located : tree.locate? root = some l)
  (folder : tree.isFolderAt l = true) (ignored : IgnoreList) (extensions : List String)

include located folder

theorem found_eq : found tree root ignored extensions =
    (((tree.filesBelow l).filter (isSource ignored extensions ·.1)).map fun file =>
      (root.join (.ofNames file.1), file.2)).mergeSort le := by
  rw [found, located]
  exact if_pos folder

theorem mem_found {path : Path} {bytes : List UInt8} :
    (path, bytes) ∈ found tree root ignored extensions ↔
      ∃ names, path = root.join (.ofNames names) ∧ (l ++ names, bytes) ∈ tree.files ∧
        Sought ignored extensions names := by
  rw [found_eq located folder, List.mem_mergeSort, List.mem_map]
  constructor
  · rintro ⟨⟨names, content⟩, kept, same⟩
    obtain ⟨rfl, rfl⟩ := Prod.mk.inj same
    obtain ⟨below, source⟩ := List.mem_filter.mp kept
    have listed := tree.mem_filesBelow.mp below
    exact ⟨names, rfl, listed, (isSource_iff (tree.areNames_of_mem folder listed)).mp source⟩
  · rintro ⟨names, rfl, listed, sought⟩
    have source := (isSource_iff (tree.areNames_of_mem folder listed)).mpr sought
    exact ⟨(names, bytes), List.mem_filter.mpr ⟨tree.mem_filesBelow.mpr listed, source⟩, rfl⟩

/-- What is found stands in the order of paths. Two of them never have the same components, because
what leads to them from the root differs. -/
theorem pairwise_found :
    (found tree root ignored extensions).Pairwise fun a b => Path.cmp a.1 b.1 = .lt := by
  have filled : root.text ≠ "" := by
    intro blank
    simp [FileTree.locate?, blank] at located
  have apart : (((tree.filesBelow l).filter (isSource ignored extensions ·.1)).map fun file =>
      (root.join (.ofNames file.1), file.2)).Pairwise
        fun a b => a.1.components ≠ b.1.components := by
    refine List.pairwise_map.mpr ?_
    refine ((tree.pairwise_filesBelow l).filter _).imp_of_mem ?_
    rintro ⟨names, bytes⟩ ⟨names', bytes'⟩ member member' differ same
    have clean := tree.areNames_of_mem folder (tree.mem_filesBelow.mp (List.mem_filter.mp member).1)
    have clean' :=
      tree.areNames_of_mem folder (tree.mem_filesBelow.mp (List.mem_filter.mp member').1)
    rw [clean.components_join filled, clean'.components_join filled] at same
    exact differ ((List.map_inj_right fun _ _ => Component.name.inj).mp
      (List.append_cancel_left same))
  rw [found_eq located folder]
  exact pairwise_mergeSort apart

end Folder

/-- The order in which trees list what they hold does not show in what is found. -/
theorem found_of_sameContents {tree other : FileTree} (same : tree.SameContents other) {root : Path}
    (folder : tree.isFolder root = true) (ignored : IgnoreList) (extensions : List String) :
    found tree root ignored extensions = found other root ignored extensions := by
  obtain ⟨l, located, folder⟩ := (Option.any_eq_true ..).mp folder
  have located' : other.locate? root = some l := same.locate? root ▸ located
  have folder' : other.isFolderAt l = true := same.isFolderAt ▸ folder
  have ordered := pairwise_found located folder ignored extensions
  have ordered' := pairwise_found located' folder' ignored extensions
  have nodup {files : List (Path × List UInt8)}
      (ordered : files.Pairwise fun a b => Path.cmp a.1 b.1 = .lt) : files.Nodup := by
    refine ordered.imp ?_
    intro a b less same
    exact Path.ne_of_cmp less (congrArg Prod.fst same)
  -- What is strictly ordered is determined by what it holds.
  refine List.Perm.eq_of_pairwise ?_ ordered ordered' ?_
  · intro a b _ _ less greater
    exact absurd greater (Path.not_cmp_of_cmp less)
  · refine (List.perm_ext_iff_of_nodup (nodup ordered) (nodup ordered')).mpr ?_
    rintro ⟨path, bytes⟩
    rw [mem_found located folder, mem_found located' folder']
    simp only [same.files]

/-- The sources of a directory are exactly the files below it that are sought, each at the path of
the directory continued by the names that lead to it. They stand in the order of paths, so none is
there twice, and in whatever order a tree lists its files and folders, they are the same. -/
theorem sources_exact {tree : FileTree} {root : Path} (folder : tree.isFolder root = true)
    (ignored : IgnoreList) (extensions : List String) :
    (sources tree root ignored extensions).Pairwise Path.Before ∧
      (sources tree root ignored extensions).Nodup ∧
      (∀ path, path ∈ sources tree root ignored extensions ↔
        ∃ names, path = root.join (.ofNames names) ∧ tree.LeadsToFile root names ∧
          Sought ignored extensions names) ∧
      ∀ other, tree.SameContents other →
        sources other root ignored extensions = sources tree root ignored extensions := by
  obtain ⟨l, located, folderAt⟩ := (Option.any_eq_true ..).mp folder
  have ordered : (sources tree root ignored extensions).Pairwise fun p q => Path.cmp p q = .lt :=
    List.pairwise_map.mpr (pairwise_found located folderAt ignored extensions)
  refine ⟨?_, ?_, ?_, ?_⟩
  · exact ordered.imp Path.before_of_cmp
  · exact ordered.imp Path.ne_of_cmp
  · intro path
    rw [sources, List.mem_map]
    constructor
    · rintro ⟨⟨_, bytes⟩, member, rfl⟩
      obtain ⟨names, written, listed, sought⟩ := (mem_found located folderAt ..).mp member
      exact ⟨names, written, ⟨l, bytes, located, listed⟩, sought⟩
    · rintro ⟨names, written, ⟨l', bytes, located', listed⟩, sought⟩
      obtain rfl := Option.some.inj (located.symm.trans located')
      have member := (mem_found located folderAt ..).mpr ⟨names, written, listed, sought⟩
      exact ⟨(path, bytes), member, rfl⟩
  · intro other same
    rw [sources, sources, found_of_sameContents same folder]

/-- A file beside a folder of the same stem: what the folder holds comes first, although the order
of texts has it last. -/
theorem sources_exact_beside :
    let tree : FileTree :=
      ⟨["work"], [(["work", "src", "a.php"], []), (["work", "src", "a", "b.php"], [])],
        [["work"], ["work", "src"], ["work", "src", "a"]], by decide, by decide, by decide,
        by decide⟩
    let paths := sources tree ⟨"src"⟩ (.ofEntries ["vendor"]) [".php"]
    tree.isFolder ⟨"src"⟩ = true ∧ paths.Pairwise Path.Before ∧
      ⟨"src/a/b.php"⟩ ∈ paths ∧ ⟨"src/a.php"⟩ ∈ paths ∧
      Path.Before ⟨"src/a/b.php"⟩ ⟨"src/a.php"⟩ ∧ "src/a.php" < "src/a/b.php" := by
  intro tree paths
  have folder : tree.isFolder ⟨"src"⟩ = true := by decide
  have located : tree.locate? ⟨"src"⟩ = some ["work", "src"] := by decide
  obtain ⟨ordered, -, exactly, -⟩ := sources_exact folder (.ofEntries ["vendor"]) [".php"]
  have extension (stem : String) (filled : stem ≠ "") :
      DottedExtension (stem ++ "." ++ "php") ".php" := .dotted ⟨stem, filled, rfl, by decide⟩
  refine ⟨folder, ordered, (exactly _).mpr ?_, (exactly _).mpr ?_, ?_, by decide⟩
  · exact ⟨["a", "b.php"], by decide, ⟨_, [], located, by decide⟩, by decide,
      ⟨["a"], _, _, rfl, extension "b" (by decide), by decide⟩, by decide⟩
  · exact ⟨["a.php"], by decide, ⟨_, [], located, by decide⟩, by decide,
      ⟨[], _, _, rfl, extension "a" (by decide), by decide⟩, by decide⟩
  · exact Path.before_of_cmp (by decide)

end Discovery
end LayerGuard
