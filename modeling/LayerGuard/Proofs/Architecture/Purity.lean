import LayerGuard.Proofs.Architecture.Ownership
import LayerGuard.Proofs.Text.Split

/-! # Layers and their directories

A layer's directory is told by its name. The root namespace is taken off where a separator ends it,
and the segments that are left lead from the source root to the directory; separators at the ends of
a name or next to each other part no segments. The check passes exactly if each of these paths leads
to a folder of the tree, and names the first layer for which none does. Further folders in the tree
open ways and close none, so they never make the check fail.
-/

namespace LayerGuard

/-! ## Segments of a name -/

/-- The segments of a name: what stands between its separators, unless it is empty. -/
def HasSegments (name : String) (segments : List String) : Prop :=
  ∃ pieces, pieces ≠ [] ∧ (∀ piece ∈ pieces, '\\' ∉ piece.toList) ∧
    Text.join "\\" pieces = name ∧ pieces.filter (· != "") = segments

/-- The segments of a name below a root namespace. -/
inductive SegmentsBelow (root : String) : String → List String → Prop where
  /-- The root namespace itself has none. -/
  | root : SegmentsBelow root root []
  /-- Behind the root namespace and a separator. -/
  | below {rest : String} {segments : List String} (divided : HasSegments rest segments) :
      SegmentsBelow root (root ++ "\\" ++ rest) segments
  /-- A name outside the root namespace keeps all of its segments. -/
  | outside {name : String} {segments : List String} (other : name ≠ root)
      (apart : ∀ rest, name ≠ root ++ "\\" ++ rest) (divided : HasSegments name segments) :
      SegmentsBelow root name segments

theorem hasSegments_iff (name : String) (segments : List String) :
    HasSegments name segments ↔ (Text.split '\\' name).filter (· != "") = segments := by
  constructor
  · rintro ⟨pieces, nonempty, free, rfl, rfl⟩
    have parts : Text.split '\\' (Text.join "\\" pieces) = pieces := Text.split_join nonempty free
    rw [parts]
  · rintro rfl
    exact ⟨_, Text.split_ne_nil '\\' name, fun _ => Text.not_mem_of_mem_split,
      Text.join_split '\\' name, rfl⟩

theorem HasSegments.filled {name : String} {segments : List String}
    (divided : HasSegments name segments) :
    ∀ segment ∈ segments, segment ≠ "" ∧ ∀ c ∈ segment.toList, c ∈ name.toList := by
  rw [hasSegments_iff] at divided
  intro segment member
  rw [← divided, List.mem_filter, bne_iff_ne] at member
  exact ⟨member.2, fun c inside => Text.mem_of_mem_split member.1 inside⟩

theorem SegmentsBelow.filled {root name : String} {segments : List String}
    (divided : SegmentsBelow root name segments) :
    ∀ segment ∈ segments, segment ≠ "" ∧ ∀ c ∈ segment.toList, c ∈ name.toList := by
  cases divided with
  | root => exact List.forall_mem_nil _
  | below divided =>
    intro segment member
    obtain ⟨filled, inside⟩ := divided.filled segment member
    refine ⟨filled, fun c listed => ?_⟩
    rw [String.toList_append]
    exact List.mem_append_right _ (inside c listed)
  | outside _ _ divided => exact divided.filled

namespace Layer

theorem withoutRoot_below (root rest : String) :
    withoutRoot (root ++ "\\" ++ rest) root = rest := by
  have longer : root ++ "\\" ++ rest ≠ root := by
    intro same
    have length := congrArg String.length same
    have separator : "\\".length = 1 := rfl
    rw [String.length_append, String.length_append] at length
    omega
  have behindRoot : Text.behind? root (root ++ "\\" ++ rest) = some ("\\" ++ rest) :=
    Text.behind?_eq_some_iff.mpr (String.append_assoc ..)
  have behindSeparator : Text.behind? separator.toString ("\\" ++ rest) = some rest :=
    Text.behind?_eq_some_iff.mpr rfl
  rw [withoutRoot, if_neg (by simpa using longer), behindRoot, Option.bind_some, behindSeparator]
  rfl

theorem withoutRoot_outside {name root : String} (other : name ≠ root)
    (apart : ∀ rest, name ≠ root ++ "\\" ++ rest) : withoutRoot name root = name := by
  have nothing : (Text.behind? root name).bind (Text.behind? separator.toString) = none := by
    rw [Option.eq_none_iff_forall_ne_some]
    intro rest found
    obtain ⟨behind, behindRoot, behindSeparator⟩ := Option.bind_eq_some_iff.mp found
    rw [Text.behind?_eq_some_iff] at behindRoot behindSeparator
    apply apart rest
    rw [behindRoot, behindSeparator, String.append_assoc]
    rfl
  rw [withoutRoot, if_neg (by simpa using other), nothing]
  rfl

end Layer

/-- The segments below the root are those of the name without it. -/
theorem segmentsBelow_iff (root name : String) (segments : List String) :
    SegmentsBelow root name segments ↔
      (Text.split '\\' (Layer.withoutRoot name root)).filter (· != "") = segments := by
  constructor
  · intro divided
    cases divided with
    | root =>
      rw [Layer.withoutRoot, if_pos (beq_self_eq_true _)]
      rfl
    | below divided =>
      rw [Layer.withoutRoot_below]
      exact (hasSegments_iff _ _).mp divided
    | outside other apart divided =>
      rw [Layer.withoutRoot_outside other apart]
      exact (hasSegments_iff _ _).mp divided
  · rintro rfl
    by_cases same : name = root
    · subst same
      rw [Layer.withoutRoot, if_pos (beq_self_eq_true _)]
      exact .root
    · by_cases inside : ∃ rest, name = root ++ "\\" ++ rest
      · obtain ⟨rest, rfl⟩ := inside
        rw [Layer.withoutRoot_below]
        exact .below ((hasSegments_iff _ _).mpr rfl)
      · have apart : ∀ rest, name ≠ root ++ "\\" ++ rest := fun rest found => inside ⟨rest, found⟩
        rw [Layer.withoutRoot_outside same apart]
        exact .outside same apart ((hasSegments_iff _ _).mpr rfl)

/-! ## The path of segments -/

theorem Path.isAbsolute_of_slashless {p : Path} (slashless : '/' ∉ p.text.toList) :
    p.isAbsolute = false := by
  rw [← Bool.not_eq_true, isAbsolute, Text.beginsWith_iff]
  intro begins
  exact slashless (begins.subset (List.mem_singleton_self '/'))

theorem Path.join_plain {base : Path} {piece : String} (slashless : '/' ∉ piece.toList)
    (filled : base.text ≠ "") (ends : Text.endsWith base.text "/" = false) :
    base.join ⟨piece⟩ = ⟨base.text ++ "/" ++ piece⟩ := by
  rw [join, isAbsolute_of_slashless slashless, ends, beq_eq_false_iff_ne.mpr filled]
  rfl

theorem Text.endsWith_slash_append (before : String) {last : String} (filled : last ≠ "")
    (slashless : '/' ∉ last.toList) : endsWith (before ++ last) "/" = false := by
  have nonempty : last.toList ≠ [] := fun none => filled (String.toList_eq_nil_iff.mp none)
  rw [← Bool.not_eq_true, endsWith_iff, String.toList_append]
  intro ends
  have final : '/' = last.toList.getLast nonempty := by
    rw [← List.getLast_append_of_ne_nil _ nonempty]
    exact ends.getLast (List.cons_ne_nil _ _)
  exact slashless (final ▸ List.getLast_mem nonempty)

/-- Plain pieces that are joined to a path one after the other stand behind slashes. -/
theorem Path.foldl_join_plain {base : Path} {pieces : List String} (filled : base.text ≠ "")
    (ends : Text.endsWith base.text "/" = false)
    (plain : ∀ piece ∈ pieces, piece ≠ "" ∧ '/' ∉ piece.toList) :
    pieces.foldl (fun p piece => p.join ⟨piece⟩) base = ⟨Text.join "/" (base.text :: pieces)⟩ := by
  induction pieces generalizing base with
  | nil => simp [Text.join]
  | cons piece pieces ih =>
    obtain ⟨filledPiece, slashless⟩ := plain piece (List.mem_cons_self ..)
    have others := fun other member => plain other (List.mem_cons_of_mem _ member)
    rw [List.foldl_cons, join_plain slashless filled ends,
      ih (by simp) (Text.endsWith_slash_append _ filledPiece slashless) others]
    cases pieces with
    | nil => simp [Text.join]
    | cons next pieces => simp only [Text.join, String.intercalate_cons_cons, String.append_assoc]

theorem Path.ofPieces_eq {pieces : List String}
    (plain : ∀ piece ∈ pieces, piece ≠ "" ∧ '/' ∉ piece.toList) :
    ofPieces pieces = ⟨Text.join "/" pieces⟩ := by
  cases pieces with
  | nil => rfl
  | cons piece pieces =>
    obtain ⟨filled, slashless⟩ := plain piece (List.mem_cons_self ..)
    have others := fun other member => plain other (List.mem_cons_of_mem _ member)
    have first : Path.join ⟨""⟩ ⟨piece⟩ = ⟨piece⟩ := by
      simp [join, isAbsolute_of_slashless slashless]
    have ends : Text.endsWith piece "/" = false := by
      simpa using Text.endsWith_slash_append "" filled slashless
    rw [ofPieces, List.foldl_cons, first]
    exact foldl_join_plain filled ends others

/-- The directory of a layer is the path of its segments. -/
theorem Layer.directory_eq {l : Layer} {root : String} {segments : List String}
    (slashless : '/' ∉ l.name.toList) (divided : SegmentsBelow root l.name segments) :
    l.directory root = ⟨Text.join "/" segments⟩ := by
  have plain : ∀ segment ∈ segments, segment ≠ "" ∧ '/' ∉ segment.toList := by
    intro segment member
    obtain ⟨filled, inside⟩ := divided.filled segment member
    exact ⟨filled, fun slash => slashless (inside _ slash)⟩
  rw [← Path.ofPieces_eq plain, ← (segmentsBelow_iff _ _ _).mp divided]
  rfl

/-! ## Trees with further folders -/

namespace FileTree

/-- The folders of a tree are among those of another one with the same working directory. -/
structure FoldersIn (t larger : FileTree) : Prop where
  start : larger.workingDirectory = t.workingDirectory
  kept : ∀ l ∈ t.folders, l ∈ larger.folders

section FoldersIn

variable {t larger : FileTree}

theorem FoldersIn.isFolderAt (inside : t.FoldersIn larger) {l : Location}
    (folder : t.isFolderAt l = true) : larger.isFolderAt l = true := by
  rw [FileTree.isFolderAt, Bool.or_eq_true, List.contains_iff_mem] at folder ⊢
  exact folder.imp_right (inside.kept l)

theorem FoldersIn.follow (inside : t.FoldersIn larger) {l m : Location} {segment : String}
    (followed : t.follow l segment = some m) : larger.follow l segment = some m := by
  rw [FileTree.follow] at followed ⊢
  cases folder : t.isFolderAt l with
  | false => simp [folder] at followed
  | true =>
    rw [folder] at followed
    rw [inside.isFolderAt folder]
    exact followed

/-- Whatever a path leads to, it leads to in the larger tree. -/
theorem FoldersIn.locate? (inside : t.FoldersIn larger) {p : Path} {l : Location}
    (located : t.locate? p = some l) : larger.locate? p = some l := by
  have follows (segments : List String) (front : Location)
      (followed : segments.foldlM t.follow front = some l) :
      segments.foldlM larger.follow front = some l := by
    induction segments generalizing front with
    | nil => exact followed
    | cons segment segments ih =>
      rw [List.foldlM_cons] at followed ⊢
      obtain ⟨next, step, rest⟩ := Option.bind_eq_some_iff.mp followed
      rw [inside.follow step]
      exact ih next rest
  rw [FileTree.locate?] at located ⊢
  split at located
  · cases located
  · next filled =>
    rw [if_neg filled, inside.start]
    exact follows _ _ located

theorem FoldersIn.isFolder (inside : t.FoldersIn larger) {p : Path} (folder : t.isFolder p = true) :
    larger.isFolder p = true := by
  obtain ⟨l, located, stands⟩ := (Option.any_eq_true ..).mp folder
  rw [FileTree.isFolder, inside.locate? located]
  exact inside.isFolderAt stands

end FoldersIn

theorem FoldersIn.refl (t : FileTree) : t.FoldersIn t := ⟨rfl, fun _ => id⟩

theorem FoldersIn.trans {t middle larger : FileTree} (first : t.FoldersIn middle)
    (second : middle.FoldersIn larger) : t.FoldersIn larger :=
  ⟨second.start.trans first.start, fun l member => second.kept l (first.kept l member)⟩

theorem foldersIn_putFolder (t : FileTree) (l : Location) : t.FoldersIn (t.putFolder l) := by
  rw [putFolder]
  split
  · exact ⟨rfl, fun _ => List.mem_append_left _⟩
  · exact .refl t

/-- What every single step keeps is kept by adding one thing after the other. -/
theorem foldersIn_foldl {α : Type} {add : FileTree → α → FileTree}
    (step : ∀ t x, FoldersIn t (add t x)) (t : FileTree) (xs : List α) :
    t.FoldersIn (xs.foldl add t) := by
  induction xs generalizing t with
  | nil => exact .refl t
  | cons x xs ih => exact (step t x).trans (ih (add t x))

theorem foldersIn_addFolders (t : FileTree) (paths : List Path) :
    t.FoldersIn (paths.foldl addFolder t) :=
  foldersIn_foldl (fun t p => foldersIn_foldl foldersIn_putFolder t (wayTo (t.place p))) t paths

end FileTree

/-! ## The check -/

/-- A layer has its directory if the segments of its name lead to a folder from the source root. -/
def Layer.HasDirectory (l : Layer) (tree : FileTree) (source : Path) (root : String) : Prop :=
  ∃ segments, SegmentsBelow root l.name segments ∧
    tree.isFolder (source.join ⟨Text.join "/" segments⟩) = true

theorem Layer.hasDirectory_iff {l : Layer} (slashless : '/' ∉ l.name.toList) (tree : FileTree)
    (source : Path) (root : String) :
    l.HasDirectory tree source root ↔ tree.isFolder (source.join (l.directory root)) = true := by
  constructor
  · rintro ⟨segments, divided, folder⟩
    rwa [directory_eq slashless divided]
  · intro folder
    have divided : SegmentsBelow root l.name _ := (segmentsBelow_iff _ _ _).mpr rfl
    exact ⟨_, divided, directory_eq slashless divided ▸ folder⟩

theorem Layer.HasDirectory.of_foldersIn {l : Layer} {tree larger : FileTree} {source : Path}
    {root : String} (has : l.HasDirectory tree source root) (inside : tree.FoldersIn larger) :
    l.HasDirectory larger source root := by
  obtain ⟨segments, divided, folder⟩ := has
  exact ⟨segments, divided, inside.isFolder folder⟩

namespace Architecture

section Check

variable {a : Architecture} (slashless : ∀ l ∈ a.layers, '/' ∉ l.name.toList) (tree : FileTree)
  (source : Path) (root : String)

include slashless

theorem checkPurity_eq_ok_iff :
    a.checkPurity tree source (some root) = .ok () ↔
      ∀ l ∈ a.layers, l.HasDirectory tree source root := by
  have passes : a.checkPurity tree source (some root) = .ok () ↔
      a.layers.find? (fun l => !tree.isFolder (source.join (l.directory root))) = none := by
    rw [checkPurity]
    split <;> simp [*]
  rw [passes, List.find?_eq_none]
  refine forall₂_congr fun l member => ?_
  rw [Layer.hasDirectory_iff (slashless l member)]
  simp

/-- The search stops at the first layer without a directory. -/
theorem find?_missing_iff (l : Layer) :
    a.layers.find? (fun l => !tree.isFolder (source.join (l.directory root))) = some l ↔
      ∃ before after, a.layers = before ++ l :: after ∧
        (∀ m ∈ before, m.HasDirectory tree source root) ∧ ¬ l.HasDirectory tree source root := by
  have missing {m : Layer} (member : m ∈ a.layers) :
      m.HasDirectory tree source root ↔ tree.isFolder (source.join (m.directory root)) = true :=
    Layer.hasDirectory_iff (slashless m member) tree source root
  rw [List.find?_eq_some_iff_append]
  constructor
  · rintro ⟨absent, before, after, layers, earlier⟩
    rw [layers] at missing
    refine ⟨before, after, layers, fun m member => ?_, ?_⟩
    · rw [missing (List.mem_append_left _ member)]
      simpa using earlier m member
    · rw [missing (List.mem_append_right _ (List.mem_cons_self ..))]
      simpa using absent
  · rintro ⟨before, after, layers, earlier, absent⟩
    rw [layers] at missing
    rw [missing (List.mem_append_right _ (List.mem_cons_self ..))] at absent
    refine ⟨by simpa using absent, before, after, layers, fun m member => ?_⟩
    simpa using (missing (List.mem_append_left _ member)).mp (earlier m member)

theorem checkPurity_eq_error_iff (fault : ArchitectureFault) :
    a.checkPurity tree source (some root) = .error fault ↔
      ∃ before l after segments, a.layers = before ++ l :: after ∧
        (∀ m ∈ before, m.HasDirectory tree source root) ∧ ¬ l.HasDirectory tree source root ∧
        SegmentsBelow root l.name segments ∧
        fault = .missingDirectory (source.join ⟨Text.join "/" segments⟩) source
          ⟨Text.join "/" segments⟩ := by
  have fails : a.checkPurity tree source (some root) = .error fault ↔
      ∃ l, a.layers.find? (fun l => !tree.isFolder (source.join (l.directory root))) = some l ∧
        fault = .missingDirectory (source.join (l.directory root)) source (l.directory root) := by
    rw [checkPurity]
    split <;> simp [*, eq_comm]
  simp only [fails, find?_missing_iff slashless]
  constructor
  · rintro ⟨l, ⟨before, after, layers, earlier, absent⟩, rfl⟩
    have member : l ∈ a.layers := layers ▸ List.mem_append_right _ (List.mem_cons_self ..)
    have divided : SegmentsBelow root l.name _ := (segmentsBelow_iff _ _ _).mpr rfl
    refine ⟨before, l, after, _, layers, earlier, absent, divided, ?_⟩
    rw [Layer.directory_eq (slashless l member) divided]
  · rintro ⟨before, l, after, segments, layers, earlier, absent, divided, rfl⟩
    have member : l ∈ a.layers := layers ▸ List.mem_append_right _ (List.mem_cons_self ..)
    refine ⟨l, ⟨before, after, layers, earlier, absent⟩, ?_⟩
    rw [Layer.directory_eq (slashless l member) divided]

end Check

/-- The check of an architecture's directories passes exactly if all of its layers have theirs.
Otherwise it names the path of the first layer that has none, whole and from the source root.
Without a root namespace it says so in any tree, and folders that are added to a tree never make it
fail. -/
theorem checkPurity_decides (a : Architecture) (slashless : ∀ l ∈ a.layers, '/' ∉ l.name.toList)
    (tree : FileTree) (source : Path) (root : String) :
    (∀ name, ∃! segments, SegmentsBelow root name segments) ∧
    (a.checkPurity tree source (some root) = .ok () ↔
      ∀ l ∈ a.layers, l.HasDirectory tree source root) ∧
    (∀ fault, a.checkPurity tree source (some root) = .error fault ↔
      ∃ before l after segments, a.layers = before ++ l :: after ∧
        (∀ m ∈ before, m.HasDirectory tree source root) ∧ ¬ l.HasDirectory tree source root ∧
        SegmentsBelow root l.name segments ∧
        fault = .missingDirectory (source.join ⟨Text.join "/" segments⟩) source
          ⟨Text.join "/" segments⟩) ∧
    a.checkPurity tree source none = .error .missingRootNamespace ∧
    (∀ paths : List Path, tree.FoldersIn (paths.foldl FileTree.addFolder tree)) ∧
    ∀ larger, tree.FoldersIn larger → a.checkPurity tree source (some root) = .ok () →
      a.checkPurity larger source (some root) = .ok () := by
  refine ⟨fun name => ?_, checkPurity_eq_ok_iff slashless tree source root,
    checkPurity_eq_error_iff slashless tree source root, rfl, tree.foldersIn_addFolders,
    fun larger inside passes => ?_⟩
  · refine ⟨_, (segmentsBelow_iff root name _).mpr rfl, fun segments divided => ?_⟩
    exact ((segmentsBelow_iff root name segments).mp divided).symm
  · rw [checkPurity_eq_ok_iff slashless] at passes ⊢
    exact fun l member => (passes l member).of_foldersIn inside

/-- Doubled and trailing separators vanish, the root namespace is not cut out of a longer segment,
and a file does not stand in for a directory. -/
theorem checkPurity_decides_posing :
    let tree : FileTree :=
      ⟨["w"], [(["w", "src", "Apple"], [])], [["w"], ["w", "src"], ["w", "src", "Domain"]],
        by decide, by decide, by decide, by decide⟩
    let larger : FileTree :=
      ⟨["w"], [], [["w"], ["w", "src"], ["w", "src", "Domain"], ["w", "src", "Apple"]],
        by decide, by decide, by decide, by decide⟩
    ∃ a, build [("App\\\\Domain\\", []), ("Apple", [])] = .ok a ∧
      (∀ l ∈ a.layers, '/' ∉ l.name.toList) ∧
      a.checkPurity tree ⟨"src"⟩ (some "App") =
        .error (.missingDirectory ⟨"src/Apple"⟩ ⟨"src"⟩ ⟨"Apple"⟩) ∧
      a.checkPurity larger ⟨"src"⟩ (some "App") = .ok () := by
  intro tree larger
  obtain ⟨a, built⟩ := (exists_build_iff [("App\\\\Domain\\", []), ("Apple", [])]).mpr (by decide)
  have layers : a.layers = [⟨"App\\\\Domain\\", []⟩, ⟨"Apple", []⟩] :=
    (build_eq_ok_iff _ a).mp built
  have slashless : ∀ l ∈ a.layers, '/' ∉ l.name.toList := by
    rw [layers]
    decide
  have domain : SegmentsBelow "App" "App\\\\Domain\\" ["Domain"] :=
    @SegmentsBelow.below "App" "\\Domain\\" _
      ⟨["", "Domain", ""], by decide, by decide, by decide, by decide⟩
  have apple : SegmentsBelow "App" "Apple" ["Apple"] := (segmentsBelow_iff _ _ _).mpr (by decide)
  have missing : ¬ Layer.HasDirectory ⟨"Apple", []⟩ tree ⟨"src"⟩ "App" := by
    rw [Layer.hasDirectory_iff (by decide)]
    decide
  refine ⟨a, built, slashless, ?_, ?_⟩
  · refine ((checkPurity_decides a slashless tree ⟨"src"⟩ "App").2.2.1 _).mpr
      ⟨[⟨"App\\\\Domain\\", []⟩], ⟨"Apple", []⟩, [], ["Apple"], layers, ?_, missing, apple, ?_⟩
    · exact List.forall_mem_singleton.mpr ⟨_, domain, by decide⟩
    · decide
  · refine (checkPurity_decides a slashless larger ⟨"src"⟩ "App").2.1.mpr ?_
    rw [layers]
    exact List.forall_mem_cons.mpr ⟨⟨_, domain, by decide⟩,
      List.forall_mem_singleton.mpr ⟨_, apple, by decide⟩⟩

end Architecture
end LayerGuard
