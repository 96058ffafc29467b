import LayerGuard.Discovery
import LayerGuard.Proofs.Text.Split

/-! # Reading what was found

A file below a folder is told by the names that lead to it from there. The path of the folder
continued by these names leads to that file and to no other, however the path of the folder is
written: with a slash behind it, with dots in it, absolute or relative. So everything that
discovery finds can be read.
-/

namespace LayerGuard.FileTree

/-- Every place on the way to a file or folder is a folder. -/
theorem isFolderAt_take (t : FileTree) {l : Location}
    (stands : l ∈ t.files.map Prod.fst ++ t.folders) {n : Nat} (short : n < l.length) :
    t.isFolderAt (l.take n) = true := by
  induction length : l.length generalizing l with
  | zero => omega
  | succ k ih =>
    have above := t.rooted l stands
    have shorter : l.dropLast.length = k := by rw [List.length_dropLast, length, Nat.add_sub_cancel]
    by_cases last : n = k
    · have parent : l.take n = l.dropLast := by
        rw [List.dropLast_eq_take, length, Nat.add_sub_cancel, last]
      rw [parent]
      rcases above with root | folder
      · simp [isFolderAt, root]
      · simp [isFolderAt, folder]
    · have folder : l.dropLast ∈ t.folders := by
        refine above.resolve_left fun root => ?_
        rw [root, List.length_nil] at shorter
        omega
      have inner := ih (List.mem_append_right _ folder) (by omega) shorter
      rwa [List.dropLast_eq_take, List.take_take, Nat.min_eq_left (by omega)] at inner

/-- A name is followed from a folder to what the folder holds under it. -/
theorem follow_name (t : FileTree) {l : Location} {name : String} (folder : t.isFolderAt l = true)
    (named : IsName name) : t.follow l name = some (l ++ [name]) := by
  obtain ⟨filled, here, up, _⟩ := named
  simp [follow, folder, filled, here, up]

/-- Names are followed one after the other through folders. -/
theorem foldlM_follow (t : FileTree) (l : Location) {names : Location}
    (named : ∀ name ∈ names, IsName name)
    (folders : ∀ n < names.length, t.isFolderAt (l ++ names.take n) = true) :
    names.foldlM t.follow l = some (l ++ names) := by
  induction names generalizing l with
  | nil => simp
  | cons name names ih =>
    have folder : t.isFolderAt l = true := by simpa using folders 0 (by simp)
    rw [List.foldlM_cons, t.follow_name folder (named name (List.mem_cons_self ..))]
    have rest := ih (l ++ [name]) (fun other member => named other (List.mem_cons_of_mem _ member))
      fun n short => by
        have := folders (n + 1) (by simpa using short)
        simpa using this
    simpa using rest

/-! ## Continued paths -/

/-- A path made of names does not start at the root. -/
theorem isAbsolute_names {names : Location} (nonempty : names ≠ [])
    (named : ∀ name ∈ names, IsName name) : Path.isAbsolute ⟨Text.join "/" names⟩ = false := by
  rw [← Bool.not_eq_true]
  intro absolute
  have first : (Text.split '/' (Text.join "/" names)).head? = some "" :=
    Text.head?_split_of_beginsWith absolute
  have parts : Text.split '/' (Text.join "/" names) = names :=
    Text.split_join nonempty fun name member => (named name member).2.2.2
  rw [parts] at first
  exact (named "" (List.mem_of_head? first)).1 rfl

/-- Where a path with a slash in it starts is told by what stands up to the slash. -/
theorem locate?_slash (t : FileTree) (front behind : String) :
    t.locate? ⟨front ++ "/" ++ behind⟩ =
      (Text.split '/' front ++ Text.split '/' behind).foldlM t.follow
        (if Path.isAbsolute ⟨front ++ "/"⟩ then [] else t.workingDirectory) := by
  have filled : front ++ "/" ≠ "" := by simp
  have absolute : Path.isAbsolute ⟨front ++ "/" ++ behind⟩ = Path.isAbsolute ⟨front ++ "/"⟩ :=
    Text.beginsWith_append filled '/' behind
  have parts : Path.segments ⟨front ++ "/" ++ behind⟩ =
      Text.split '/' front ++ Text.split '/' behind := Text.split_append '/' front behind
  rw [locate?, absolute, parts, if_neg (by simp)]

/-- A folder's path continued by names leads to what these names lead to from the folder, also where
the path ends with a slash. -/
theorem locate?_join (t : FileTree) {root : Path} {l names : Location}
    (located : t.locate? root = some l) (nonempty : names ≠ [])
    (named : ∀ name ∈ names, IsName name)
    (folders : ∀ n < names.length, t.isFolderAt (l ++ names.take n) = true) :
    t.locate? (root.join ⟨Text.join "/" names⟩) = some (l ++ names) := by
  have filled : root.text ≠ "" := by
    intro blank
    simp [locate?, blank] at located
  have parts : Text.split '/' (Text.join "/" names) = names :=
    Text.split_join nonempty fun name member => (named name member).2.2.2
  have followed := t.foldlM_follow l named folders
  rw [Path.join, isAbsolute_names nonempty named, beq_eq_false_iff_ne.mpr filled, Bool.false_or]
  simp only [Bool.false_eq_true, ↓reduceIte]
  split
  · next slash =>
    obtain ⟨front, written⟩ := (Text.endsWith_iff _ _).mp slash
    have text : root.text = String.ofList front ++ "/" := by
      rw [← String.toList_inj, ← written]
      simp
    have start : t.locate? ⟨String.ofList front ++ "/" ++ ""⟩ = some l := by
      rw [String.append_empty, ← text]
      exact located
    -- The slash at the end leaves an empty segment, which is followed to where one stands.
    rw [t.locate?_slash, List.foldlM_append] at start
    obtain ⟨last, reached, stays⟩ := Option.bind_eq_some_iff.mp start
    have same : t.isFolderAt last = true ∧ last = l := by
      simpa [Text.split, Text.splitChars, follow] using stays
    rw [text, t.locate?_slash, parts, List.foldlM_append, reached, same.2]
    exact followed
  · have absolute : Path.isAbsolute ⟨root.text ++ "/"⟩ = root.isAbsolute :=
      Text.beginsWith_append filled '/' "/"
    rw [locate?, if_neg (by simpa using filled), Path.segments] at located
    rw [t.locate?_slash, parts, List.foldlM_append, absolute, located]
    exact followed

/-! ## What is found can be read -/

theorem fileAt?_of_mem (t : FileTree) {l : Location} {bytes : List UInt8}
    (member : (l, bytes) ∈ t.files) : t.fileAt? l = some bytes := by
  obtain ⟨before, behind, files⟩ := List.append_of_mem member
  have distinct := t.distinct
  rw [files, List.map_append, List.nodup_append] at distinct
  refine List.lookup_eq_some_iff.mpr ⟨before, behind, files, fun other earlier => ?_⟩
  have apart := distinct.2.2 other.1 (List.mem_map_of_mem earlier) l (List.mem_cons_self ..)
  simpa using apart.symm

/-- A file below a folder is read by the folder's path continued by the names that lead to it. -/
theorem read?_of_mem_filesBelow (t : FileTree) {root : Path} {l names : Location}
    {bytes : List UInt8} (located : t.locate? root = some l) (folder : t.isFolderAt l = true)
    (member : (names, bytes) ∈ t.filesBelow l) :
    t.read? (root.join ⟨Text.join "/" names⟩) = some bytes := by
  obtain ⟨⟨file, content⟩, listed, below⟩ := List.mem_filterMap.mp member
  obtain ⟨begins, same⟩ := Option.ite_none_right_eq_some.mp below
  obtain ⟨rest, rfl⟩ := begins
  simp only [List.drop_left, Option.some.injEq, Prod.mk.injEq] at same
  obtain ⟨rfl, rfl⟩ := same
  have stands : l ++ rest ∈ t.files.map Prod.fst := List.mem_map_of_mem listed
  obtain ⟨inside, named⟩ := t.named _ (List.mem_append_left _ stands)
  -- The folder is no file itself, so at least one name leads from it to the file.
  have nonempty : rest ≠ [] := by
    rintro rfl
    rw [List.append_nil] at stands inside
    have listed : l ∈ t.folders := by simpa [isFolderAt, inside] using folder
    exact t.apart l listed stands
  have folders : ∀ n < rest.length, t.isFolderAt (l ++ rest.take n) = true := by
    intro n short
    have inner := t.isFolderAt_take (List.mem_append_left _ stands) (n := l.length + n)
      (by simpa using short)
    rwa [List.take_length_add_append] at inner
  rw [read?, t.locate?_join located nonempty
    (fun name member => named name (List.mem_append_right _ member)) folders]
  exact t.fileAt?_of_mem listed

end LayerGuard.FileTree

namespace LayerGuard.Discovery

/-- Every source that is found can be read, and has the bytes it was found with. -/
theorem read?_of_mem_found {tree : FileTree} {root : Path} {ignored : IgnoreList}
    {extensions : List String} {path : Path} {bytes : List UInt8}
    (member : (path, bytes) ∈ found tree root ignored extensions) :
    tree.read? path = some bytes := by
  rw [found] at member
  split at member
  · contradiction
  · next l located =>
    split at member
    · next folder =>
      obtain ⟨⟨names, content⟩, kept, same⟩ := List.mem_map.mp (List.mem_mergeSort.mp member)
      injection same with samePath sameBytes
      subst samePath sameBytes
      exact tree.read?_of_mem_filesBelow located folder (List.mem_filter.mp kept).1
    · split at member
      · next content file =>
        obtain ⟨_, only⟩ := List.mem_ite_nil_right.mp member
        injection List.mem_singleton.mp only with samePath sameBytes
        rw [samePath, sameBytes, FileTree.read?, located]
        exact file
      · contradiction

end LayerGuard.Discovery
