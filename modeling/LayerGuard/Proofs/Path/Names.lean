import LayerGuard.Proofs.FileTree
import Mathlib.Data.List.Induction
import Mathlib.Data.List.TakeWhile

/-! # Paths made of names

Names with a slash between them make up a path that reads as these names and nothing else: its
components are the names, its parents are made of the names in front, and its extension is that of
the last name. Behind another path they are its further components, however that path is written.
-/

namespace LayerGuard

theorem IsName.ofSegment? {name : String} (named : IsName name) :
    Component.ofSegment? name = some (.name name) := by
  obtain ⟨filled, here, up, _⟩ := named
  simp [Component.ofSegment?, filled, here, up]

namespace Path

def ofNames (names : Location) : Path := ⟨Text.join "/" names⟩

/-- At least one name, and nothing but names. -/
structure AreNames (names : Location) : Prop where
  nonempty : names ≠ []
  named : ∀ name ∈ names, IsName name

instance (names : Location) : Decidable (AreNames names) :=
  decidable_of_iff (names ≠ [] ∧ ∀ name ∈ names, IsName name)
    ⟨fun ⟨nonempty, named⟩ => ⟨nonempty, named⟩, fun names => ⟨names.nonempty, names.named⟩⟩

theorem AreNames.append {names more : Location} (clean : AreNames names) (further : AreNames more) :
    AreNames (names ++ more) where
  nonempty := List.append_ne_nil_of_left_ne_nil clean.nonempty more
  named := List.forall_mem_append.mpr ⟨clean.named, further.named⟩

/-! ## Components -/

section Components

variable {names : Location}

theorem AreNames.segments (clean : AreNames names) : (ofNames names).segments = names :=
  Text.split_join clean.nonempty fun name member => (clean.named name member).2.2.2

theorem AreNames.isAbsolute (clean : AreNames names) : (ofNames names).isAbsolute = false :=
  FileTree.isAbsolute_names clean.nonempty clean.named

theorem AreNames.startsHere (clean : AreNames names) : (ofNames names).startsHere = false := by
  rw [Path.startsHere, clean.segments, beq_eq_false_iff_ne]
  intro first
  exact (clean.named "." (List.mem_of_head? first)).2.1 rfl

theorem filterMap_ofSegment? (named : ∀ name ∈ names, IsName name) :
    names.filterMap Component.ofSegment? = names.map .name := by
  induction names with
  | nil => rfl
  | cons name names ih =>
    obtain ⟨here, later⟩ := List.forall_mem_cons.mp named
    rw [List.filterMap_cons_some here.ofSegment?, ih later, List.map_cons]

theorem AreNames.components (clean : AreNames names) :
    (ofNames names).components = names.map .name := by
  rw [Path.components, clean.isAbsolute, clean.startsHere, clean.segments]
  exact filterMap_ofSegment? clean.named

theorem head?_split_append (separator : Char) (s : String) (more : List String) :
    (Text.split separator s ++ more).head? = (Text.split separator s).head? := by
  obtain ⟨piece, pieces, split⟩ :=
    List.exists_cons_of_ne_nil (Text.splitChars_ne_nil separator s.toList)
  rw [Text.split, split]
  rfl

theorem segments_trailing (front : String) :
    Path.segments ⟨front ++ "/"⟩ = Text.split '/' front ++ [""] := by
  have parts := Text.split_append '/' front ""
  rwa [String.append_empty] at parts

/-- What stands behind a slash adds its components to those in front. -/
theorem components_slash (front behind : String) :
    Path.components ⟨front ++ "/" ++ behind⟩ =
      Path.components ⟨front ++ "/"⟩ ++ (Text.split '/' behind).filterMap Component.ofSegment? := by
  have filled : front ++ "/" ≠ "" := by simp
  have absolute : Path.isAbsolute ⟨front ++ "/" ++ behind⟩ = Path.isAbsolute ⟨front ++ "/"⟩ :=
    Text.beginsWith_append filled '/' behind
  have whole : Path.segments ⟨front ++ "/" ++ behind⟩ =
      Text.split '/' front ++ Text.split '/' behind := Text.split_append '/' front behind
  rw [Path.components, Path.components, absolute, Path.startsHere, Path.startsHere, whole,
    segments_trailing, head?_split_append, head?_split_append, List.filterMap_append,
    List.filterMap_append, List.append_assoc, List.append_assoc]
  rfl

theorem components_trailing {root : Path} (filled : root.text ≠ "") :
    Path.components ⟨root.text ++ "/"⟩ = root.components := by
  have absolute : Path.isAbsolute ⟨root.text ++ "/"⟩ = root.isAbsolute :=
    Text.beginsWith_append filled '/' "/"
  rw [Path.components, absolute, Path.startsHere, segments_trailing, head?_split_append,
    List.filterMap_append, Path.components, Path.startsHere]
  exact congrArg _ (List.append_nil _)

/-- A path continued by names has these names as its further components, also where it ends with a
slash. -/
theorem AreNames.components_join {root : Path} (filled : root.text ≠ "") (clean : AreNames names) :
    (root.join (ofNames names)).components = root.components ++ names.map .name := by
  have further : (Text.split '/' (ofNames names).text).filterMap Component.ofSegment? =
      names.map .name := by
    rw [← Path.segments, clean.segments]
    exact filterMap_ofSegment? clean.named
  rw [join, clean.isAbsolute, beq_eq_false_iff_ne.mpr filled, Bool.false_or]
  simp only [Bool.false_eq_true, ↓reduceIte]
  split
  · next slash =>
    -- The slash at the end of the path stands in front of the names.
    obtain ⟨front, written⟩ := (Text.endsWith_iff _ _).mp slash
    have text : root.text = String.ofList front ++ "/" := by
      rw [← String.toList_inj, ← written]
      simp
    rw [text, components_slash, further, ← text]
  · rw [components_slash, further, components_trailing filled]

end Components

/-! ## Parents -/

theorem text_ofNames_eq_nil_iff {names : Location} (named : ∀ name ∈ names, IsName name) :
    (ofNames names).text = "" ↔ names = [] := by
  constructor
  · intro blank
    by_contra nonempty
    have clean : AreNames names := ⟨nonempty, named⟩
    have parts := clean.segments
    rw [Path.segments, blank] at parts
    have first : "" ∈ names := parts ▸ (by decide)
    exact (named "" first).1 rfl
  · rintro rfl
    rfl

theorem AreNames.markedSegments {names : Location} (clean : AreNames names) :
    (ofNames names).markedSegments = names.reverse.map (·, true) := by
  obtain ⟨first, rest, rfl⟩ := List.exists_cons_of_ne_nil clean.nonempty
  obtain ⟨here, later⟩ := List.forall_mem_cons.mp clean.named
  have marks : rest.map (fun s => (s, (Component.ofSegment? s).isSome)) = rest.map (·, true) := by
    refine List.map_congr_left fun name member => ?_
    rw [(later name member).ofSegment?]
    rfl
  rw [Path.markedSegments, clean.segments]
  simp only [here.ofSegment?, Option.isSome_some, Bool.or_true, marks, List.map_reverse,
    List.map_cons]

/-- The parent of a path made of names is made of all but the last. -/
theorem parent?_ofNames {names : Location} {last : String} (clean : AreNames (names ++ [last])) :
    (ofNames (names ++ [last])).parent? = some (ofNames names) := by
  -- Every segment counts, so from the end just one is taken off.
  have counted (names : Location) :
      (names.map (·, true)).dropWhile (fun s => !s.2) = names.map (·, true) := by
    cases names <;> rfl
  have texts : (names.reverse.map (·, true)).reverse.map (·.1) = names := by
    rw [← List.map_reverse, List.reverse_reverse, List.map_map]
    exact List.map_id names
  rw [parent?]
  split
  · next none => simp [clean.components] at none
  · next root =>
    rw [clean.components] at root
    cases names <;> cases root
  · rw [clean.markedSegments, clean.isAbsolute, counted, List.reverse_concat, List.map_cons,
      List.drop_one, List.tail_cons, counted]
    simp only [Bool.and_false, Bool.false_eq_true, ↓reduceIte, texts]
    rfl

theorem mem_ancestorsUpTo {names : Location} (named : ∀ name ∈ names, IsName name) {p : Path} :
    p ∈ ancestorsUpTo names.length (ofNames names) ↔
      ∃ above, above <+: names ∧ p = ofNames above := by
  induction names using List.reverseRecOn with
  | nil => simp [ancestorsUpTo]
  | append_singleton names last ih =>
    have clean : AreNames (names ++ [last]) := ⟨by simp, named⟩
    have before := ih fun name member => named name (List.mem_append_left _ member)
    rw [List.length_append, List.length_singleton, ancestorsUpTo, parent?_ofNames clean,
      List.mem_cons, before]
    simp only [List.prefix_concat_iff]
    constructor
    · rintro (rfl | ⟨above, begins, rfl⟩)
      · exact ⟨_, .inl rfl, rfl⟩
      · exact ⟨above, .inr begins, rfl⟩
    · rintro ⟨above, rfl | begins, rfl⟩
      · exact .inl rfl
      · exact .inr ⟨above, begins, rfl⟩

/-- A path made of names and its parents are made of the names up to some place. -/
theorem AreNames.mem_ancestors {names : Location} (clean : AreNames names) {p : Path} :
    p ∈ (ofNames names).ancestors ↔ ∃ above, above <+: names ∧ p = ofNames above := by
  rw [ancestors, clean.components, List.length_map]
  exact mem_ancestorsUpTo clean.named

/-! ## Extensions -/

/-- What follows the last dot of a name, unless nothing stands in front of the dot. -/
def HasExtension (name extension : String) : Prop :=
  ∃ stem, stem ≠ "" ∧ name = stem ++ "." ++ extension ∧ '.' ∉ extension.toList

/-- A name is cut at its last dot, which is the first one read from the end. -/
theorem cutName_dot {name : String} {before after : List Char} (free : '.' ∉ after)
    (written : name.toList.reverse = after ++ '.' :: before) :
    (cutName name).2 = if before = [] then none else some (String.ofList after.reverse) := by
  have others : ∀ c ∈ after, (c != '.') = true := fun c member =>
    bne_iff_ne.mpr fun same => free (same ▸ member)
  have taken : name.toList.reverse.takeWhile (· != '.') = after := by
    rw [written, List.takeWhile_append_of_pos others]
    simp
  rw [cutName, taken, written, List.drop_left]
  cases before <;> rfl

theorem cutName_plain {name : String} (free : '.' ∉ name.toList) : (cutName name).2 = none := by
  have others : ∀ c ∈ name.toList.reverse, (c != '.') = true := fun c member =>
    bne_iff_ne.mpr fun same => free (same ▸ List.mem_reverse.mp member)
  rw [cutName, List.takeWhile_eq_self_iff.mpr others, List.drop_length]

theorem cutName_eq_some_iff {name extension : String} :
    (cutName name).2 = some extension ↔ HasExtension name extension := by
  constructor
  · intro cut
    by_cases dotted : '.' ∈ name.toList
    · obtain ⟨after, before, written, free⟩ :=
        List.eq_append_cons_of_mem (List.mem_reverse.mpr dotted)
      rw [cutName_dot free written] at cut
      split at cut
      · cases cut
      · next filled =>
        cases cut
        refine ⟨String.ofList before.reverse, by simpa using filled, ?_, by simpa using free⟩
        have text := congrArg List.reverse written
        rw [← String.toList_inj]
        simpa using text
    · rw [cutName_plain dotted] at cut
      cases cut
  · rintro ⟨stem, filled, rfl, free⟩
    have written : (stem ++ "." ++ extension).toList.reverse =
        extension.toList.reverse ++ '.' :: stem.toList.reverse := by
      simp
    rw [cutName_dot (by simpa using free) written, if_neg (by simpa using filled),
      List.reverse_reverse, String.ofList_toList]

theorem AreNames.extension? {names : Location} {file : String}
    (clean : AreNames (names ++ [file])) :
    (ofNames (names ++ [file])).extension? = (cutName file).2 := by
  rw [Path.extension?, fileName?, clean.components, List.map_append, List.map_singleton,
    List.getLast?_concat]
  rfl

end Path
end LayerGuard
