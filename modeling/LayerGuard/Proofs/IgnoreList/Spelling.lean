import LayerGuard.Proofs.IgnoreList.Descent
import LayerGuard.Proofs.Text.Blank
import Mathlib.Logic.Relation

/-! # Spellings of an ignore list

An entry of an ignore list can be written in many ways: with blanks around it, `./` in front of it
and slashes behind it. The order of entries, repetitions and blank entries do not matter either.
All of these leave alone which paths made of names are excluded, whatever patterns match, and so
does merging two lists, which takes the blanks off and leaves repetitions and blank entries out. One
entry does change its rule: a single dot excludes the component `.`, and with a slash behind it
nothing at all. But no path made of names has that component.
-/

namespace LayerGuard

namespace Text

/-! ## Trimmed texts -/

/-- A text is its own trimmed form exactly if no blank stands at its ends. -/
theorem trim_eq_self_iff {s : String} : trim s = s ↔
    (∀ c, s.toList.head? = some c → isBlank c = false) ∧
      ∀ c, s.toList.getLast? = some c → isBlank c = false := by
  constructor
  · intro trimmed
    have trims := trimsTo_trimEnds isBlank s.toList
    have core : trimEnds isBlank s.toList = s.toList := by
      rw [← String.toList_inj, trim, String.toList_ofList] at trimmed
      exact trimmed
    rw [core] at trims
    exact ⟨trims.first, trims.last⟩
  · rintro ⟨first, last⟩
    have trims : TrimsTo isBlank s.toList s.toList :=
      ⟨⟨[], [], by simp, List.forall_mem_nil _, List.forall_mem_nil _⟩, first, last⟩
    rw [trim, ← trims.eq_trimEnds, String.ofList_toList]

theorem trim_trim (s : String) : trim (trim s) = trim s := by
  have trims := trimsTo_trimEnds isBlank s.toList
  rw [trim_eq_self_iff, trim, String.toList_ofList]
  exact ⟨trims.first, trims.last⟩

/-- Blanks around a text do not change its trimmed form. -/
theorem trim_padded {left right : String} (blankLeft : ∀ c ∈ left.toList, isBlank c = true)
    (blankRight : ∀ c ∈ right.toList, isBlank c = true) (s : String) :
    trim (left ++ s ++ right) = trim s := by
  have trims := trimsTo_trimEnds isBlank s.toList
  rw [trim, trim]
  generalize trimEnds isBlank s.toList = core at trims
  obtain ⟨⟨front, behind, whole, inFront, inBehind⟩, first, last⟩ := trims
  have padded : TrimsTo isBlank (left ++ s ++ right).toList core := by
    refine ⟨⟨left.toList ++ front, behind ++ right.toList, ?_, ?_, ?_⟩, first, last⟩
    · simp [whole]
    · exact List.forall_mem_append.mpr ⟨blankLeft, inFront⟩
    · exact List.forall_mem_append.mpr ⟨inBehind, blankRight⟩
  rw [padded.eq_trimEnds]

theorem trim_eq_empty_of_blank {s : String} (blank : ∀ c ∈ s.toList, isBlank c = true) :
    trim s = "" := by
  have padded : trim (s ++ "" ++ "") = trim "" := trim_padded blank (by simp) ""
  rwa [String.append_empty, String.append_empty] at padded

/-- A text made of trimmed ones is trimmed. -/
theorem trim_append {s t : String} (trimmed : trim s = s) (trimmed' : trim t = t) :
    trim (s ++ t) = s ++ t := by
  obtain ⟨first, last⟩ := trim_eq_self_iff.mp trimmed
  obtain ⟨first', last'⟩ := trim_eq_self_iff.mp trimmed'
  rw [trim_eq_self_iff, String.toList_append, List.head?_append, List.getLast?_append]
  constructor
  · intro c begins
    rcases Option.or_eq_some_iff.mp begins with here | ⟨-, there⟩
    · exact first c here
    · exact first' c there
  · intro c ends
    rcases Option.or_eq_some_iff.mp ends with there | ⟨-, here⟩
    · exact last' c there
    · exact last c here

theorem trim_repeated {piece : String} (trimmed : trim piece = piece) (n : Nat) :
    trim (String.join (List.replicate n piece)) = String.join (List.replicate n piece) := by
  induction n with
  | zero => rfl
  | succ n ih =>
    rw [List.replicate_succ, String.join_cons]
    exact trim_append trimmed ih

/-! ## Repetitions -/

section Distinct

variable {α : Type} [BEq α] [LawfulBEq α]

/-- A further element is kept if it is new. -/
theorem distinct_concat (xs : List α) (x : α) :
    distinct (xs ++ [x]) = if x ∈ xs then distinct xs else distinct xs ++ [x] := by
  have known : (distinct xs).contains x = true ↔ x ∈ xs :=
    List.contains_iff_mem.trans mem_distinct
  rw [distinct, List.foldl_append, List.foldl_cons, List.foldl_nil, ← distinct]
  simp only [known]

theorem distinct_distinct (xs : List α) : distinct (distinct xs) = distinct xs := by
  induction xs using List.reverseRecOn with
  | nil => rfl
  | append_singleton xs x ih =>
    rw [distinct_concat]
    split
    · exact ih
    · next new => rw [distinct_concat, ih, if_neg (mt mem_distinct.mp new)]

/-- Repetitions in front can be left out before or after the rest is added. -/
theorem distinct_distinct_append (xs ys : List α) :
    distinct (distinct xs ++ ys) = distinct (xs ++ ys) := by
  induction ys using List.reverseRecOn with
  | nil => rw [List.append_nil, List.append_nil, distinct_distinct]
  | append_singleton ys y ih =>
    rw [← List.append_assoc, ← List.append_assoc, distinct_concat, distinct_concat, ih]
    simp only [List.mem_append, mem_distinct]

theorem distinct_append_distinct (xs ys : List α) :
    distinct (xs ++ distinct ys) = distinct (xs ++ ys) := by
  induction ys using List.reverseRecOn with
  | nil => rfl
  | append_singleton ys y ih =>
    rw [← List.append_assoc, distinct_concat, distinct_concat]
    by_cases known : y ∈ ys
    · rw [if_pos known, ih, if_pos (List.mem_append_right _ known)]
    · rw [if_neg known, ← List.append_assoc, distinct_concat, ih]
      simp only [List.mem_append, mem_distinct]

end Distinct

end Text

namespace IgnoreRule

/-! ## Cleaned entries -/

/-- Characters without the slashes at their end. -/
def dropSlashes (cs : List Char) : List Char := (cs.reverse.dropWhile (· == '/')).reverse

theorem dropSlashes_concat (cs : List Char) : dropSlashes (cs ++ ['/']) = dropSlashes cs := by
  rw [dropSlashes, List.reverse_concat]
  rfl

theorem clean_eq (entry : String) :
    clean entry = String.ofList (dropSlashes (dropHere (Text.trim entry).toList)) := by
  rw [Text.trim, String.toList_ofList]
  rfl

variable {matcher : Matcher}

/-- What an entry stands for is told by its cleaned form. -/
theorem ofEntry?_congr {entry other : String} (same : clean entry = clean other) :
    ofEntry? matcher entry = ofEntry? matcher other := by
  rw [ ofEntry?, ofEntry?, same]

theorem ofEntry?_of_trim {entry other : String} (same : Text.trim entry = Text.trim other) :
    ofEntry? matcher entry = ofEntry? matcher other :=
  ofEntry?_congr (by rw [clean_eq, clean_eq, same])

theorem ofEntry?_blank {entry : String} (blank : Text.trim entry = "") :
    ofEntry? matcher entry = none := by
  have gone : clean entry = "" := by
    rw [clean_eq, blank]
    rfl
  rw [ ofEntry?, gone]
  rfl

theorem ofEntry?_here {entry : String} (trimmed : Text.trim entry = entry) :
    ofEntry? matcher ("./" ++ entry) = ofEntry? matcher entry := by
  have chars : ("./" ++ entry).toList = '.' :: '/' :: entry.toList := by simp
  refine ofEntry?_congr ?_
  rw [clean_eq, clean_eq, Text.trim_append (by decide) trimmed, trimmed, chars, dropHere]

/-- A slash behind an entry stays behind what follows the leading `./`, unless that is a single dot:
then it makes one more of these. -/
theorem dropHere_concat (cs : List Char) :
    dropHere (cs ++ ['/']) = dropHere cs ++ ['/'] ∨
      dropHere cs = ['.'] ∧ dropHere (cs ++ ['/']) = [] := by
  fun_induction dropHere cs with
  | case1 rest ih => exact ih
  | case2 cs other =>
    -- Only behind a single dot can the slash complete another `./`.
    by_cases dot : cs = ['.']
    · rw [dot]
      exact .inr ⟨rfl, rfl⟩
    · left
      refine dropHere.eq_2 _ fun rest same => ?_
      rcases cs with _ | ⟨c, _ | ⟨d, cs⟩⟩
      · cases same
      · cases same
        exact dot rfl
      · cases same
        exact other _ rfl

theorem ofEntry?_dot {entry : String} (dot : clean entry = ".") :
    ofEntry? matcher entry = some (.component ".") := by
  rw [ ofEntry?, dot]
  rfl

/-- A slash behind an entry changes what it stands for only if that is the component `.`. -/
theorem ofEntry?_slash {entry : String} (trimmed : Text.trim entry = entry) :
    ofEntry? matcher (entry ++ "/") = ofEntry? matcher entry ∨
      ofEntry? matcher entry = some (.component ".") ∧
        ofEntry? matcher (entry ++ "/") = none := by
  have chars : (entry ++ "/").toList = entry.toList ++ ['/'] := by simp
  have cleaned : clean (entry ++ "/") =
      String.ofList (dropSlashes (dropHere (entry.toList ++ ['/']))) := by
    rw [clean_eq, Text.trim_append trimmed (by decide), chars]
  rcases dropHere_concat entry.toList with kept | ⟨dot, gone⟩
  · refine .inl (ofEntry?_congr ?_)
    rw [cleaned, kept, dropSlashes_concat, clean_eq, trimmed]
  · refine .inr ⟨ofEntry?_dot ?_, ?_⟩
    · rw [clean_eq, trimmed, dot]
      rfl
    · rw [ ofEntry?, cleaned, gone]
      rfl

end IgnoreRule

namespace IgnoreList

/-! ## Entries that say the same -/

/-- Whether an entry of an ignore list excludes a path. -/
def entryExcludes (matcher : Matcher) (p : Path) (entry : String) : Bool :=
  Option.any (·.excludes p) <| IgnoreRule.ofEntry? matcher entry

variable (matcher : Matcher)

theorem excludes_ofEntries (entries : List String) (p : Path) :
    (ofEntries entries matcher).excludes p = entries.any (entryExcludes matcher p) := by
  rw [excludes, ofEntries, List.any_filterMap]
  refine congrArg entries.any (funext fun entry => ?_)
  rw [entryExcludes]
  cases IgnoreRule.ofEntry? matcher entry with
  | none => rfl
  | some rule => rw [Option.any_some]

theorem entryExcludes_blank {entry : String} (blank : ∀ c ∈ entry.toList, Text.isBlank c = true)
    (p : Path) : entryExcludes matcher p entry = false := by
  rw [entryExcludes, IgnoreRule.ofEntry?_blank (Text.trim_eq_empty_of_blank blank)]
  rfl

theorem entryExcludes_of_trim (p : Path) {entry other : String}
    (same : Text.trim entry = Text.trim other) :
    entryExcludes matcher p entry = entryExcludes matcher p other := by
  rw [entryExcludes, IgnoreRule.ofEntry?_of_trim same, entryExcludes]

theorem entryExcludes_here (p : Path) (n : Nat) {entry : String}
    (trimmed : Text.trim entry = entry) :
    entryExcludes matcher p (String.join (List.replicate n "./") ++ entry) =
      entryExcludes matcher p entry := by
  induction n with
  | zero => rw [List.replicate_zero, String.join_nil, String.empty_append]
  | succ n ih =>
    have front := Text.trim_repeated (by decide : Text.trim "./" = "./") n
    have inner := Text.trim_append front trimmed
    rw [List.replicate_succ, String.join_cons, String.append_assoc, entryExcludes,
      IgnoreRule.ofEntry?_here inner]
    exact ih

/-- No path made of names has the component that a single dot excludes. -/
theorem entryExcludes_slash {names : Location} (clean : Path.AreNames names) {entry : String}
    (trimmed : Text.trim entry = entry) :
    entryExcludes matcher (.ofNames names) (entry ++ "/") =
      entryExcludes matcher (.ofNames names) entry := by
  rw [entryExcludes, entryExcludes]
  rcases IgnoreRule.ofEntry?_slash trimmed with same | ⟨dot, none⟩
  · rw [same]
  · have unhit : (IgnoreRule.component ".").excludes (.ofNames names) = false := by
      rw [← Bool.not_eq_true, IgnoreRule.component_excludes_iff clean]
      exact fun member => (clean.named "." member).2.1 rfl
    rw [dot, none, Option.any_some, unhit, Option.any_none]

theorem entryExcludes_slashes {names : Location} (clean : Path.AreNames names) (n : Nat)
    {entry : String} (trimmed : Text.trim entry = entry) :
    entryExcludes matcher (.ofNames names) (entry ++ String.join (List.replicate n "/")) =
      entryExcludes matcher (.ofNames names) entry := by
  induction n with
  | zero => rw [List.replicate_zero, String.join_nil, String.append_empty]
  | succ n ih =>
    have behind := Text.trim_repeated (by decide : Text.trim "/" = "/") n
    have inner := Text.trim_append trimmed behind
    rw [List.replicate_succ', String.join_append, ← String.append_assoc, String.join_cons,
      String.join_nil, String.append_empty, entryExcludes_slash matcher clean inner, ih]

/-! ## Lists that say the same -/

/-- One change to the spelling of an ignore list. -/
inductive Respells : List String → List String → Prop where
  | order {entries others : List String} (same : entries.Perm others) : Respells entries others
  | again (front behind : List String) (entry : String) :
    Respells (front ++ entry :: behind) (front ++ entry :: entry :: behind)
  | blank (front behind : List String) {entry : String}
    (blank : ∀ c ∈ entry.toList, Text.isBlank c = true) :
    Respells (front ++ behind) (front ++ entry :: behind)
  | padded (front behind : List String) (entry : String) {left right : String}
    (blankLeft : ∀ c ∈ left.toList, Text.isBlank c = true)
    (blankRight : ∀ c ∈ right.toList, Text.isBlank c = true) :
    Respells (front ++ entry :: behind) (front ++ (left ++ entry ++ right) :: behind)
  | here (front behind : List String) {entry : String} (trimmed : Text.trim entry = entry)
    (n : Nat) :
    Respells (front ++ entry :: behind)
      (front ++ (String.join (List.replicate n "./") ++ entry) :: behind)
  | slashes (front behind : List String) {entry : String} (trimmed : Text.trim entry = entry)
    (n : Nat) :
    Respells (front ++ entry :: behind)
      (front ++ (entry ++ String.join (List.replicate n "/")) :: behind)

/-- Two spellings of one ignore list. -/
abbrev Respelled : List String → List String → Prop := Relation.EqvGen Respells

theorem Respells.any_eq {names : Location} (clean : Path.AreNames names)
    {entries others : List String} (respells : Respells entries others) :
    others.any (entryExcludes matcher (.ofNames names)) =
      entries.any (entryExcludes matcher (.ofNames names)) := by
  cases respells with
  | order same => exact same.symm.any_eq
  | again front behind entry => simp
  | blank front behind blank => simp [entryExcludes_blank matcher blank]
  | padded front behind entry blankLeft blankRight =>
    have same := Text.trim_padded blankLeft blankRight entry
    simp only [List.any_append, List.any_cons, entryExcludes_of_trim matcher _ same]
  | here front behind trimmed n =>
    simp only [List.any_append, List.any_cons, entryExcludes_here matcher _ n trimmed]
  | slashes front behind trimmed n =>
    simp only [List.any_append, List.any_cons, entryExcludes_slashes matcher clean n trimmed]

theorem Respelled.excludes_eq {names : Location} (clean : Path.AreNames names)
    {entries others : List String} (respelled : Respelled entries others) :
    (ofEntries others matcher).excludes (.ofNames names) =
      (ofEntries entries matcher).excludes (.ofNames names) := by
  rw [excludes_ofEntries, excludes_ofEntries]
  induction respelled with
  | rel _ _ step => exact step.any_eq matcher clean
  | refl _ => rfl
  | symm _ _ _ ih => exact ih.symm
  | trans _ _ _ _ _ first second => exact second.trans first

/-! ## Merged lists -/

/-- The trimmed entries of a list, without those that are blank. -/
def neat (entries : List String) : List String := (entries.map Text.trim).filter (· != "")

theorem merge_eq (first second : List String) :
    merge first second = Text.distinct (neat first ++ neat second) := by
  rw [merge, List.map_append, List.filter_append]
  rfl

theorem mem_neat {entries : List String} {e : String} :
    e ∈ neat entries ↔ e ≠ "" ∧ ∃ entry ∈ entries, Text.trim entry = e := by
  rw [neat, List.mem_filter, List.mem_map, bne_iff_ne, and_comm]

/-- What is neat already stays as it is. -/
theorem neat_eq_self {entries : List String}
    (tidy : ∀ e ∈ entries, e ≠ "" ∧ Text.trim e = e) : neat entries = entries := by
  have trimmed : entries.map Text.trim = entries :=
    (List.map_congr_left fun e member => (tidy e member).2).trans (List.map_id entries)
  rw [neat, trimmed, List.filter_eq_self]
  exact fun e member => bne_iff_ne.mpr (tidy e member).1

theorem mem_merge {first second : List String} {e : String} :
    e ∈ merge first second ↔ e ≠ "" ∧ ∃ entry ∈ first ++ second, Text.trim entry = e := by
  rw [merge, Text.mem_distinct]
  exact mem_neat

theorem neat_merge (first second : List String) :
    neat (merge first second) = merge first second := by
  refine neat_eq_self fun e member => ?_
  obtain ⟨filled, entry, _, rfl⟩ := mem_merge.mp member
  exact ⟨filled, Text.trim_trim entry⟩

theorem merge_assoc (first second third : List String) :
    merge (merge first second) third = merge first (merge second third) := by
  rw [merge_eq (merge first second), neat_merge, merge_eq first second,
    Text.distinct_distinct_append, merge_eq first (merge second third), neat_merge,
    merge_eq second third, Text.distinct_append_distinct, List.append_assoc]

/-- Merging two lists leaves alone what they exclude. -/
theorem excludes_merge (first second : List String) (p : Path) :
    (ofEntries (merge first second) matcher).excludes p =
      (ofEntries (first ++ second) matcher).excludes p := by
  have trimmed (entry : String) :
      entryExcludes matcher p (Text.trim entry) = entryExcludes matcher p entry :=
    entryExcludes_of_trim matcher p (Text.trim_trim entry)
  rw [excludes_ofEntries, excludes_ofEntries, Bool.eq_iff_iff, List.any_eq_true, List.any_eq_true]
  simp only [mem_merge]
  constructor
  · rintro ⟨_, ⟨-, entry, listed, rfl⟩, excluded⟩
    exact ⟨entry, listed, trimmed entry ▸ excluded⟩
  · rintro ⟨entry, listed, excluded⟩
    rw [← trimmed] at excluded
    refine ⟨_, ⟨?_, entry, listed, rfl⟩, excluded⟩
    -- An entry that trims to nothing excludes nothing.
    intro blank
    rw [blank] at excluded
    cases excluded

/-- What merging two lists makes of them: each of their entries without the blanks around it, at the
first place where it stands, and no blank ones. -/
structure Merges (first second merged : List String) : Prop where
  filled : ∀ e ∈ merged, e ≠ ""
  trimmed : ∀ e ∈ merged, ∀ c, e.toList.head? = some c ∨ e.toList.getLast? = some c →
    Text.isBlank c = false
  distinct : merged.Nodup
  places : Text.FirstPlaces (neat (first ++ second)) merged

theorem merges_merge (first second : List String) : Merges first second (merge first second) where
  filled e member := (mem_merge.mp member).1
  trimmed e member c ends := by
    obtain ⟨_, entry, _, rfl⟩ := mem_merge.mp member
    obtain ⟨first, last⟩ := Text.trim_eq_self_iff.mp (Text.trim_trim entry)
    exact ends.elim (first c) (last c)
  distinct := by
    have places := Text.firstPlaces_distinct (neat (first ++ second))
    refine places.ordered.imp ?_
    rintro a _ before rfl
    exact absurd before (Nat.lt_irrefl _)
  places := Text.firstPlaces_distinct (neat (first ++ second))

/-- Merging two ignore lists leaves alone which paths made of names they exclude, as does every
other spelling of them. What comes out is trimmed, without blank entries and repetitions, in the
order of first places, and it does not matter which two of three lists are merged first. -/
theorem merge_preserves (first second : List String) {names : Location}
    (clean : Path.AreNames names) :
    let excluded := fun entries => (ofEntries entries matcher).excludes ⟨Text.join "/" names⟩
    excluded (merge first second) = excluded (first ++ second) ∧
      (∀ entries, Respelled (first ++ second) entries →
        excluded entries = excluded (first ++ second)) ∧
      Merges first second (merge first second) ∧
      ∀ third, merge (merge first second) third = merge first (merge second third) := by
  intro excluded
  refine ⟨excludes_merge matcher first second _, ?_, merges_merge first second,
    merge_assoc first second⟩
  intro entries respelled
  exact respelled.excludes_eq matcher clean

/-- The single dot with and without a slash behind it, beside an entry that excludes the path. -/
theorem merge_preserves_dot :
    let excluded := fun entries => (ofEntries entries).excludes ⟨Text.join "/" ["lib", "vendor"]⟩
    Path.AreNames ["lib", "vendor"] ∧ Respelled ([" vendor/ "] ++ ["."]) [" vendor/ ", "./"] ∧
      excluded (merge [" vendor/ "] ["."]) = excluded [" vendor/ ", "."] ∧
      excluded [" vendor/ ", "./"] = true ∧
      Merges [" vendor/ "] ["."] (merge [" vendor/ "] ["."]) := by
  intro excluded
  have clean : Path.AreNames ["lib", "vendor"] := by decide
  have slashed : "." ++ String.join (List.replicate 1 "/") = "./" := by decide
  have respelled : Respelled ([" vendor/ "] ++ ["."]) [" vendor/ ", "./"] := by
    rw [← slashed]
    exact .rel _ _ (.slashes [" vendor/ "] [] (by decide) 1)
  obtain ⟨merged, spellings, merges, -⟩ := merge_preserves Glob.matcher? [" vendor/ "] ["."] clean
  exact ⟨clean, respelled, merged, (spellings _ respelled).trans (by decide), merges⟩

end IgnoreList
end LayerGuard
