import LayerGuard.Proofs.Text.Blank
import LayerGuard.Proofs.Text.Pattern
import LayerGuard.Source.Declaration

/-! # Which namespace a source declares

A source declares a namespace at a place where the word `namespace` has a blank behind it and a
semicolon further on, with two characters at least between the word and the first such semicolon.
The first of these places decides, even when nothing but blanks stands there. The same namespace is
what a search for the word, blanks, text without a semicolon and a semicolon finds. The blanks of
that pattern take all they can and may have to give one back, but whatever the split between them
and the text behind them, trimming leaves the same.
-/

namespace LayerGuard.Source

/-! ## Places -/

/-- A source declares the text between the word `namespace` at a place and the first semicolon
behind the word. -/
structure DeclaresAt (cs : List Char) (place : Nat) (text : List Char) : Prop where
  stands : ∃ before behind, cs = before ++ (declarationWord ++ (text ++ ';' :: behind)) ∧
    before.length = place
  unended : ';' ∉ text
  blank : ∃ c, text.head? = some c ∧ Text.isBlank c = true
  long : 2 ≤ text.length

/-- A source declares a text at a place and nothing at any place before. -/
def DeclaresFirstAt (cs : List Char) (place : Nat) (text : List Char) : Prop :=
  DeclaresAt cs place text ∧ ∀ before < place, ∀ other, ¬ DeclaresAt cs before other

theorem declaresAt_succ {c : Char} {cs : List Char} {place : Nat} {text : List Char} :
    DeclaresAt (c :: cs) (place + 1) text ↔ DeclaresAt cs place text := by
  constructor
  · rintro ⟨⟨before, behind, whole, length⟩, unended, blank, long⟩
    obtain ⟨d, before, rfl⟩ := List.exists_cons_of_length_eq_add_one length
    injection whole with _ whole
    exact ⟨⟨before, behind, whole, Nat.succ.inj length⟩, unended, blank, long⟩
  · rintro ⟨⟨before, behind, rfl, rfl⟩, unended, blank, long⟩
    exact ⟨⟨c :: before, behind, rfl, rfl⟩, unended, blank, long⟩

theorem not_declaresAt_nil (place : Nat) (text : List Char) : ¬ DeclaresAt [] place text := by
  rintro ⟨⟨before, behind, whole, _⟩, _⟩
  have length := congrArg List.length whole
  simp only [List.length_append, List.length_cons, List.length_nil] at length
  omega

/-- The text up to the first semicolon, if there is one. -/
theorem takeWhile_eq_iff {cs text : List Char} :
    (cs.takeWhile (· != ';') = text ∧ text.length < cs.length) ↔
      ';' ∉ text ∧ ∃ behind, cs = text ++ ';' :: behind := by
  constructor
  · rintro ⟨rfl, shorter⟩
    have free : ';' ∉ cs.takeWhile (· != ';') := by
      intro member
      have other := List.all_eq_true.mp List.all_takeWhile _ member
      simp at other
    refine ⟨free, ?_⟩
    have whole := List.takeWhile_append_dropWhile (p := (· != ';')) (l := cs)
    have stops := List.head?_dropWhile_not (· != ';') cs
    cases tail : cs.dropWhile (· != ';') with
    | nil =>
      rw [tail, List.append_nil] at whole
      rw [whole] at shorter
      exact (Nat.lt_irrefl _ shorter).elim
    | cons c behind =>
      rw [tail] at whole stops
      obtain rfl : c = ';' := by simpa using stops
      exact ⟨behind, whole.symm⟩
  · rintro ⟨free, behind, rfl⟩
    have inside : ∀ c ∈ text, (c != ';') = true := by
      intro c member
      rw [bne_iff_ne]
      rintro rfl
      exact free member
    rw [List.takeWhile_append_of_pos inside]
    simp

/-- A suitable word at the front of a text is a place at which it declares something. -/
theorem declarationText?_eq_some_iff {cs text : List Char} :
    declarationText? cs = some text ↔ DeclaresAt cs 0 text := by
  rw [declarationText?]
  constructor
  · intro found
    split at found
    · next begins =>
      obtain ⟨rest, rfl⟩ := List.isPrefixOf_iff_prefix.mp begins
      simp only [List.drop_left] at found
      split at found
      · next suitable =>
        cases found
        simp only [Bool.and_eq_true, decide_eq_true_eq] at suitable
        obtain ⟨⟨blank, shorter⟩, long⟩ := suitable
        obtain ⟨free, behind, whole⟩ := takeWhile_eq_iff.mp ⟨rfl, shorter⟩
        generalize rest.takeWhile (· != ';') = text at *
        subst whole
        refine ⟨⟨[], behind, rfl, rfl⟩, free, ?_, long⟩
        cases text with
        | nil => simp at long
        | cons c text => exact ⟨c, rfl, by simpa using blank⟩
      · cases found
    · cases found
  · rintro ⟨⟨before, behind, rfl, none⟩, free, ⟨c, first, blank⟩, long⟩
    obtain rfl := List.eq_nil_of_length_eq_zero none
    obtain ⟨body, shorter⟩ := takeWhile_eq_iff.mpr ⟨free, behind, rfl⟩
    have begins : declarationWord.isPrefixOf (declarationWord ++ (text ++ ';' :: behind)) = true :=
      List.isPrefixOf_iff_prefix.mpr (List.prefix_append _ _)
    have blank' : (text ++ ';' :: behind).head?.any Text.isBlank = true := by
      rw [List.head?_append, first]
      exact blank
    simp only [List.nil_append, begins, ↓reduceIte, List.drop_left, body, blank', shorter, long,
      decide_true, Bool.and_self]

theorem declarationText?_eq_none_iff {cs : List Char} :
    declarationText? cs = none ↔ ∀ text, ¬ DeclaresAt cs 0 text := by
  simp only [Option.eq_none_iff_forall_ne_some, ne_eq, declarationText?_eq_some_iff]

/-- Whether something is declared at a place can be computed. -/
theorem declaresAt_iff {cs : List Char} {place : Nat} {text : List Char} :
    DeclaresAt cs place text ↔ declarationText? (cs.drop place) = some text := by
  induction place generalizing cs with
  | zero => exact declarationText?_eq_some_iff.symm
  | succ place ih =>
    cases cs with
    | nil =>
      rw [List.drop_nil, declarationText?_eq_some_iff]
      exact iff_of_false (not_declaresAt_nil _ _) (not_declaresAt_nil _ _)
    | cons c cs => exact declaresAt_succ.trans ih

theorem firstDeclaration?_eq_none {cs : List Char}
    (nowhere : ∀ place text, ¬ DeclaresAt cs place text) : firstDeclaration? cs = none := by
  induction cs with
  | nil => rfl
  | cons c cs ih =>
    have behind := ih fun place text here => nowhere (place + 1) text (declaresAt_succ.mpr here)
    rw [firstDeclaration?, declarationText?_eq_none_iff.mpr (nowhere 0)]
    exact behind

/-- What is found is declared at the first place. -/
theorem DeclaresFirstAt.firstDeclaration? {cs : List Char} {place : Nat} {text : List Char}
    (first : DeclaresFirstAt cs place text) : firstDeclaration? cs = some text := by
  induction cs generalizing place with
  | nil => exact (not_declaresAt_nil _ _ first.1).elim
  | cons c cs ih =>
    rw [Source.firstDeclaration?]
    cases place with
    | zero => rw [declarationText?_eq_some_iff.mpr first.1]
    | succ place =>
      rw [declarationText?_eq_none_iff.mpr (first.2 0 (Nat.succ_pos _))]
      have behind : DeclaresFirstAt cs place text := by
        refine ⟨declaresAt_succ.mp first.1, fun before earlier other here => ?_⟩
        exact first.2 (before + 1) (Nat.succ_lt_succ earlier) other (declaresAt_succ.mpr here)
      exact ih behind

/-! ## The search for a declaration -/

/-- The word `namespace`, blanks, text without a semicolon, which is kept, and a semicolon. -/
def declarationPattern : Text.Pattern :=
  .seq (.word declarationWord)
    (.seq (.many Text.isBlank) (.seq (.group (.many (· != ';'))) (.one (· == ';'))))

open Text.Pattern in
/-- The ways to match the pattern differ in how the text up to the semicolon is split into blanks
and what is kept, with a character at least on each side. -/
theorem mem_ways_declarationPattern {cs : List Char} {way : Text.Way} :
    way ∈ declarationPattern.ways cs ↔
      ∃ blanks kept rest, cs = declarationWord ++ (blanks ++ (kept ++ ';' :: rest)) ∧
        (blanks ≠ [] ∧ ∀ c ∈ blanks, Text.isBlank c = true) ∧
        (kept ≠ [] ∧ ∀ c ∈ kept, (c != ';') = true) ∧
        way = ⟨declarationWord ++ (blanks ++ (kept ++ [';'])), some kept, rest⟩ := by
  constructor
  · intro found
    obtain ⟨_, word, _, behindWord, rfl⟩ := mem_ways_seq.mp found
    obtain ⟨_, rfl, rfl⟩ := mem_ways_word.mp word
    obtain ⟨_, blank, _, behindBlanks, rfl⟩ := mem_ways_seq.mp behindWord
    obtain ⟨blanks, _, rfl, filled, allBlank, rfl⟩ := mem_ways_many.mp blank
    obtain ⟨_, group, _, last, rfl⟩ := mem_ways_seq.mp behindBlanks
    obtain ⟨_, text, rfl⟩ := mem_ways_group.mp group
    obtain ⟨kept, _, rfl, nonempty, free, rfl⟩ := mem_ways_many.mp text
    obtain ⟨c, rest, rfl, semicolon, rfl⟩ := mem_ways_one.mp last
    obtain rfl := beq_iff_eq.mp semicolon
    exact ⟨blanks, kept, rest, rfl, ⟨filled, allBlank⟩, ⟨nonempty, free⟩, rfl⟩
  · rintro ⟨blanks, kept, rest, rfl, ⟨filled, allBlank⟩, ⟨nonempty, free⟩, rfl⟩
    have word : _ ∈ (word declarationWord).ways _ :=
      mem_ways_word.mpr ⟨blanks ++ (kept ++ ';' :: rest), rfl, rfl⟩
    have blank := mem_ways_many.mpr ⟨blanks, kept ++ ';' :: rest, rfl, filled, allBlank, rfl⟩
    have group := mem_ways_group.mpr
      ⟨_, mem_ways_many.mpr ⟨kept, ';' :: rest, rfl, nonempty, free, rfl⟩, rfl⟩
    have last : _ ∈ (one (· == ';')).ways _ := mem_ways_one.mpr ⟨';', rest, rfl, rfl, rfl⟩
    have behindBlanks := mem_ways_seq.mpr ⟨_, group, _, last, rfl⟩
    have behindWord := mem_ways_seq.mpr ⟨_, blank, _, behindBlanks, rfl⟩
    exact mem_ways_seq.mpr ⟨_, word, _, behindWord, rfl⟩

/-- Every way to match the pattern splits the declared text into blanks and what is kept. -/
theorem kept_of_mem_ways {cs : List Char} {way : Text.Way}
    (found : way ∈ declarationPattern.ways cs) :
    ∃ blanks kept, DeclaresAt cs 0 (blanks ++ kept) ∧ (∀ c ∈ blanks, Text.isBlank c = true) ∧
      way.kept? = some kept := by
  obtain ⟨blanks, kept, rest, rfl, ⟨filled, allBlank⟩, ⟨nonempty, free⟩, rfl⟩ :=
    mem_ways_declarationPattern.mp found
  obtain ⟨c, blanks, rfl⟩ := List.exists_cons_of_ne_nil filled
  have unended : ';' ∉ c :: blanks ++ kept := by
    rw [List.mem_append]
    rintro (inside | inside)
    · exact absurd (allBlank _ inside) (by decide)
    · exact absurd (free _ inside) (by decide)
  have long : 2 ≤ (c :: blanks ++ kept).length := by
    have positive := List.length_pos_iff.mpr nonempty
    rw [List.length_append, List.length_cons]
    omega
  have blank := allBlank c (List.mem_cons_self ..)
  refine ⟨c :: blanks, kept, ?_, allBlank, rfl⟩
  exact ⟨⟨[], rest, by simp, rfl⟩, unended, ⟨c, rfl, blank⟩, long⟩

/-- Where something is declared the pattern matches, for one blank is enough. -/
theorem DeclaresAt.ways_ne_nil {cs text : List Char} (declares : DeclaresAt cs 0 text) :
    declarationPattern.ways cs ≠ [] := by
  obtain ⟨⟨before, behind, rfl, none⟩, free, ⟨c, first, blank⟩, long⟩ := declares
  obtain rfl := List.eq_nil_of_length_eq_zero none
  cases text with
  | nil => cases first
  | cons d text =>
    cases first
    have kept : text ≠ [] := by
      rintro rfl
      simp at long
    have unended : ∀ d ∈ text, (d != ';') = true := by
      intro d member
      rw [bne_iff_ne]
      rintro rfl
      exact free (List.mem_cons_of_mem _ member)
    exact List.ne_nil_of_mem (mem_ways_declarationPattern.mpr
      ⟨[c], text, behind, rfl, ⟨by simp, by simpa using blank⟩, ⟨kept, unended⟩, rfl⟩)

/-- The search stops at the place that the declaration is found at, and what it keeps is the
declared text but for blanks. -/
theorem search?_declarationPattern (cs : List Char) :
    ((declarationPattern.search? cs).bind (·.kept?)).map (Text.trimEnds Text.isBlank) =
      (firstDeclaration? cs).map (Text.trimEnds Text.isBlank) := by
  induction cs with
  | nil => decide
  | cons c cs ih =>
    rw [Text.Pattern.search?, firstDeclaration?]
    cases here : declarationText? (c :: cs) with
    | none =>
      have nowhere : declarationPattern.ways (c :: cs) = [] := by
        rw [List.eq_nil_iff_forall_not_mem]
        intro way found
        obtain ⟨blanks, kept, declares, _⟩ := kept_of_mem_ways found
        exact declarationText?_eq_none_iff.mp here _ declares
      rw [nowhere]
      exact ih
    | some text =>
      have declares := declarationText?_eq_some_iff.mp here
      obtain ⟨way, ways, preferred⟩ := List.exists_cons_of_ne_nil declares.ways_ne_nil
      obtain ⟨blanks, kept, declares', allBlank, keeps⟩ :=
        kept_of_mem_ways (preferred ▸ List.mem_cons_self ..)
      have same : text = blanks ++ kept :=
        Option.some.inj (here.symm.trans (declarationText?_eq_some_iff.mpr declares'))
      rw [preferred]
      simp [keeps, same, Text.trimEnds, List.dropWhile_append_of_pos allBlank]

/-! ## The declared namespace -/

theorem declaredNamespace_eq (source : String) :
    declaredNamespace source =
      ((firstDeclaration? source.toList).map (Text.trimEnds Text.isBlank)).bind fun name =>
        if name = [] then none else some (String.ofList name) := by
  rw [declaredNamespace]
  cases firstDeclaration? source.toList with
  | none => rfl
  | some body => simp

/-- A source declares nothing if there is no place for it. Otherwise it declares what is left of the
text at the first place when the blanks at its ends are gone, if anything is left. That is what the
search for the pattern keeps, trimmed. -/
theorem declaredNamespace_decides (source : String) :
    ((∀ place text, ¬ DeclaresAt source.toList place text) → declaredNamespace source = none) ∧
      (∀ place text, DeclaresFirstAt source.toList place text →
        ∃ name, Text.TrimsTo Text.isBlank text name ∧
          declaredNamespace source = if name = [] then none else some (String.ofList name)) ∧
      ∀ declared, declaredNamespace source = some declared ↔
        ∃ way kept name, declarationPattern.search? source.toList = some way ∧
          way.kept? = some kept ∧ Text.TrimsTo Text.isBlank kept name ∧ name ≠ [] ∧
          declared = String.ofList name := by
  refine ⟨fun nowhere => ?_, fun place text first => ?_, fun declared => ?_⟩
  · rw [declaredNamespace_eq, firstDeclaration?_eq_none nowhere]
    rfl
  · refine ⟨_, Text.trimsTo_trimEnds Text.isBlank text, ?_⟩
    rw [declaredNamespace_eq, first.firstDeclaration?]
    rfl
  · rw [declaredNamespace_eq, ← search?_declarationPattern]
    constructor
    · intro found
      obtain ⟨name, kept, left⟩ := Option.bind_eq_some_iff.mp found
      obtain ⟨text, keeps, rfl⟩ := Option.map_eq_some_iff.mp kept
      obtain ⟨way, searched, keeps⟩ := Option.bind_eq_some_iff.mp keeps
      split at left
      · cases left
      · next filled =>
        cases left
        exact ⟨way, text, _, searched, keeps, Text.trimsTo_trimEnds _ _, filled, rfl⟩
    · rintro ⟨way, text, name, searched, keeps, trims, filled, rfl⟩
      obtain rfl := trims.eq_trimEnds
      simp [searched, keeps, filled]

/-- A word with one character behind it is no place. In the second source the first word is such a
one, the second word is part of another and decides, and the third one is not tried; one of the
blanks is no ASCII character. In the last source only blanks stand at the place that decides. -/
theorem declaredNamespace_decides_embedded :
    declaredNamespace "namespace ;" = none ∧
      DeclaresFirstAt "namespace ;xnamespace \u00A0A\\B\n;namespace C;".toList 12
        " \u00A0A\\B\n".toList ∧
      declaredNamespace "namespace ;xnamespace \u00A0A\\B\n;namespace C;" = some "A\\B" ∧
      DeclaresFirstAt "namespace  ;namespace C;".toList 0 "  ".toList ∧
      declaredNamespace "namespace  ;namespace C;" = none := by
  have nowhere : ∀ place text, ¬ DeclaresAt "namespace ;".toList place text := by
    rintro place text ⟨⟨before, behind, whole, _⟩, _, _, long⟩
    have length := congrArg List.length whole
    have source : "namespace ;".toList.length = 11 := by decide
    have word : declarationWord.length = 9 := by decide
    simp only [List.length_append, List.length_cons] at length
    omega
  have first : DeclaresFirstAt "namespace ;xnamespace \u00A0A\\B\n;namespace C;".toList 12
      " \u00A0A\\B\n".toList := by
    simp only [DeclaresFirstAt, declaresAt_iff]
    have earlier : ∀ place < 12, declarationText?
        ("namespace ;xnamespace \u00A0A\\B\n;namespace C;".toList.drop place) = none := by decide
    refine ⟨by decide, fun place before other => ?_⟩
    rw [earlier place before]
    exact nofun
  have blank : DeclaresFirstAt "namespace  ;namespace C;".toList 0 "  ".toList :=
    ⟨declaresAt_iff.mpr (by decide), fun place before => (Nat.not_lt_zero place before).elim⟩
  obtain ⟨name, trims, found⟩ := (declaredNamespace_decides _).2.1 _ _ first
  obtain ⟨name', trims', found'⟩ := (declaredNamespace_decides _).2.1 _ _ blank
  refine ⟨(declaredNamespace_decides _).1 nowhere, first, ?_, blank, ?_⟩
  · rw [found, trims.eq_trimEnds]
    decide
  · rw [found', trims'.eq_trimEnds]
    decide

end LayerGuard.Source
