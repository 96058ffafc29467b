import LayerGuard.Analyzer
import LayerGuard.Proofs.Source.Boundary
import LayerGuard.Proofs.Source.Declaration
import LayerGuard.Proofs.Source.NameText
import LayerGuard.Proofs.Source.Tags

/-! # The declaration that opens a source

A declaration at the front of a source is read twice. The scanner passes over it and records
nothing, and what it finds behind the semicolon is what it finds behind the white space alone. The
namespace is looked for in the text, where the keyword has to stand in small letters, while to the
scanner it is the keyword in every letter case. So the two readings agree for small letters. In any
other letter case the scanner leaves the name out and the text does not declare it: the source then
declares what the text behind the semicolon declares.
-/

namespace LayerGuard.Source

/-- The characters of white space between tokens. -/
def spaces : List Char := [' ', '\t', '\n', '\x0C', '\r']

/-- A text of white space only. -/
def IsSpacing (text : String) : Prop := ∀ c ∈ text.toList, c ∈ spaces

instance (text : String) : Decidable (IsSpacing text) := List.decidableBAll (· ∈ spaces) text.toList

/-- A declaration as it may open a source: the keyword in some letter case and a name of ASCII
characters, with white space around them. -/
structure Opening where
  front : String
  word : String
  gap : String
  name : String
  trail : String
  spacedFront : IsSpacing front
  keyword : isNamespaceWord (Text.bytesOf word) = true
  spacedGap : IsSpacing gap
  gapped : gap ≠ ""
  named : IsName name
  plain : ∀ c ∈ name.toList, c.toNat < 128
  spacedTrail : IsSpacing trail

namespace Opening

/-- The text of a source through the declaration that opens it. -/
def text (o : Opening) : String :=
  "<?php" ++ o.front ++ o.word ++ o.gap ++ o.name ++ o.trail ++ ";"

/-- The same text without the keyword and the name. -/
def bareText (o : Opening) : String := "<?php" ++ o.front ++ o.gap ++ o.trail ++ ";"

end Opening

/-! ## What the scanner does -/

theorem isSpace_of_isSpacing {text : String} (spacing : IsSpacing text) :
    ∀ b ∈ Text.bytesOf text, isSpace b = true := by
  have table : (spaces.all fun c => (String.utf8EncodeChar c).all isSpace) = true := by decide
  intro b member
  obtain ⟨c, inside, written⟩ := List.mem_flatMap.mp member
  exact List.all_eq_true.mp (List.all_eq_true.mp table c (spacing c inside)) b written

theorem isLabelStart_of_lower {b : UInt8} (starts : isLabelStart (lower b) = true) :
    isLabelStart b = true := by
  rw [lower] at starts
  split at starts
  · next capital => rw [isLabelStart, isLetter, capital, Bool.or_true]; rfl
  · exact starts

/-- The keyword is a label in every letter case. -/
theorem exists_keyword {bytes : List UInt8} (keyword : isNamespaceWord bytes = true) :
    ∃ word : Label, bytes = word.bytes ∧ word.isKeyword = true := by
  have letters : ∀ b ∈ bytes, isLabelStart b = true := by
    intro b member
    have listed : lower b ∈ namespaceWord := beq_iff_eq.mp keyword ▸ List.mem_map_of_mem member
    have table : namespaceWord.all isLabelStart = true := by decide
    exact isLabelStart_of_lower (List.all_eq_true.mp table _ listed)
  cases bytes with
  | nil => contradiction
  | cons b bytes =>
    refine ⟨⟨b, bytes, letters b (List.mem_cons_self ..), fun c member => ?_⟩, rfl, keyword⟩
    exact isLabelByte_of_start (letters c (List.mem_cons_of_mem _ member))

namespace Cursor

theorem run_spacing (c : Cursor) (code : c.state.mode = .code) {text : List UInt8}
    (spacing : ∀ b ∈ text, isSpace b = true) (rest : List UInt8) :
    c.run (text ++ rest) = (c.skip c.state text).run rest := by
  induction text generalizing c with
  | nil => rfl
  | cons b text ih =>
    have moves : c.state.move b (text ++ rest) = c.state.pass 0 := by
      rw [State.move_of_code code, State.codeMove_space _ _ (spacing b (List.mem_cons_self ..))]
    have behind := ih (c.skip c.state [b]) code fun d member =>
      spacing d (List.mem_cons_of_mem _ member)
    rw [List.cons_append, Cursor.run_byte moves, behind, Cursor.skip_skip]
    rfl

/-- The keyword opens a declaration, and a name in an open declaration leaves no trace. -/
theorem run_declaration {c : Cursor} {isOpen : Bool} (state : c.state = ⟨.code, [], isOpen, false⟩)
    (first : Label) (more : List Label) {rest : List UInt8} (ends : nameBytes rest = [])
    (declares : isOpen = true ∨ first.isKeyword = true ∧ more = []) :
    c.run (joinLabels first more ++ rest) =
      (c.skip ⟨.code, [], true, false⟩ (joinLabels first more)).run rest := by
  have moves : c.state.move first.first ((joinLabels first more).tail ++ rest) =
      State.pass ⟨.code, [], true, false⟩ (joinLabels first more).tail.length := by
    rw [state, State.move_of_code rfl]
    refine (Reading.codeMove_joinLabels ⟨isOpen, false, 0, 0⟩ [] first more ends).trans ?_
    rcases declares with rfl | ⟨keyword, rfl⟩
    · simp [State.pass]
    · simp [State.pass, keyword]
  exact Cursor.run_pass _ moves rfl

theorem run_semicolon {c : Cursor} {isOpen : Bool} (state : c.state = ⟨.code, [], isOpen, false⟩)
    (rest : List UInt8) :
    c.run (ascii ';' :: rest) = (c.skip ⟨.code, [], false, false⟩ [ascii ';']).run rest := by
  refine Cursor.run_byte ?_
  rw [state, State.move_of_code rfl, State.codeMove_semicolon]

theorem run_tag (rest : List UInt8) :
    Cursor.start.run (Text.bytesOf "<?php" ++ rest) =
      (Cursor.start.skip ⟨.code, [], false, false⟩ (Text.bytesOf "<?php")).run rest := by
  have bytes : Text.bytesOf "<?php" = ascii '<' :: "?php".toList.map ascii := by decide
  have tag : openTagLength? (ascii '<' :: ("?php".toList.map ascii ++ rest)) = some 5 := rfl
  have moves : Cursor.start.state.move (ascii '<') ("?php".toList.map ascii ++ rest) =
      State.pass ⟨.code, [], false, false⟩ 4 := by
    simp only [Cursor.start, State.initial, State.move, State.outsideMove, tag]
  rw [bytes]
  exact Cursor.run_pass _ moves rfl

end Cursor

theorem nameBytes_of_space {b : UInt8} (space : isSpace b = true) (rest : List UInt8) :
    nameBytes (b :: rest) = [] := by
  apply nameBytes_of_stop
  simp only [isSpace, Bool.or_eq_true, beq_iff_eq] at space
  rcases space with (((rfl | rfl) | rfl) | rfl) | rfl <;> rfl

/-- White space ends a name, and an empty one leaves that to what follows. -/
theorem nameBytes_spacing {text rest : List UInt8} (spacing : ∀ b ∈ text, isSpace b = true)
    (ends : text = [] → nameBytes rest = []) : nameBytes (text ++ rest) = [] := by
  cases text with
  | nil => exact ends rfl
  | cons b text => exact nameBytes_of_space (spacing b (List.mem_cons_self ..)) (text ++ rest)

namespace Opening

variable (o : Opening)

/-- The bytes of the text, with the keyword as a label and the name as labels. -/
theorem bytesOf_text {word first : Label} {more : List Label}
    (keyword : Text.bytesOf o.word = word.bytes)
    (named : Text.bytesOf o.name = joinLabels first more) :
    Text.bytesOf o.text = Text.bytesOf "<?php" ++ (Text.bytesOf o.front ++ (joinLabels word [] ++
      (Text.bytesOf o.gap ++ (joinLabels first more ++
        (Text.bytesOf o.trail ++ [ascii ';']))))) := by
  have semicolon : Text.bytesOf ";" = [ascii ';'] := rfl
  change Text.bytesOf
    ("<?php" ++ o.front ++ o.word ++ o.gap ++ o.name ++ o.trail ++ ";") = _
  simp only [Text.bytesOf_append, List.append_assoc, keyword, named, semicolon, joinLabels_nil]

theorem bytesOf_bareText :
    Text.bytesOf o.bareText = Text.bytesOf "<?php" ++ (Text.bytesOf o.front ++
      (Text.bytesOf o.gap ++ (Text.bytesOf o.trail ++ [ascii ';']))) := by
  have semicolon : Text.bytesOf ";" = [ascii ';'] := rfl
  change Text.bytesOf ("<?php" ++ o.front ++ o.gap ++ o.trail ++ ";") = _
  simp only [Text.bytesOf_append, List.append_assoc, semicolon]

/-- Behind the declaration nothing is left open and nothing is recorded. -/
theorem run_text (rest : List UInt8) :
    Cursor.start.run (Text.bytesOf o.text ++ rest) =
      (Cursor.start.skip ⟨.code, [], false, false⟩ (Text.bytesOf o.text)).run rest := by
  obtain ⟨word, wordBytes, keyword⟩ := exists_keyword o.keyword
  obtain ⟨first, more, named⟩ := o.named
  have gapped : Text.bytesOf o.gap ≠ [] := fun none => o.gapped (Text.bytesOf_injective none)
  have front := isSpace_of_isSpacing o.spacedFront
  have gap := isSpace_of_isSpacing o.spacedGap
  have trail := isSpace_of_isSpacing o.spacedTrail
  rw [o.bytesOf_text wordBytes named]
  simp only [List.append_assoc]
  rw [Cursor.run_tag, Cursor.run_spacing _ rfl front,
    Cursor.run_declaration rfl word [] _ (.inr ⟨keyword, rfl⟩), Cursor.run_spacing _ rfl gap,
    Cursor.run_declaration rfl first more _ (.inl rfl), Cursor.run_spacing _ rfl trail,
    List.cons_append, Cursor.run_semicolon rfl]
  · simp only [Cursor.skip_skip, List.append_assoc, List.nil_append]
  · exact nameBytes_spacing trail fun _ => nameBytes_of_stop rfl
  · exact nameBytes_spacing gap fun none => absurd none gapped

/-- White space in the place of the declaration leaves the same. -/
theorem run_bareText (rest : List UInt8) :
    Cursor.start.run (Text.bytesOf o.bareText ++ rest) =
      (Cursor.start.skip ⟨.code, [], false, false⟩ (Text.bytesOf o.bareText)).run rest := by
  have front := isSpace_of_isSpacing o.spacedFront
  have gap := isSpace_of_isSpacing o.spacedGap
  have trail := isSpace_of_isSpacing o.spacedTrail
  rw [o.bytesOf_bareText]
  simp only [List.append_assoc]
  rw [Cursor.run_tag, Cursor.run_spacing _ rfl front, Cursor.run_spacing _ rfl gap,
    Cursor.run_spacing _ rfl trail, List.cons_append, Cursor.run_semicolon rfl]
  simp only [Cursor.skip_skip, List.append_assoc, List.nil_append]

/-- Neither the keyword nor the name has a line feed. -/
theorem lineFeeds_text : lineFeeds (Text.bytesOf o.text) = lineFeeds (Text.bytesOf o.bareText) := by
  obtain ⟨word, wordBytes, keyword⟩ := exists_keyword o.keyword
  obtain ⟨first, more, named⟩ := o.named
  have oneLine (first : Label) (more : List Label) : lineFeeds (joinLabels first more) = 0 := by
    apply List.count_eq_zero_of_not_mem
    intro member
    rcases isLabelByte_or_separator_of_mem member with inside | same
    · contradiction
    · contradiction
  rw [o.bytesOf_text wordBytes named, o.bytesOf_bareText]
  simp only [lineFeeds_append, oneLine, Nat.zero_add]

end Opening

/-- Behind texts that leave the scanner in one state and on one line the same is recorded. -/
theorem references_eq_of_skip {front front' : String} {state : State} (rest : String)
    (run : ∀ rest, Cursor.start.run (Text.bytesOf front ++ rest) =
      (Cursor.start.skip state (Text.bytesOf front)).run rest)
    (run' : ∀ rest, Cursor.start.run (Text.bytesOf front' ++ rest) =
      (Cursor.start.skip state (Text.bytesOf front')).run rest)
    (lines : lineFeeds (Text.bytesOf front) = lineFeeds (Text.bytesOf front')) :
    references (front ++ rest) = references (front' ++ rest) := by
  have behind {passed : List UInt8} (runs : ∀ rest, Cursor.start.run (passed ++ rest) =
      (Cursor.start.skip state passed).run rest) :
      (occurrences (passed ++ Text.bytesOf rest)).map Occurrence.toReference =
        ((Cursor.run ⟨state, 0, 1, []⟩ (Text.bytesOf rest)).found.reverse.map
          Occurrence.toReference).map (Reference.below (lineFeeds passed)) := by
    have shifted : Cursor.start.skip state passed = Cursor.below ⟨state, 0, 1, []⟩ passed [] := by
      simp [Cursor.skip, Cursor.start, Cursor.below, Nat.add_comm]
    rw [occurrences, runs, shifted, Cursor.run_below, ← map_toReference_below]
    simp [Cursor.below]
  rw [references, references, Text.bytesOf_append, Text.bytesOf_append, behind run, behind run',
    lines]

theorem Opening.references_text (o : Opening) (rest : String) :
    references (o.text ++ rest) = references (o.bareText ++ rest) :=
  references_eq_of_skip rest o.run_text o.run_bareText o.lineFeeds_text

/-! ## What the text declares -/

/-- Nothing is declared at the front of a run of characters that are not blank, unless the run is
the keyword: where it ends the keyword cannot go on, and a blank has to follow the keyword. -/
theorem declarationText?_run {run behind : List Char} (solid : ∀ c ∈ run, Text.isBlank c = false)
    (parted : ∀ c, behind.head? = some c → c ∉ declarationWord) (other : run ≠ declarationWord) :
    declarationText? (run ++ behind) = none := by
  rw [declarationText?_eq_none_iff]
  rintro text ⟨⟨before, rest, whole, none⟩, _, ⟨c, first, blank⟩, _⟩
  obtain rfl := List.eq_nil_of_length_eq_zero none
  have inside : declarationWord <+: run := by
    have begins : declarationWord <+: run ++ behind := whole ▸ List.prefix_append _ _
    cases behind with
    | nil => rwa [List.append_nil] at begins
    | cons d behind => exact prefix_of_foreign (parted d rfl) begins
  obtain ⟨more, rfl⟩ := inside
  cases more with
  | nil => exact other (List.append_nil _)
  | cons d more =>
    rw [List.nil_append, List.append_assoc, List.append_cancel_left_eq, List.cons_append] at whole
    cases text with
    | nil => cases first
    | cons e text =>
      cases first
      obtain rfl : d = c := (List.cons.inj whole).1
      have unblank := solid d (by simp)
      rw [blank] at unblank
      contradiction

/-- The first declaration in a text that begins with such a run is at its end or behind it. -/
theorem firstDeclaration?_run {run behind : List Char} (solid : ∀ c ∈ run, Text.isBlank c = false)
    (parted : ∀ c, behind.head? = some c → c ∉ declarationWord) :
    firstDeclaration? (run ++ behind) =
      (if declarationWord <:+ run then declarationText? (declarationWord ++ behind) else none).or
        (firstDeclaration? behind) := by
  induction run with
  | nil =>
    rw [if_neg (by decide)]
    rfl
  | cons c run ih =>
    have rest := ih fun d member => solid d (List.mem_cons_of_mem _ member)
    rw [List.cons_append, firstDeclaration?, ← List.cons_append]
    by_cases whole : c :: run = declarationWord
    · have short : ¬ declarationWord <:+ run := by
        intro ends
        have length := ends.length_le
        rw [← whole, List.length_cons] at length
        omega
      rw [rest, if_neg short, whole, if_pos (List.suffix_refl _), Option.none_or]
      cases declarationText? (declarationWord ++ behind) <;> rfl
    · have ends : declarationWord <:+ c :: run ↔ declarationWord <:+ run := by
        rw [List.suffix_cons_iff, or_iff_right (Ne.symm whole)]
      rw [declarationText?_run solid parted whole, rest]
      simp only [ends]

/-- Characters with which the keyword does not begin declare nothing. -/
theorem firstDeclaration?_skip {front : List Char} (absent : 'n' ∉ front) (behind : List Char) :
    firstDeclaration? (front ++ behind) = firstDeclaration? behind := by
  induction front with
  | nil => rfl
  | cons c front ih =>
    rw [List.mem_cons, not_or] at absent
    obtain ⟨other, absent⟩ := absent
    have none : declarationText? (c :: (front ++ behind)) = none := by
      have begins : ¬ declarationWord.isPrefixOf (c :: (front ++ behind)) = true := by
        rw [List.isPrefixOf_iff_prefix]
        intro begins
        exact other (List.cons_prefix_cons.mp begins).1
      rw [declarationText?, if_neg begins]
    rw [List.cons_append, firstDeclaration?, none]
    exact ih absent

/-- The keyword declares the text up to the semicolon if that begins with a blank and is long
enough. -/
theorem declarationText?_word {text : List Char} (unended : ';' ∉ text)
    (blank : ∀ c, text.head? = some c → Text.isBlank c = true) (rest : List Char) :
    declarationText? (declarationWord ++ (text ++ ';' :: rest)) =
      if 2 ≤ text.length then some text else none := by
  have begins : declarationWord.isPrefixOf (declarationWord ++ (text ++ ';' :: rest)) = true :=
    List.isPrefixOf_iff_prefix.mpr (List.prefix_append _ _)
  obtain ⟨body, shorter⟩ := takeWhile_eq_iff.mpr ⟨unended, rest, rfl⟩
  rw [declarationText?, if_pos begins]
  simp only [List.drop_left, body, shorter, decide_true, Bool.and_true, Bool.and_eq_true,
    decide_eq_true_eq]
  cases text with
  | nil => simp
  | cons c text => simp [blank c rfl]

/-- A name of ASCII characters has no blank in it. -/
theorem IsName.isBlank_eq_false {name : String} (isName : IsName name)
    (plain : ∀ c ∈ name.toList, c.toNat < 128) : ∀ c ∈ name.toList, Text.isBlank c = false := by
  intro c member
  rw [← Bool.not_eq_true]
  intro blank
  have low := plain c member
  have codes : c.toNat ∈ [9, 10, 11, 12, 13, 32] := by
    simp [Text.isBlank] at blank
    simp
    omega
  have table : ([9, 10, 11, 12, 13, 32].all fun n =>
      !isLabelByte (UInt8.ofNat n) && UInt8.ofNat n != separator) = true := by decide
  have outside := List.all_eq_true.mp table _ codes
  rw [Bool.and_eq_true, Bool.not_eq_true', bne_iff_ne] at outside
  exact isName.not_mem low outside.1 outside.2 member

namespace IsSpacing

variable {text : String} (spacing : IsSpacing text)

include spacing

theorem not_mem {c : Char} (outside : c ∉ spaces) : c ∉ text.toList := fun inside =>
  outside (spacing c inside)

theorem isBlank : ∀ c ∈ text.toList, Text.isBlank c = true := by
  have table : spaces.all Text.isBlank = true := by decide
  exact fun c inside => List.all_eq_true.mp table c (spacing c inside)

/-- White space ends the keyword, and an empty one leaves that to what follows. -/
theorem parted {behind : List Char}
    (ends : text = "" → ∀ c, behind.head? = some c → c ∉ declarationWord) :
    ∀ c, (text.toList ++ behind).head? = some c → c ∉ declarationWord := by
  intro c first
  cases chars : text.toList with
  | nil =>
    rw [chars, List.nil_append] at first
    exact ends (String.toList_eq_nil_iff.mp chars) c first
  | cons d more =>
    rw [chars, List.cons_append, List.head?_cons, Option.some.injEq] at first
    subst first
    have table : (spaces.all fun c => !declarationWord.contains c) = true := by decide
    have listed : d ∈ spaces := spacing d (chars ▸ List.mem_cons_self ..)
    simpa using List.all_eq_true.mp table d listed

end IsSpacing

namespace Opening

variable (o : Opening)

theorem toList_text (rest : String) :
    (o.text ++ rest).toList = ("<?php".toList ++ o.front.toList) ++ (o.word.toList ++
      (o.gap.toList ++ (o.name.toList ++ (o.trail.toList ++ ';' :: rest.toList)))) := by
  change ("<?php" ++ o.front ++ o.word ++ o.gap ++ o.name ++ o.trail ++ ";" ++ rest).toList = _
  simp only [String.toList_append, List.append_assoc]
  rfl

/-- The keyword is made of ASCII characters. -/
theorem plain_word : ∀ c ∈ o.word.toList, c.toNat < 128 := by
  intro c member
  by_contra high
  obtain ⟨filled, outside⟩ := Text.utf8EncodeChar_high (Nat.le_of_not_lt high)
  obtain ⟨b, written⟩ := List.exists_mem_of_ne_nil _ filled
  have listed : lower b ∈ namespaceWord :=
    beq_iff_eq.mp o.keyword ▸ List.mem_map_of_mem (List.mem_flatMap.mpr ⟨c, member, written⟩)
  have table : (namespaceWord.all (·.toNat < 128)) = true := by decide
  have low := ascii_of_lower (by simpa using List.all_eq_true.mp table _ listed)
  exact absurd (outside b written) (by omega)

theorem isName_word : IsName o.word := by
  obtain ⟨word, bytes, _⟩ := exists_keyword o.keyword
  exact ⟨word, [], bytes.trans (joinLabels_nil word).symm⟩

/-- The keyword is too short to end in anything but itself. -/
theorem suffix_word_iff : declarationWord <:+ o.word.toList ↔ o.word = "namespace" := by
  constructor
  · rintro ⟨before, whole⟩
    have split : o.word = String.ofList before ++ "namespace" := by
      rw [← String.toList_inj, String.toList_append, String.toList_ofList, ← whole]
      rfl
    have length : (Text.bytesOf o.word).length = 9 := by
      have lowered := congrArg List.length (beq_iff_eq.mp o.keyword)
      rwa [List.length_map] at lowered
    have small : (Text.bytesOf "namespace").length = 9 := by decide
    rw [split, Text.bytesOf_append, List.length_append, small, Nat.add_eq_right] at length
    have none : String.ofList before = "" :=
      Text.bytesOf_injective (List.eq_nil_of_length_eq_zero length)
    rw [split, none]
    rfl
  · intro small
    rw [small]
    exact List.suffix_refl _

/-- A name has a character at least. -/
theorem name_ne_nil : o.name.toList ≠ [] := by
  obtain ⟨first, more, named⟩ := o.named
  intro none
  rw [String.toList_eq_nil_iff.mp none] at named
  cases named

/-- Behind the keyword in small letters all up to the semicolon is declared. -/
theorem declarationText?_small (rest : List Char) :
    declarationText? (declarationWord ++
        (o.gap.toList ++ (o.name.toList ++ (o.trail.toList ++ ';' :: rest)))) =
      some (o.gap.toList ++ (o.name.toList ++ o.trail.toList)) := by
  have gapped : o.gap.toList ≠ [] := mt String.toList_eq_nil_iff.mp o.gapped
  have unended : ';' ∉ o.gap.toList ++ (o.name.toList ++ o.trail.toList) := by
    simp only [List.mem_append, not_or]
    exact ⟨o.spacedGap.not_mem (by decide), o.named.not_mem (by decide) (by decide) (by decide),
      o.spacedTrail.not_mem (by decide)⟩
  have blank : ∀ c, (o.gap.toList ++ (o.name.toList ++ o.trail.toList)).head? = some c →
      Text.isBlank c = true := by
    intro c first
    rw [List.head?_append_of_ne_nil _ gapped] at first
    exact o.spacedGap.isBlank c (List.mem_of_head? first)
  have long : 2 ≤ (o.gap.toList ++ (o.name.toList ++ o.trail.toList)).length := by
    have gap := List.length_pos_iff.mpr gapped
    have name := List.length_pos_iff.mpr o.name_ne_nil
    simp only [List.length_append]
    omega
  have found := declarationText?_word unended blank rest
  simp only [List.append_assoc] at found
  rw [found, if_pos long]

/-- Where the name ends in the keyword, the white space behind it is declared if there is enough. -/
theorem firstDeclaration?_name (rest : List Char) :
    firstDeclaration? (o.name.toList ++ (o.trail.toList ++ ';' :: rest)) =
      if declarationWord <:+ o.name.toList ∧ 2 ≤ o.trail.toList.length then some o.trail.toList
      else firstDeclaration? rest := by
  have ends : ∀ c, (';' :: rest).head? = some c → c ∉ declarationWord := by
    rintro c ⟨⟩
    decide
  have blank : ∀ c, o.trail.toList.head? = some c → Text.isBlank c = true := fun c first =>
    o.spacedTrail.isBlank c (List.mem_of_head? first)
  have behind : firstDeclaration? (o.trail.toList ++ ';' :: rest) = firstDeclaration? rest := by
    have semicolon : 'n' ∉ [';'] := by decide
    rw [firstDeclaration?_skip (o.spacedTrail.not_mem (by decide))]
    exact firstDeclaration?_skip semicolon rest
  rw [firstDeclaration?_run (o.named.isBlank_eq_false o.plain) (o.spacedTrail.parted fun _ => ends),
    declarationText?_word (o.spacedTrail.not_mem (by decide)) blank, behind]
  by_cases ending : declarationWord <:+ o.name.toList
  · by_cases long : 2 ≤ o.trail.toList.length
    · simp [ending, long]
    · simp [ending, long]
  · simp [ending]

theorem firstDeclaration?_text (rest : String) :
    firstDeclaration? (o.text ++ rest).toList =
      if o.word = "namespace" then some (o.gap.toList ++ (o.name.toList ++ o.trail.toList))
      else if declarationWord <:+ o.name.toList ∧ 2 ≤ o.trail.toList.length then
        some o.trail.toList
      else firstDeclaration? rest.toList := by
  have front : 'n' ∉ "<?php".toList ++ o.front.toList := by
    rw [List.mem_append, not_or]
    exact ⟨by decide, o.spacedFront.not_mem (by decide)⟩
  rw [toList_text, firstDeclaration?_skip front,
    firstDeclaration?_run (o.isName_word.isBlank_eq_false o.plain_word)
      (o.spacedGap.parted fun none => absurd none o.gapped),
    o.declarationText?_small, firstDeclaration?_skip (o.spacedGap.not_mem (by decide)),
    o.firstDeclaration?_name]
  simp only [o.suffix_word_iff]
  by_cases small : o.word = "namespace"
  · rw [if_pos small, if_pos small]
    rfl
  · rw [if_neg small, if_neg small, Option.none_or]

/-- What a source that opens with the declaration declares. A keyword in other letters than small
ones is passed over together with the name. What follows then decides, but for a name that ends in
the keyword in small letters: with white space behind it, this is the first place that declares, and
it declares nothing. -/
def declared (rest : String) : Option String :=
  if o.word = "namespace" then some o.name
  else if declarationWord <:+ o.name.toList ∧ 2 ≤ o.trail.toList.length then none
  else declaredNamespace rest

theorem declaredNamespace_text (rest : String) :
    declaredNamespace (o.text ++ rest) = o.declared rest := by
  have solid := o.named.isBlank_eq_false o.plain
  have trimmed : Text.TrimsTo Text.isBlank
      (o.gap.toList ++ (o.name.toList ++ o.trail.toList)) o.name.toList :=
    ⟨⟨_, _, rfl, o.spacedGap.isBlank, o.spacedTrail.isBlank⟩,
      fun c first => solid c (List.mem_of_head? first),
      fun c last => solid c (List.mem_of_getLast? last)⟩
  have emptied : Text.TrimsTo Text.isBlank o.trail.toList [] :=
    ⟨⟨[], _, rfl, List.forall_mem_nil _, o.spacedTrail.isBlank⟩, fun _ => nofun, fun _ => nofun⟩
  rw [declaredNamespace_eq, firstDeclaration?_text, declared]
  split
  · rw [Option.map_some, ← trimmed.eq_trimEnds, Option.bind_some, if_neg o.name_ne_nil,
      String.ofList_toList]
  · split
    · rw [Option.map_some, ← emptied.eq_trimEnds]
      rfl
    · exact (declaredNamespace_eq rest).symm

end Opening

/-! ## The two readings -/

/-- The references of a source that opens with a declaration are those without it, in every letter
case of the keyword. Its namespace, and with it its layer, is that of the declaration whatever
follows exactly if the keyword is in small letters. -/
theorem opening_readings (o : Opening) :
    (∀ (a : Architecture) (path : Path) (rest : String),
      SourceFile.read .php a path (o.text ++ rest) =
        ⟨path, o.declared rest, (o.declared rest).bind a.owner?,
          references (o.bareText ++ rest)⟩) ∧
      ((∀ rest, declaredNamespace (o.text ++ rest) = some o.name) ↔ o.word = "namespace") := by
  refine ⟨fun a path rest => ?_, fun agree => ?_, fun small rest => ?_⟩
  · rw [← o.declaredNamespace_text, ← o.references_text]
    rfl
  · -- Behind a keyword in other letters the empty text declares nothing.
    by_contra other
    have none : o.declared "" = none := by
      rw [Opening.declared, if_neg other]
      split
      · rfl
      · rfl
    have some := agree ""
    rw [o.declaredNamespace_text, none] at some
    contradiction
  · rw [o.declaredNamespace_text, Opening.declared, if_pos small]

/-- A declaration of one namespace whose keyword is spelled as given. -/
def domainOpening (word : String) (keyword : isNamespaceWord (Text.bytesOf word) = true) :
    Opening where
  front := " "
  word := word
  gap := " "
  name := "App\\Domain"
  trail := ""
  spacedFront := by decide
  keyword := keyword
  spacedGap := by decide
  gapped := by decide
  named :=
    ⟨⟨ascii 'A', "pp".toList.map ascii, by decide, List.all_eq_true.mp rfl⟩,
      [⟨ascii 'D', "omain".toList.map ascii, by decide, List.all_eq_true.mp rfl⟩], by decide⟩
  plain c inside := by
    have table : ("App\\Domain".toList.all fun c => decide (c.toNat < 128)) = true := by decide
    exact of_decide_eq_true (List.all_eq_true.mp table c inside)
  spacedTrail := by decide

/-- The scanner leaves the name of this declaration out, and the source declares it. -/
theorem opening_readings_small :
    declaredNamespace "<?php namespace App\\Domain;\nuse Lib\\Thing;" = some "App\\Domain" ∧
      references "<?php namespace App\\Domain;\nuse Lib\\Thing;" =
        references "<?php  ;\nuse Lib\\Thing;" := by
  let o := domainOpening "namespace" (by decide)
  have text : o.text ++ "\nuse Lib\\Thing;" =
      "<?php namespace App\\Domain;\nuse Lib\\Thing;" := by decide
  have bare : o.bareText ++ "\nuse Lib\\Thing;" = "<?php  ;\nuse Lib\\Thing;" := by decide
  obtain ⟨reads, declares⟩ := opening_readings o
  have same := congrArg SourceFile.references (reads ⟨[], rfl⟩ ⟨""⟩ "\nuse Lib\\Thing;")
  rw [← text, ← bare]
  exact ⟨declares.mpr rfl _, same⟩

/-- The scanner leaves the name of this declaration out too, but the source does not declare it. -/
theorem declaredNamespace_capital :
    declaredNamespace "<?php Namespace App\\Domain;\nuse Lib\\Thing;" = none ∧
      references "<?php Namespace App\\Domain;\nuse Lib\\Thing;" =
        references "<?php  ;\nuse Lib\\Thing;" := by
  let o := domainOpening "Namespace" (by decide)
  have text : o.text ++ "\nuse Lib\\Thing;" =
      "<?php Namespace App\\Domain;\nuse Lib\\Thing;" := by decide
  have bare : o.bareText ++ "\nuse Lib\\Thing;" = "<?php  ;\nuse Lib\\Thing;" := by decide
  refine ⟨by decide, ?_⟩
  rw [← text, ← bare]
  exact o.references_text _

end LayerGuard.Source
