import LayerGuard.Proofs.Source.Layout
import LayerGuard.Proofs.Source.Occurrence
import LayerGuard.Proofs.Text.Utf8
import Mathlib.Data.List.Infix

/-! # Tags and the text around them

Text outside the tags records nothing, and no tag begins in text without one, not even where the
text ends in half a tag and a whole one follows. So text in front of an open tag only moves what
follows it. A close tag behind a finished statement brings the scanner back to the state in front of
a source. In both cases the rest of the source is read as if it stood alone, further down.
-/

namespace LayerGuard

/-- A reference with a number of lines in front of it. -/
def Reference.below (lines : Nat) (r : Reference) : Reference := { r with line := lines + r.line }

namespace Source

/-! ## Reading a text further down -/

/-- An occurrence in a text with `passed` in front of it. -/
def Occurrence.below (passed : List UInt8) (o : Occurrence) : Occurrence where
  offset := passed.length + o.offset
  line := lineFeeds passed + o.line
  name := o.name

/-- A cursor in a text with `passed` in front of it, where the given names were found. -/
def Cursor.below (c : Cursor) (passed : List UInt8) (found : List Occurrence) : Cursor where
  state := c.state
  offset := passed.length + c.offset
  line := lineFeeds passed + c.line
  found := c.found.map (Occurrence.below passed) ++ found

theorem Cursor.occurrence_below (c : Cursor) (passed : List UInt8) (found : List Occurrence)
    (lexeme : List UInt8) :
    (c.below passed found).occurrence lexeme = (c.occurrence lexeme).below passed := by
  cases lexeme with
  | nil => rfl
  | cons b rest =>
    rw [occurrence, occurrence, apply_ite (Occurrence.below passed)]
    rfl

theorem Cursor.advance_below (c : Cursor) (passed : List UInt8) (found : List Occurrence)
    (move : Move) (lexeme : List UInt8) :
    (c.below passed found).advance move lexeme = (c.advance move lexeme).below passed found := by
  simp only [advance, occurrence_below]
  cases move.records <;> simp [below, Nat.add_assoc]

/-- Further down a run finds the same names, each as much further down. -/
theorem Cursor.run_below (c : Cursor) (passed : List UInt8) (found : List Occurrence)
    (text : List UInt8) :
    (c.below passed found).run text = (c.run text).below passed found := by
  induction c, text using Cursor.run.induct with
  | case1 c => rw [Cursor.run_nil, Cursor.run_nil]
  | case2 c b rest move ih =>
    rw [Cursor.run, Cursor.run, ← ih, ← c.advance_below passed found]
    rfl

/-- What a source finds, and then what a text that is read like a source of its own finds. -/
theorem occurrences_below {text passed rest : List UInt8} {found : List Occurrence}
    (run : Cursor.start.run text = (Cursor.start.below passed found.reverse).run rest) :
    occurrences text = found ++ (occurrences rest).map (Occurrence.below passed) := by
  rw [occurrences, run, Cursor.run_below, Cursor.below, List.reverse_append, List.reverse_reverse,
    occurrences, List.map_reverse]

theorem map_toReference_below (passed : List UInt8) (found : List Occurrence) :
    (found.map (Occurrence.below passed)).map Occurrence.toReference =
      (found.map Occurrence.toReference).map (Reference.below (lineFeeds passed)) := by
  rw [List.map_map, List.map_map]
  rfl

/-! ## Open tags -/

theorem eq_of_lower_eq {b c : UInt8} (same : lower b = c) (other : isLetter c = false) : b = c := by
  rw [lower] at same
  split at same
  · next capital =>
    simp only [Bool.and_eq_true, decide_eq_true_eq, UInt8.le_iff_toNat_le] at capital
    have letters : (ascii 'A').toNat = 65 ∧ (ascii 'Z').toNat = 90 ∧ (ascii 'a').toNat = 97 ∧
        (ascii 'z').toNat = 122 := by decide
    have shifted : (b + 32).toNat = b.toNat + 32 := by
      rw [UInt8.toNat_add]
      exact Nat.mod_eq_of_lt (Nat.lt_of_le_of_lt (Nat.add_le_add_right capital.2 32) (by decide))
    subst same
    simp only [isLetter, Bool.or_eq_false_iff, Bool.and_eq_false_iff, decide_eq_false_iff_not,
      UInt8.le_iff_toNat_le, shifted] at other
    omega
  · exact same

/-- The angle bracket that begins an open tag is its only one. -/
theorem IsOpenTag.eq_cons {tag : List UInt8} (isTag : IsOpenTag tag) :
    ∃ word, tag = ascii '<' :: word ∧ ascii '<' ∉ word := by
  rcases isTag with rfl | spelled
  · exact ⟨_, rfl, by decide⟩
  · obtain ⟨b, word, rfl, bracket, small⟩ := List.map_eq_cons_iff.mp spelled
    refine ⟨word, congrArg (· :: word) (eq_of_lower_eq bracket rfl), fun inside => ?_⟩
    have again : lower (ascii '<') ∈ word.map lower := List.mem_map_of_mem inside
    rw [small] at again
    exact absurd again (by decide)

/-- Whether a text begins with an open tag. -/
def BeginsWithTag (text : List UInt8) : Prop := ∃ tag, IsOpenTag tag ∧ tag <+: text

theorem beginsWithTag_iff {text : List UInt8} :
    BeginsWithTag text ↔ (openTagLength? text).isSome = true := by
  constructor
  · rintro ⟨tag, rfl | spelled, rest, rfl⟩
    · rfl
    · have five : tag.length = 5 := by simpa using congrArg List.length spelled
      rw [openTagLength?, ← five, List.take_left, if_pos (beq_iff_eq.mpr spelled)]
      split <;> rfl
  · intro found
    obtain ⟨n, found⟩ := Option.isSome_iff_exists.mp found
    exact ⟨_, (isOpenTag_of_length found).2, List.take_prefix n text⟩

theorem hasOpenTag_iff {text : List UInt8} :
    HasOpenTag text ↔ ∃ rest ∈ text.tails, BeginsWithTag rest := by
  constructor
  · rintro ⟨tag, isTag, inside⟩
    obtain ⟨rest, begins, ends⟩ := List.infix_iff_prefix_suffix.mp inside
    exact ⟨rest, (List.mem_tails _ _).mpr ends, tag, isTag, begins⟩
  · rintro ⟨rest, ends, tag, isTag, begins⟩
    have inside := List.infix_iff_prefix_suffix.mpr ⟨rest, begins, (List.mem_tails _ _).mp ends⟩
    exact ⟨tag, isTag, inside⟩

instance (text : List UInt8) : Decidable (BeginsWithTag text) :=
  decidable_of_iff _ beginsWithTag_iff.symm

instance (text : List UInt8) : Decidable (HasOpenTag text) :=
  decidable_of_iff _ hasOpenTag_iff.symm

/-- No tag begins in a text without one, even if a tag stands right behind the text. -/
theorem openTagLength?_eq_none {html tail : List UInt8} {b : UInt8}
    (untagged : ¬ HasOpenTag (b :: html)) (tagged : BeginsWithTag tail) :
    openTagLength? (b :: (html ++ tail)) = none := by
  rw [Option.eq_none_iff_forall_ne_some]
  intro n found
  obtain ⟨positive, isTag⟩ := isOpenTag_of_length found
  obtain ⟨m, rfl⟩ : ∃ m, n = m + 1 := ⟨n - 1, by omega⟩
  rw [List.take_succ_cons] at isTag
  obtain ⟨word, same, single⟩ := isTag.eq_cons
  obtain ⟨_, closing, more, rfl⟩ := tagged
  obtain ⟨_, rfl, _⟩ := closing.eq_cons
  -- The tag behind the text would put a second bracket into a tag that reaches into it.
  have inside : word <+: html :=
    prefix_of_foreign single ((List.cons.inj same).2 ▸ List.take_prefix m _)
  refine untagged ⟨_, isTag, List.IsPrefix.isInfix ?_⟩
  rw [same, ← (List.cons.inj same).1]
  exact List.cons_prefix_cons.mpr ⟨rfl, inside⟩

/-- Text without a tag in front of a tag is passed without a trace but its lines. -/
theorem Cursor.run_outside (c : Cursor) (outside : c.state.mode = .outside)
    {html tail : List UInt8} (untagged : ¬ HasOpenTag html) (tagged : BeginsWithTag tail) :
    c.run (html ++ tail) = (c.skip c.state html).run tail := by
  induction html generalizing c with
  | nil => rfl
  | cons b html ih =>
    have free : ¬ HasOpenTag html := fun ⟨tag, isTag, inside⟩ =>
      untagged ⟨tag, isTag, List.infix_cons inside⟩
    have moves : c.state.move b (html ++ tail) = c.state.pass 0 := by
      simp only [State.move, outside, State.outsideMove, openTagLength?_eq_none untagged tagged]
    rw [List.cons_append, Cursor.run_byte moves, ih (c.skip c.state [b]) outside free,
      Cursor.skip_skip]
    rfl

/-- Text in front of an open tag moves what the rest of the source finds. -/
theorem occurrences_outside {html tail : List UInt8} (untagged : ¬ HasOpenTag html)
    (tagged : BeginsWithTag tail) :
    occurrences (html ++ tail) = (occurrences tail).map (Occurrence.below html) := by
  have start : Cursor.start.skip Cursor.start.state html =
      Cursor.start.below html (List.reverse []) := by
    simp [Cursor.skip, Cursor.start, Cursor.below, Nat.add_comm]
  have run := Cursor.start.run_outside rfl untagged tagged
  rw [start] at run
  exact occurrences_below run

/-! ## Close tags -/

/-- The tag that ends a stretch of code. -/
def closeTag : List UInt8 := "?>".toList.map ascii

theorem State.codeMove_closeTag {s : State} (code : s.mode = .code) (rest : List UInt8) :
    s.codeMove (ascii '?') (ascii '>' :: rest) = { s with mode := .outside }.pass 1 := by
  simp [codeMove, isSpace, code]

/-- Behind a close tag the scanner is as in front of a source, if nothing was left open. -/
theorem Reading.run_closeTag {r : Reading} {passed : List UInt8} (found : List Occurrence)
    (closed : r.inDeclaration = false) (free : r.afterMember = false)
    (offset : r.offset = passed.length) (line : r.line = 1 + lineFeeds passed)
    (tail : List UInt8) :
    (r.cursor found).run (closeTag ++ tail) =
      (Cursor.start.below (passed ++ closeTag) found).run tail := by
  have moves : (r.cursor found).state.move (ascii '?') ([ascii '>'] ++ tail) =
      State.initial.pass 1 := by
    rw [State.move_of_code rfl]
    refine (State.codeMove_closeTag rfl tail).trans ?_
    simp only [cursor, closed, free, State.initial]
  have behind : (r.cursor found).skip .initial closeTag =
      Cursor.start.below (passed ++ closeTag) found := by
    simp only [Cursor.skip, Cursor.below, Cursor.start, cursor, offset, line, lineFeeds_append,
      List.length_append, List.map_nil, List.nil_append, Nat.add_zero, Nat.add_comm 1,
      Nat.add_right_comm]
  rw [← behind]
  exact Cursor.run_pass [ascii '>'] moves rfl

namespace Layout

/-- White space changes nothing but the position. -/
theorem behind_of_blank {layout : Layout} (blank : layout.tokens = []) (r : Reading) :
    (layout.behind r).inDeclaration = r.inDeclaration ∧
      (layout.behind r).afterMember = r.afterMember := by
  induction layout generalizing r with
  | nil => exact ⟨rfl, rfl⟩
  | cons piece layout ih =>
    cases piece with
    | token t => contradiction
    | blank b space => exact ih blank (r.past b)

theorem parted_of_blank {layout : Layout} (blank : layout.tokens = []) (rest : List UInt8) :
    layout.parted rest = true := by
  induction layout with
  | nil => rfl
  | cons piece layout ih =>
    cases piece with
    | token t => contradiction
    | blank b space => exact ih blank

/-- The last token of a layout has only white space behind it. -/
theorem exists_last {layout : Layout} {t : Token} (last : layout.tokens.getLast? = some t) :
    ∃ front trail, layout = front ++ .token t :: trail ∧ tokens trail = [] := by
  obtain ⟨before, tokens⟩ := List.getLast?_eq_some_iff.mp last
  obtain ⟨front, back, rfl, -, ends⟩ := List.filterMap_eq_append_iff.mp tokens
  obtain ⟨blanks, piece, trail, rfl, none, isLast, blank⟩ := List.filterMap_eq_cons_iff.mp ends
  cases piece with
  | token t' =>
    cases isLast
    exact ⟨front ++ blanks, trail, (List.append_assoc ..).symm, blank⟩
  | blank b space => contradiction

/-- Behind a semicolon nothing is left open. -/
theorem behind_of_semicolon {layout : Layout} (ends : layout.tokens.getLast? = some .semicolon)
    (r : Reading) :
    (layout.behind r).inDeclaration = false ∧ (layout.behind r).afterMember = false := by
  obtain ⟨front, trail, rfl, blank⟩ := exists_last ends
  rw [behind, List.foldl_append]
  exact behind_of_blank blank _

/-- A semicolon ends what stands before it, whatever follows. -/
theorem parted_of_semicolon {layout : Layout} (ends : layout.tokens.getLast? = some .semicolon)
    (apart : layout.parted [] = true) (rest : List UInt8) : layout.parted rest = true := by
  obtain ⟨front, trail, rfl, blank⟩ := exists_last ends
  rw [parted_append, Bool.and_eq_true] at apart ⊢
  refine ⟨?_, parted_of_blank blank rest⟩
  exact (parted_congr front _ _ (by decide)).trans apart.1

/-- A close tag behind a semicolon leaves the rest to be read like a source of its own. -/
theorem occurrences_closeTag {layout : Layout} (ends : layout.tokens.getLast? = some .semicolon)
    (apart : layout.parted [] = true) (tail : List UInt8) :
    Source.occurrences (openTag ++ layout.bytes ++ (closeTag ++ tail)) =
      Source.occurrences (openTag ++ layout.bytes) ++
        (Source.occurrences tail).map (Occurrence.below (openTag ++ layout.bytes ++ closeTag)) := by
  obtain ⟨closed, free⟩ := behind_of_semicolon ends .start
  have whole : Cursor.start.run (openTag ++ layout.bytes) = _ :=
    (Cursor.run_openTag _).trans (layout.run_whole .start [] apart)
  have sound := Cursor.sound_run (openTag ++ layout.bytes)
  rw [whole] at sound
  refine occurrences_below ?_
  rw [layout.run_openTag (parted_of_semicolon ends apart _), Source.occurrences, whole,
    List.append_nil, List.reverse_reverse]
  exact Reading.run_closeTag _ closed free sound.offset sound.line tail

end Layout

/-- Text in front of an open tag and code in front of a close tag leave the rest of a source to be
read as if it stood alone, with as many lines in front of it as they have. -/
theorem references_across_tags :
    (∀ html tail : String, ¬ HasOpenTag (Text.bytesOf html) → BeginsWithTag (Text.bytesOf tail) →
      references (html ++ tail) =
        (references tail).map (Reference.below (lineFeeds (Text.bytesOf html)))) ∧
    ∀ (layout : Layout) (code tail : String), Text.bytesOf code = layout.bytes →
      layout.parted [] = true → layout.tokens.getLast? = some .semicolon →
      references ("<?php " ++ code ++ "?>" ++ tail) =
        references ("<?php " ++ code) ++ (references tail).map
          (Reference.below (lineFeeds (Text.bytesOf ("<?php " ++ code)))) := by
  constructor
  · intro html tail untagged tagged
    rw [references, Text.bytesOf_append, occurrences_outside untagged tagged,
      map_toReference_below, references]
  · intro layout code tail written apart ends
    have front : Text.bytesOf ("<?php " ++ code) = openTag ++ layout.bytes := by
      rw [Text.bytesOf_append, written]
      rfl
    have whole : Text.bytesOf ("<?php " ++ code ++ "?>" ++ tail) =
        openTag ++ layout.bytes ++ (closeTag ++ Text.bytesOf tail) := by
      rw [Text.bytesOf_append, Text.bytesOf_append, front, List.append_assoc]
      rfl
    have lines : lineFeeds (openTag ++ layout.bytes ++ closeTag) =
        lineFeeds (openTag ++ layout.bytes) := by
      rw [lineFeeds_append _ closeTag]
      rfl
    rw [references, whole, Layout.occurrences_closeTag ends apart, List.map_append,
      map_toReference_below, lines, references, front, references]

/-- Half a tag in front of a tag is still text, and code whose last statement is finished leaves no
declaration open behind its close tag. -/
theorem references_across_tags_divided :
    let a : Label := ⟨ascii 'A', [], by decide, List.all_eq_true.mp rfl⟩
    let b : Label := ⟨ascii 'B', [], by decide, List.all_eq_true.mp rfl⟩
    let word : Label :=
      ⟨ascii 'n', "amespace".toList.map ascii, by decide, List.all_eq_true.mp rfl⟩
    let minus : Token := .punctuation (ascii '-') (by decide)
    let layout : Layout :=
      [.token minus, .token minus, .token (.qualified a (by decide) b []),
        .blank newline (by decide), .token (.keyword word (by decide)), .blank newline (by decide),
        .token (.unqualified a (by decide)), .token .semicolon, .blank (ascii ' ') (by decide)]
    let html := "<?p\n<?"
    let tail := "<?PHP A\\B"
    let code := "--A\\B\nnamespace\nA; "
    (¬ HasOpenTag (Text.bytesOf html) ∧ BeginsWithTag (Text.bytesOf tail) ∧
      Text.bytesOf code = layout.bytes ∧ layout.parted [] = true ∧
      layout.tokens.getLast? = some .semicolon) ∧
    references (html ++ tail) = (references tail).map (Reference.below 1) ∧
    references ("<?php " ++ code ++ "?>" ++ tail) =
      references ("<?php " ++ code) ++ (references tail).map (Reference.below 2) := by
  intro a b word minus layout html tail code
  have untagged : ¬ HasOpenTag (Text.bytesOf html) := by decide
  have tagged : BeginsWithTag (Text.bytesOf tail) := by decide
  have written : Text.bytesOf code = layout.bytes := by decide
  have apart : layout.parted [] = true := by decide
  refine ⟨⟨untagged, tagged, written, apart, rfl⟩, ?_, ?_⟩
  · have lines : lineFeeds (Text.bytesOf html) = 1 := by decide
    rw [references_across_tags.1 html tail untagged tagged, lines]
  · have lines : lineFeeds (Text.bytesOf ("<?php " ++ code)) = 2 := by decide
    rw [references_across_tags.2 layout code tail written apart rfl, lines]

end Source
end LayerGuard
