import LayerGuard.Proofs.Source.Nesting
import LayerGuard.Proofs.Source.Occurrence

/-! # Text appended to a source

What a move does may depend on bytes far behind it, so a longer text can be read differently from
some point on. That point lies behind every name already recorded, unless the shorter text ends in
the middle of a name: either the appended text changes nothing about a move, or no further name can
be recorded in what is left of the shorter text. So names that were found stay found, where they
were.
-/

namespace LayerGuard.Source

/-! ## Texts that end behind a name -/

/-- The last byte of a text, if there is one, is neither a byte of a label nor a separator. -/
def Settled (text : List UInt8) : Prop :=
  ∀ b, text.getLast? = some b → isLabelByte b = false ∧ b ≠ separator

/-- No separator in the text has a label behind it. -/
def Nameless (text : List UInt8) : Prop :=
  ∀ rest, separator :: rest <:+ text → nextIs isLabelStart rest = false

theorem Settled.suffix {text rest : List UInt8} (settled : Settled text) (suffix : rest <:+ text) :
    Settled rest := by
  intro b last
  obtain ⟨front, rfl⟩ := suffix
  exact settled b (by rw [List.getLast?_append, last]; rfl)

theorem Nameless.suffix {text rest : List UInt8} (nameless : Nameless text) (suffix : rest <:+ text) :
    Nameless rest :=
  fun behind inner => nameless behind (inner.trans suffix)

theorem nameless_nil : Nameless [] := by
  intro rest inner
  simp at inner

theorem nameless_of_not_mem {text : List UInt8} (free : separator ∉ text) : Nameless text :=
  fun _ inner => (free (inner.subset (List.mem_cons_self ..))).elim

/-- The last byte of a settled text stops a label. -/
theorem Settled.exists_stop {text : List UInt8} (settled : Settled text) (nonempty : text ≠ []) :
    ∃ b ∈ text, isLabelByte b = false := by
  have last := List.getLast?_eq_some_getLast nonempty
  exact ⟨_, List.getLast_mem nonempty, (settled _ last).1⟩

/-- A settled text too short for a name and the byte behind it. -/
theorem Settled.nameless_of_short {b : UInt8} {rest : List UInt8} (settled : Settled (b :: rest))
    (short : rest.length ≤ 1) : Nameless (b :: rest) := by
  intro behind inner
  obtain ⟨front, written⟩ := inner
  have length := congrArg List.length written
  simp only [List.length_append, List.length_cons] at length
  cases behind with
  | nil => rfl
  | cons c behind =>
    have last : behind = [] := List.eq_nil_of_length_eq_zero (by rw [List.length_cons] at length; omega)
    have stop := (settled.suffix ⟨front, written⟩ c (by rw [last]; rfl)).1
    rw [nextIs_cons]
    simpa [isLabelByte] using (Bool.or_eq_false_iff.mp stop).1

/-- A name without a label behind a separator ends with its first label. -/
theorem Nameless.nameBytes_eq {text : List UInt8} (nameless : Nameless text) :
    nameBytes text = firstLabel text := by
  induction text with
  | nil => rfl
  | cons b rest ih =>
    have inner := ih (nameless.suffix (List.suffix_cons b rest))
    have ends : (b == separator && nextIs isLabelStart rest) = false := by
      rw [Bool.and_eq_false_iff, beq_eq_false_iff_ne]
      by_cases separated : b = separator
      · subst separated
        exact .inr (nameless rest (List.suffix_refl _))
      · exact .inl separated
    cases inside : isLabelByte b with
    | true => simp [nameBytes, firstLabel, inside, inner]
    | false => simp [nameBytes, firstLabel, inside, ends]

/-- Where no separator has a label behind it, no move records a name. -/
theorem Nameless.records_eq {b : UInt8} {rest : List UInt8} (nameless : Nameless (b :: rest))
    (s : State) : (s.move b rest).records = false := by
  rw [← Bool.not_eq_true]
  intro records
  rcases s.move_recordsName b rest records with ⟨rfl, next, _⟩ | ⟨_, _, qualified, _⟩
  · rw [nameless rest (List.suffix_refl _)] at next
    contradiction
  · rw [nameless.nameBytes_eq] at qualified
    exact Nat.lt_irrefl _ qualified

/-! ## What is found -/

/-- A run adds to what was found. -/
theorem Cursor.found_suffix_run (c : Cursor) (text : List UInt8) : c.found <:+ (c.run text).found := by
  refine @Cursor.run_preserves (fun c' _ => c.found <:+ c'.found) ?_ _ _ (List.suffix_refl _)
  intro c' b rest found
  simp only [Cursor.advance]
  split
  · exact found.trans (List.suffix_cons _ _)
  · exact found

/-- A run over a text without names finds nothing. -/
theorem Cursor.found_run_of_nameless (c : Cursor) {text : List UInt8} (nameless : Nameless text) :
    (c.run text).found = c.found := by
  have behind : (c.run text).found = c.found ∧ Nameless [] := by
    refine @Cursor.run_preserves (fun c' rest => c'.found = c.found ∧ Nameless rest) ?_ _ _
      ⟨rfl, nameless⟩
    rintro c' b rest ⟨found, nameless⟩
    refine ⟨?_, nameless.suffix ((List.drop_suffix _ _).trans (List.suffix_cons _ _))⟩
    rw [Cursor.advance, nameless.records_eq c'.state]
    exact found
  exact behind.1

/-! ## Lexemes at the end of a text -/

section Lexemes

variable {text : List UInt8} (more : List UInt8)

theorem nextIs_append (inClass : UInt8 → Bool) (nonempty : text ≠ []) :
    nextIs inClass (text ++ more) = nextIs inClass text := by
  cases text with
  | nil => contradiction
  | cons b rest => rfl

/-- A run of bytes that ends in the text ends there whatever follows. -/
theorem runLength_append_or (inClass : UInt8 → Bool) (text : List UInt8) :
    runLength inClass (text ++ more) = runLength inClass text ∨
      runLength inClass text = text.length := by
  simp only [runLength, List.takeWhile_append]
  split
  · next all => exact .inr all
  · exact .inl rfl

theorem commentLineLength_append_or (text : List UInt8) :
    commentLineLength (text ++ more) = commentLineLength text ∨
      commentLineLength text = text.length := by
  induction text with
  | nil => exact .inr rfl
  | cons b rest ih =>
    by_cases last : rest = []
    · subst last
      cases line : b == newline with
      | true => exact .inl (by simp [commentLineLength, line])
      | false => exact .inr (by simp [commentLineLength, line])
    · rw [List.cons_append, commentLineLength, commentLineLength, nextIs_append more _ last]
      cases b == newline || (b == ascii '?' && nextIs (· == ascii '>') rest) with
      | true => exact .inl rfl
      | false => exact ih.imp (congrArg (· + 1)) (congrArg (· + 1))

theorem commentBlockLength_append_or (text : List UInt8) :
    commentBlockLength (text ++ more) = commentBlockLength text ∨
      commentBlockLength text = text.length := by
  induction text with
  | nil => exact .inr rfl
  | cons b rest ih =>
    by_cases last : rest = []
    · subst last
      exact .inr (by simp [commentBlockLength])
    · rw [List.cons_append, commentBlockLength, commentBlockLength, nextIs_append more _ last]
      cases b == ascii '*' && nextIs (· == ascii '/') rest with
      | true => exact .inl rfl
      | false => exact ih.imp (congrArg (· + 1)) (congrArg (· + 1))

theorem Settled.nameBytes_append (settled : Settled text) (nonempty : text ≠ []) :
    nameBytes (text ++ more) = nameBytes text := by
  induction text with
  | nil => contradiction
  | cons b rest ih =>
    by_cases last : rest = []
    · subst last
      obtain ⟨outside, other⟩ := settled b rfl
      simp [nameBytes, outside, other]
    · have inner := ih (settled.suffix (List.suffix_cons _ _)) last
      rw [List.cons_append, nameBytes, nameBytes, nextIs_append more _ last, inner]

theorem Settled.firstLabel_ne (settled : Settled text) (nonempty : text ≠ []) :
    (firstLabel text).length ≠ text.length := by
  intro all
  obtain ⟨b, member, stop⟩ := settled.exists_stop nonempty
  have whole : firstLabel text = text := (List.takeWhile_prefix isLabelByte).eq_of_length all
  have inside : isLabelByte b = true :=
    List.all_eq_true.mp List.all_takeWhile b (by rw [← firstLabel, whole]; exact member)
  rw [inside] at stop
  contradiction

theorem Settled.firstLabel_append (settled : Settled text) (nonempty : text ≠ []) :
    firstLabel (text ++ more) = firstLabel text := by
  have stops := settled.firstLabel_ne nonempty
  rw [firstLabel] at stops ⊢
  rw [List.takeWhile_append, if_neg stops, firstLabel]

theorem isLabelByte_of_lower {b : UInt8} (inside : isLabelByte (lower b) = true) :
    isLabelByte b = true := by
  rw [lower] at inside
  split at inside
  · next capital => rw [isLabelByte, isLabelStart, isLetter, capital, Bool.or_true]; rfl
  · exact inside

theorem Settled.lower_ne (settled : Settled text) {last letter : UInt8}
    (ends : text.getLast? = some last) (inside : isLabelByte letter = true) : lower last ≠ letter := by
  rintro rfl
  have stop := (settled last ends).1
  rw [isLabelByte_of_lower inside] at stop
  contradiction

/-- A tag that is cut off ends in a letter, unless fewer than three bytes of it are there. -/
theorem Settled.openTagLength?_append (settled : Settled text) (long : 3 ≤ text.length) :
    openTagLength? (text ++ more) = openTagLength? text := by
  have three : (text ++ more).take 3 = text.take 3 := List.take_append_of_le_length long
  rw [openTagLength?, openTagLength?, three]
  by_cases longer : 5 ≤ text.length
  · rw [List.take_append_of_le_length longer]
  · -- Three or four bytes of the tag end in a letter of the word.
    have word : "<?php".toList.map ascii = [60, 63, 112, 104, 112] := by decide
    rw [word]
    rcases text with _ | ⟨a, _ | ⟨b, _ | ⟨c, _ | ⟨d, _ | ⟨e, rest⟩⟩⟩⟩⟩
    · simp at long
    · simp at long
    · simp at long
    · have other : lower c ≠ 112 := settled.lower_ne rfl rfl
      simp [other]
    · have other : lower d ≠ 104 := settled.lower_ne rfl rfl
      simp [other]
    · simp at longer

theorem lineEndLength?_append_or (text : List UInt8) :
    lineEndLength? (text ++ more) = lineEndLength? text ∨
      lineEndLength? text = none ∧ ∀ b ∈ text, b = 0x0D := by
  rcases text with _ | ⟨b, _ | ⟨c, rest⟩⟩
  · exact .inr ⟨rfl, by simp⟩
  · by_cases returns : b = 0x0D
    · subst returns
      exact .inr ⟨rfl, by simp⟩
    · exact .inl (by simp [lineEndLength?, returns])
  · exact .inl rfl

/-- A label and its line end are told in a settled text as in a longer one, unless the text is cut off
within them. -/
theorem Settled.heredocLabel?_append_or (settled : Settled text) (quote? : Option UInt8)
    (unescaped : quote? ≠ some separator) :
    heredocLabel? quote? (text ++ more) = heredocLabel? quote? text ∨
      heredocLabel? quote? text = none ∧ separator ∉ text := by
  by_cases nonempty : text = []
  · subst nonempty
    exact .inr ⟨rfl, List.not_mem_nil⟩
  have label := settled.firstLabel_append more nonempty
  have drop : (text ++ more).drop (firstLabel text).length =
      text.drop (firstLabel text).length ++ more :=
    List.drop_append_of_le_length (firstLabel_length_le text)
  have behind : text.drop (firstLabel text).length ≠ [] := by
    intro none
    have fits := firstLabel_length_le text
    have other := settled.firstLabel_ne nonempty
    have length := List.drop_eq_nil_iff.mp none
    omega
  have unlabelled : separator ∉ firstLabel text := by
    intro member
    have inside : isLabelByte separator = true := List.all_eq_true.mp List.all_takeWhile _ member
    rw [isLabelByte_separator] at inside
    contradiction
  have written : firstLabel text ++ text.drop (firstLabel text).length = text :=
    List.prefix_iff_eq_append.mp (List.takeWhile_prefix isLabelByte)
  unfold heredocLabel?
  simp only [label, drop, nextIs_append more _ nonempty, nextIs_append more _ behind]
  generalize text.drop (firstLabel text).length = rest at behind written
  have free (within : separator ∉ rest) : separator ∉ text := by
    rw [← written, List.mem_append]
    exact not_or.mpr ⟨unlabelled, within⟩
  cases nextIs isLabelStart text with
  | false => exact .inl rfl
  | true =>
    cases quote? with
    | none =>
      rcases lineEndLength?_append_or more rest with same | ⟨cut, returns⟩
      · exact .inl (by simp [same])
      · exact .inr ⟨by simp [cut], free fun member => by cases returns _ member⟩
    | some quote =>
      obtain ⟨b, rest, rfl⟩ := List.exists_cons_of_ne_nil behind
      by_cases closes : b = quote
      · subst closes
        rcases lineEndLength?_append_or more rest with same | ⟨cut, returns⟩
        · exact .inl (by simp [same])
        · refine .inr ⟨by simp [cut], free fun member => ?_⟩
          rcases List.mem_cons.mp member with rfl | inside
          · exact unescaped rfl
          · cases returns _ inside
      · exact .inl (by simp [closes])

theorem Settled.heredocHead?_append_or (settled : Settled text) :
    heredocHead? (text ++ more) = heredocHead? text ∨
      heredocHead? text = none ∧ separator ∉ text := by
  have fits := runLength_le isIndent text
  have written : text.takeWhile isIndent ++ text.drop (runLength isIndent text) = text :=
    List.prefix_iff_eq_append.mp (List.takeWhile_prefix isIndent)
  have unindented : separator ∉ text.takeWhile isIndent := by
    intro member
    have inside : isIndent separator = true := List.all_eq_true.mp List.all_takeWhile _ member
    contradiction
  have free (within : separator ∉ text.drop (runLength isIndent text)) : separator ∉ text := by
    rw [← written, List.mem_append]
    exact not_or.mpr ⟨unindented, within⟩
  unfold heredocHead?
  dsimp only
  rcases runLength_append_or more isIndent text with same | all
  · rw [same, List.drop_append_of_le_length fits]
    have settled := settled.suffix (List.drop_suffix (runLength isIndent text) text)
    generalize text.drop (runLength isIndent text) = behind at free settled
    cases behind with
    | nil => exact .inr ⟨rfl, free List.not_mem_nil⟩
    | cons b rest =>
      rw [List.cons_append]
      dsimp only
      cases quoted : b == ascii '\'' || b == ascii '"' with
      | true =>
        have unescaped : b ≠ separator := by
          rintro rfl
          contradiction
        rcases (settled.suffix (List.suffix_cons _ _)).heredocLabel?_append_or more
          (some b) (by simpa using unescaped) with same | ⟨cut, clear⟩
        · exact .inl (by simp [same])
        · refine .inr ⟨by simp [cut], free ?_⟩
          simpa [clear] using unescaped.symm
      | false =>
        rcases settled.heredocLabel?_append_or more none (by simp) with same | ⟨cut, clear⟩
        · rw [List.cons_append] at same
          exact .inl (by simp [same])
        · exact .inr ⟨by simp [cut], free clear⟩
  · rw [all, List.drop_length] at free ⊢
    exact .inr ⟨rfl, free List.not_mem_nil⟩

/-- Whether a label closes a heredoc does not depend on what follows a settled text. -/
theorem Settled.startsWord_append (settled : Settled text) (nonempty : text ≠ []) (label : Label) :
    startsWord label.bytes (text ++ more) = startsWord label.bytes text := by
  obtain ⟨b, member, stop⟩ := settled.exists_stop nonempty
  -- A settled text is not part of a label, so the label is all there or differs from the text.
  have longer : ¬ text <+: label.bytes := by
    intro part
    rw [label.isLabelByte_of_mem (part.subset member)] at stop
    contradiction
  have begins : label.bytes.isPrefixOf (text ++ more) = label.bytes.isPrefixOf text := by
    rw [Bool.eq_iff_iff, List.isPrefixOf_iff_prefix, List.isPrefixOf_iff_prefix]
    constructor
    · intro part
      exact (List.prefix_or_prefix_of_prefix part (List.prefix_append text more)).resolve_right longer
    · intro part
      exact part.trans (List.prefix_append text more)
  rw [startsWord, startsWord, begins]
  cases here : label.bytes.isPrefixOf text with
  | false => rfl
  | true =>
    obtain ⟨behind, rfl⟩ := List.isPrefixOf_iff_prefix.mp here
    have more' : behind ≠ [] := by
      rintro rfl
      exact longer (List.append_nil _ ▸ List.prefix_refl _)
    rw [List.append_assoc, List.drop_left, List.drop_left, nextIs_append more _ more']

theorem Settled.heredocLineStart_append_or (settled : Settled text) (label : Label) :
    heredocLineStart label.bytes (text ++ more) = heredocLineStart label.bytes text ∨
      heredocLineStart label.bytes text = (text.length, false) := by
  have fits := runLength_le isIndent text
  rw [heredocLineStart, heredocLineStart]
  by_cases all : runLength isIndent text = text.length
  · refine .inr ?_
    rw [all, List.drop_length]
    rfl
  · have same := (runLength_append_or more isIndent text).resolve_right all
    have nonempty : text.drop (runLength isIndent text) ≠ [] := by
      intro none
      have length := List.drop_eq_nil_iff.mp none
      omega
    have word := (settled.suffix (List.drop_suffix _ _)).startsWord_append more nonempty label
    rw [same, List.drop_append_of_le_length fits, word]
    exact .inl rfl

end Lexemes

/-! ## Moves near the end of a text -/

/-- A move records nothing, and neither will any move behind it. -/
def Move.Quiet (rest : List UInt8) (m : Move) : Prop :=
  m.records = false ∧ Nameless (rest.drop m.more)

/-- A move in a longer text is the same as in the shorter one, unless that one is quiet. -/
def Move.SameOrQuiet (rest : List UInt8) (longer m : Move) : Prop := longer = m ∨ m.Quiet rest

theorem Move.sameOrQuiet_ite {rest : List UInt8} {c : Prop} [Decidable c]
    {first first' second second' : Move} (yes : c → Move.SameOrQuiet rest first' first)
    (no : ¬ c → Move.SameOrQuiet rest second' second) :
    Move.SameOrQuiet rest (if c then first' else second') (if c then first else second) := by
  split
  · next holds => exact yes holds
  · next fails => exact no fails

/-- A move that takes all that is left is quiet if it records nothing. -/
theorem Move.quiet_of_all {rest : List UInt8} {m : Move} (silent : m.records = false)
    (all : m.more = rest.length) : m.Quiet rest := by
  refine ⟨silent, ?_⟩
  rw [all, List.drop_length]
  exact nameless_nil

namespace State

variable {b : UInt8} {rest : List UInt8} (more : List UInt8)

theorem quiet_of_nameless (nameless : Nameless (b :: rest)) (s : State) :
    (s.move b rest).Quiet rest :=
  ⟨nameless.records_eq s,
    nameless.suffix ((List.drop_suffix _ _).trans (List.suffix_cons _ _))⟩

/-- Moves over a lexeme whose length is the same or all that is left. -/
theorem pass_sameOrQuiet (s : State) {length longer : Nat}
    (same : longer = length ∨ length = rest.length) :
    Move.SameOrQuiet rest (s.pass longer) (s.pass length) := by
  rcases same with rfl | all
  · exact .inl rfl
  · exact .inr (Move.quiet_of_all rfl all)

theorem heredocLine_sameOrQuiet (s : State) {label : Label} {lineEnd : Nat}
    (fits : lineEnd ≤ rest.length) (settled : Settled rest) :
    Move.SameOrQuiet rest
      (s.heredocLine label.bytes lineEnd ((rest ++ more).drop lineEnd))
      (s.heredocLine label.bytes lineEnd (rest.drop lineEnd)) := by
  have behind := settled.suffix (List.drop_suffix lineEnd rest)
  rw [List.drop_append_of_le_length fits]
  rcases behind.heredocLineStart_append_or more label with same | all
  · rw [heredocLine, heredocLine, same]
    exact .inl rfl
  · refine .inr (Move.quiet_of_all rfl ?_)
    simp only [heredocLine, pass, all, List.length_drop]
    omega

theorem textMove_append (s : State) (next : rest ≠ []) :
    s.textMove b (rest ++ more) = s.textMove b rest := by
  obtain ⟨c, rest, rfl⟩ := List.exists_cons_of_ne_nil next
  rfl

theorem escape_append (s : State) (next : rest ≠ []) : s.escape (rest ++ more) = s.escape rest := by
  obtain ⟨c, rest, rfl⟩ := List.exists_cons_of_ne_nil next
  simp [escape]

theorem quotedMove_append (s : State) (quote : UInt8) (next : rest ≠ []) :
    s.quotedMove quote b (rest ++ more) = s.quotedMove quote b rest := by
  simp only [quotedMove, s.escape_append more next, s.textMove_append more next]

theorem heredocMove_sameOrQuiet (s : State) (label : Label) (raw : Bool) (next : rest ≠ [])
    (settled : Settled rest) :
    Move.SameOrQuiet rest (s.heredocMove label.bytes raw b (rest ++ more))
      (s.heredocMove label.bytes raw b rest) := by
  rw [heredocMove, heredocMove, nextIs_append more _ next]
  refine Move.sameOrQuiet_ite (fun _ => ?_) fun _ => ?_
  · exact s.heredocLine_sameOrQuiet more (Nat.zero_le _) settled
  · rw [s.escape_append more next, s.textMove_append more next]
    exact .inl rfl

theorem outsideMove_append (s : State) (settled : Settled (b :: rest)) (long : 2 ≤ rest.length) :
    s.outsideMove b (rest ++ more) = s.outsideMove b rest := by
  have tag := settled.openTagLength?_append more (Nat.succ_le_succ long)
  rw [List.cons_append] at tag
  rw [outsideMove, outsideMove, tag]

theorem name_append (s : State) (member : Bool) (settled : Settled (b :: rest)) (next : rest ≠ []) :
    s.name member b (rest ++ more) = s.name member b rest := by
  have behind := (settled.suffix (List.suffix_cons _ _)).nameBytes_append more next
  have name := settled.nameBytes_append more (List.cons_ne_nil _ _)
  have label := settled.firstLabel_append more (List.cons_ne_nil _ _)
  rw [List.cons_append] at name label
  simp only [State.name, behind, name, label, nextIs_append more _ next]

/-- At the opener of a heredoc the two readings part if the shorter text is cut off in the head;
no separator is left then. -/
theorem heredocOpener_sameOrQuiet (s : State) {c d : UInt8} (settled : Settled (c :: d :: rest)) :
    Move.SameOrQuiet (c :: d :: rest)
      (match heredocHead? (rest ++ more) with
        | none => s.pass 2
        | some head =>
          (s.enter (.heredoc head.label head.raw)).heredocLine head.label (2 + head.length)
            ((c :: d :: (rest ++ more)).drop (2 + head.length)))
      (match heredocHead? rest with
        | none => s.pass 2
        | some head =>
          (s.enter (.heredoc head.label head.raw)).heredocLine head.label (2 + head.length)
            ((c :: d :: rest).drop (2 + head.length))) := by
  have behind := settled.suffix ((List.suffix_cons d rest).trans (List.suffix_cons c _))
  rcases behind.heredocHead?_append_or more with same | ⟨cut, free⟩
  · rw [same]
    cases headed : heredocHead? rest with
    | none => exact .inl rfl
    | some head =>
      obtain ⟨⟨label, bytes⟩, _, fits⟩ := heredocHead?_fits headed
      dsimp only
      rw [bytes, ← List.cons_append, ← List.cons_append]
      refine heredocLine_sameOrQuiet more _ ?_ settled
      simp only [List.length_cons]
      omega
  · rw [cut]
    exact .inr ⟨rfl, nameless_of_not_mem free⟩

/-- A token of code, with two bytes of the shorter text behind its first one. -/
theorem token_sameOrQuiet (s : State) (member : Bool) {c d : UInt8}
    (settled : Settled (b :: c :: d :: rest)) :
    Move.SameOrQuiet (c :: d :: rest) (s.token member b (c :: d :: (rest ++ more)))
      (s.token member b (c :: d :: rest)) := by
  have behind := settled.suffix (List.suffix_cons _ _)
  have same (m : Move) : Move.SameOrQuiet (c :: d :: rest) m m := .inl rfl
  have run (inClass : UInt8 → Bool) := runLength_append_or more inClass (c :: d :: rest)
  rw [token, token]
  refine Move.sameOrQuiet_ite (fun _ => same _) fun _ => ?_
  refine Move.sameOrQuiet_ite (fun _ => same _) fun _ => ?_
  refine Move.sameOrQuiet_ite (fun _ => same _) fun _ => ?_
  refine Move.sameOrQuiet_ite (fun _ => same _) fun _ => ?_
  refine Move.sameOrQuiet_ite (fun _ => s.heredocOpener_sameOrQuiet more behind) fun _ => ?_
  refine Move.sameOrQuiet_ite (fun _ => s.pass_sameOrQuiet (run _)) fun _ => ?_
  refine Move.sameOrQuiet_ite (fun _ => same _) fun _ => ?_
  refine Move.sameOrQuiet_ite (fun _ => s.pass_sameOrQuiet (run _)) fun _ => ?_
  refine Move.sameOrQuiet_ite (fun _ => ?_) fun _ => same _
  exact .inl (s.name_append more member settled (List.cons_ne_nil _ _))

theorem codeMove_sameOrQuiet (s : State) {c d : UInt8} (settled : Settled (b :: c :: d :: rest)) :
    Move.SameOrQuiet (c :: d :: rest) (s.codeMove b (c :: d :: (rest ++ more)))
      (s.codeMove b (c :: d :: rest)) := by
  have same (m : Move) : Move.SameOrQuiet (c :: d :: rest) m m := .inl rfl
  rw [codeMove, codeMove]
  refine Move.sameOrQuiet_ite (fun _ => same _) fun _ => ?_
  refine Move.sameOrQuiet_ite (fun _ => same _) fun _ => ?_
  refine Move.sameOrQuiet_ite (fun _ => ?_) fun _ => ?_
  · exact s.pass_sameOrQuiet (commentLineLength_append_or more (c :: d :: rest))
  refine Move.sameOrQuiet_ite (fun _ => ?_) fun _ => token_sameOrQuiet more _ _ settled
  refine s.pass_sameOrQuiet ?_
  rcases commentBlockLength_append_or more (d :: rest) with same | all
  · exact .inl (congrArg (1 + ·) same)
  · exact .inr ((congrArg (1 + ·) all).trans (Nat.add_comm ..))

/-- In every mode a move is the same in a longer text, unless no further name can be found in the
shorter one. -/
theorem move_sameOrQuiet {s : State} (nested : Nested s.mode s.outer)
    (settled : Settled (b :: rest)) :
    Move.SameOrQuiet rest (s.move b (rest ++ more)) (s.move b rest) := by
  rcases rest with _ | ⟨c, _ | ⟨d, rest⟩⟩
  · exact .inr (quiet_of_nameless (settled.nameless_of_short (Nat.zero_le _)) s)
  · exact .inr (quiet_of_nameless (settled.nameless_of_short (Nat.le_refl _)) s)
  have next : c :: d :: rest ≠ [] := List.cons_ne_nil _ _
  rw [move, move]
  split
  · exact .inl (s.outsideMove_append more settled (Nat.le_add_left ..))
  · exact s.codeMove_sameOrQuiet more settled
  · exact s.codeMove_sameOrQuiet more settled
  · exact .inl (s.quotedMove_append more _ next)
  · next label raw mode =>
    rw [mode] at nested
    obtain ⟨label, rfl⟩ := nested.heredoc_label
    exact s.heredocMove_sameOrQuiet more label raw next (settled.suffix (List.suffix_cons _ _))

end State

/-! ## Runs -/

/-- What is found in a settled text is found first in every longer one. -/
theorem Cursor.found_run_append {c : Cursor} {text : List UInt8} (more : List UInt8)
    (nested : Nested c.state.mode c.state.outer) (settled : Settled text) :
    (c.run text).found <:+ (c.run (text ++ more)).found := by
  induction c, text using Cursor.run.induct with
  | case1 c =>
    rw [Cursor.run_nil]
    exact c.found_suffix_run more
  | case2 c b rest move ih =>
    have lawful := State.move_lawful nested b rest
    rcases State.move_sameOrQuiet more nested settled with same | ⟨silent, nameless⟩
    · have inner := ih (lawful.shift.nested nested)
        (settled.suffix ((List.drop_suffix _ _).trans (List.suffix_cons _ _)))
      rw [List.cons_append, Cursor.run, Cursor.run, same,
        List.take_append_of_le_length lawful.fits, List.drop_append_of_le_length lawful.fits]
      exact inner
    · have found : (c.run (b :: rest)).found = c.found := by
        rw [Cursor.run, Cursor.found_run_of_nameless _ nameless, Cursor.advance, silent]
        rfl
      rw [found]
      exact c.found_suffix_run _

theorem occurrences_isPrefix {text : List UInt8} (settled : Settled text) (more : List UInt8) :
    occurrences text <+: occurrences (text ++ more) :=
  List.reverse_prefix.mpr (Cursor.found_run_append more .outside settled)

/-- Text appended to a source leaves the references found before as they are, in front of all others,
if the last byte of the source cannot be continued in a name. -/
theorem references_isPrefix_append (source more : String)
    (settled : ∀ last, (Text.bytesOf source).getLast? = some last →
      isLabelByte last = false ∧ last ≠ separator) :
    references source <+: references (source ++ more) := by
  have bytes : Text.bytesOf (source ++ more) = Text.bytesOf source ++ Text.bytesOf more := by
    simp [Text.bytesOf, Text.utf8Bytes]
  rw [references, references, bytes]
  exact (occurrences_isPrefix settled _).map _

/-- A cut behind the label of a heredoc, which opens only with the line end that follows. -/
theorem references_isPrefix_append_heredoc :
    (Text.bytesOf "<?php A\\B <<<\"X\"").getLast? = some 34 ∧
      references "<?php A\\B <<<\"X\"" <+: references ("<?php A\\B <<<\"X\"" ++ "\nC\\D\nX;") := by
  have last : (Text.bytesOf "<?php A\\B <<<\"X\"").getLast? = some 34 := by decide +kernel
  refine ⟨last, references_isPrefix_append _ _ ?_⟩
  rw [last]
  rintro _ ⟨⟩
  decide

end LayerGuard.Source
