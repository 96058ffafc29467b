import LayerGuard.Proofs.Source.Move

/-! # What a move can do

A move takes a lexeme that lies in the text and changes the modes in one of a few ways: it passes a
tag, opens or closes a brace of embedded code, enters a region at an opener or comes back from one.
All later statements about positions rest on this list and not on the branches of the scanner.
Regions are well nested: code stands in text that can embed it, text stands in code, and a region
is only ever left when there is one to come back to.
-/

namespace LayerGuard.Source

/-! ## How far lexemes reach -/

theorem runLength_le (inClass : UInt8 → Bool) (text : List UInt8) :
    runLength inClass text ≤ text.length :=
  (List.takeWhile_prefix inClass).length_le

theorem length_pos_of_nextIs {inClass : UInt8 → Bool} {text : List UInt8}
    (next : nextIs inClass text = true) : 0 < text.length := by
  cases text with
  | nil => simp at next
  | cons b rest => exact Nat.zero_lt_succ _

theorem commentLineLength_le (text : List UInt8) : commentLineLength text ≤ text.length := by
  induction text with
  | nil => exact Nat.le_refl _
  | cons b rest ih =>
    rw [commentLineLength]
    split
    · exact Nat.zero_le _
    · exact Nat.succ_le_succ ih

theorem commentBlockLength_le (text : List UInt8) : commentBlockLength text ≤ text.length := by
  induction text with
  | nil => exact Nat.le_refl _
  | cons b rest ih =>
    rw [commentBlockLength]
    split
    · next closes =>
      simp only [Bool.and_eq_true] at closes
      exact Nat.succ_le_succ (length_pos_of_nextIs closes.2)
    · exact Nat.succ_le_succ ih

theorem openTagLength?_fits {text : List UInt8} {n : Nat} (found : openTagLength? text = some n) :
    n ≤ text.length := by
  rw [openTagLength?] at found
  split at found
  · next short =>
    cases found
    have length := congrArg List.length (beq_iff_eq.mp short)
    simp only [List.length_take, List.length_map, String.length_toList] at length
    have three : "<?=".length = 3 := by decide
    omega
  · split at found
    · next long =>
      cases found
      have length := congrArg List.length (beq_iff_eq.mp long)
      simp only [List.length_take, List.length_map, String.length_toList] at length
      have five : "<?php".length = 5 := by decide
      omega
    · cases found

theorem interpolationLength?_fits {text : List UInt8} {n : Nat}
    (found : interpolationLength? text = some n) : 0 < n ∧ n ≤ text.length := by
  rcases text with _ | ⟨b, _ | ⟨c, rest⟩⟩
  · cases found
  · cases found
  · rw [interpolationLength?] at found
    split at found
    · cases found
      simp
    · split at found
      · cases found
        simp
      · cases found

theorem lineEndLength?_fits {text : List UInt8} {n : Nat} (found : lineEndLength? text = some n) :
    0 < n ∧ n ≤ text.length := by
  cases text with
  | nil => simp [lineEndLength?] at found
  | cons b rest =>
    rw [lineEndLength?] at found
    split at found
    · cases found
      exact ⟨Nat.one_pos, Nat.succ_le_succ (Nat.zero_le _)⟩
    · split at found
      · next returns =>
        simp only [Bool.and_eq_true] at returns
        cases found
        exact ⟨Nat.two_pos, Nat.succ_le_succ (length_pos_of_nextIs returns.2)⟩
      · cases found

/-! ## Heads and lines of heredocs -/

/-- The bytes of a label are what is read where a label begins. -/
theorem exists_label_of_nextIs {text : List UInt8} (next : nextIs isLabelStart text = true) :
    ∃ label : Label, firstLabel text = label.bytes := by
  cases text with
  | nil => simp at next
  | cons b rest =>
    obtain ⟨first, _, _, label⟩ := exists_joinLabels_of_start rest next
    exact ⟨first, label⟩

theorem firstLabel_length_le (text : List UInt8) : (firstLabel text).length ≤ text.length :=
  (List.takeWhile_prefix isLabelByte).length_le

/-- A label and what ends its line lie in the text. -/
theorem heredocLabel?_fits {quote? : Option UInt8} {text label : List UInt8} {n : Nat}
    (found : heredocLabel? quote? text = some (label, n)) :
    (∃ l : Label, label = l.bytes) ∧ label.length < n ∧ n ≤ text.length := by
  have inside := firstLabel_length_le text
  unfold heredocLabel? at found
  dsimp only at found
  split at found
  · cases found
  next starts =>
    obtain ⟨l, same⟩ := exists_label_of_nextIs (by simpa using starts)
    split at found
    · obtain ⟨m, ends, pair⟩ := Option.map_eq_some_iff.mp found
      obtain ⟨positive, fits⟩ := lineEndLength?_fits ends
      cases pair
      rw [List.length_drop] at fits
      exact ⟨⟨l, same⟩, by omega, by omega⟩
    · split at found
      · obtain ⟨m, ends, pair⟩ := Option.map_eq_some_iff.mp found
        obtain ⟨positive, fits⟩ := lineEndLength?_fits ends
        cases pair
        simp only [List.length_drop] at fits
        exact ⟨⟨l, same⟩, by omega, by omega⟩
      · cases found

/-- The head of a heredoc has a label and ends, behind that label, in the text. -/
theorem heredocHead?_fits {text : List UInt8} {head : HeredocHead}
    (found : heredocHead? text = some head) :
    (∃ l : Label, head.label = l.bytes) ∧ head.label.length < head.length ∧
      head.length ≤ text.length := by
  have indent := runLength_le isIndent text
  rw [heredocHead?] at found
  split at found
  · cases found
  next b rest behind =>
    have length := congrArg List.length behind
    rw [List.length_drop, List.length_cons] at length
    split at found
    · obtain ⟨⟨label, n⟩, labelled, rfl⟩ := Option.map_eq_some_iff.mp found
      obtain ⟨isLabel, longer, fits⟩ := heredocLabel?_fits labelled
      exact ⟨isLabel, by dsimp only; omega, by dsimp only; omega⟩
    · obtain ⟨⟨label, n⟩, labelled, rfl⟩ := Option.map_eq_some_iff.mp found
      obtain ⟨isLabel, longer, fits⟩ := heredocLabel?_fits labelled
      rw [List.length_cons] at fits
      exact ⟨isLabel, by dsimp only; omega, by dsimp only; omega⟩

theorem heredocLineStart_fits (label text : List UInt8) :
    (heredocLineStart label text).1 ≤ text.length := by
  have indent := runLength_le isIndent text
  rw [heredocLineStart]
  split
  · next closes =>
    rw [startsWord, Bool.and_eq_true] at closes
    have fits := (List.isPrefixOf_iff_prefix.mp closes.1).length_le
    rw [List.length_drop] at fits
    dsimp only
    omega
  · exact indent

/-! ## Modes inside modes -/

/-- The quotes that open a literal. -/
def isQuote (b : UInt8) : Bool := b == ascii '\'' || b == ascii '"' || b == ascii '\x60'

namespace Mode

/-- Whether the bytes are code. -/
def isCode : Mode → Bool
  | code => true
  | embedded _ => true
  | _ => false

/-- Whether the bytes are text in which code may be embedded. -/
def embeds : Mode → Bool
  | quoted quote => quote != ascii '\''
  | heredoc _ raw => !raw
  | _ => false

end Mode

/-- Code is read alike between tags and inside literals. -/
theorem State.move_of_isCode {s : State} (code : s.mode.isCode = true) (b : UInt8)
    (rest : List UInt8) : s.move b rest = s.codeMove b rest := by
  cases mode : s.mode with
  | code => simp only [move, mode]
  | embedded depth => simp only [move, mode]
  | outside => simp [mode, Mode.isCode] at code
  | quoted quote => simp [mode, Mode.isCode] at code
  | heredoc label raw => simp [mode, Mode.isCode] at code

/-- Which modes may stand around a mode. The modes between the tags and outside them stand in no
other; a literal stands in code and embedded code stands in a literal. -/
inductive Nested : Mode → List Mode → Prop
  | outside : Nested .outside []
  | code : Nested .code []
  | embedded (depth : Nat) {mode : Mode} {outer : List Mode} (text : mode.embeds = true)
      (around : Nested mode outer) : Nested (.embedded depth) (mode :: outer)
  | quoted {quote : UInt8} {mode : Mode} {outer : List Mode} (opens : isQuote quote = true)
      (code : mode.isCode = true) (around : Nested mode outer) :
      Nested (.quoted quote) (mode :: outer)
  | heredoc (label : Label) (raw : Bool) {mode : Mode} {outer : List Mode}
      (code : mode.isCode = true) (around : Nested mode outer) :
      Nested (.heredoc label.bytes raw) (mode :: outer)

/-- The bytes at which a region is entered: a quote, the head of a heredoc, or the opener of an
embedded expression. -/
inductive Opens (b : UInt8) (rest : List UInt8) : Mode → Mode → Prop
  | quote {mode : Mode} (code : mode.isCode = true) (opens : isQuote b = true) :
      Opens b rest mode (.quoted b)
  | heredoc {mode : Mode} {text : List UInt8} {head : HeredocHead} (code : mode.isCode = true)
      (first : b = ascii '<') (more : rest = ascii '<' :: ascii '<' :: text)
      (headed : heredocHead? text = some head) : Opens b rest mode (.heredoc head.label head.raw)
  | expression {mode : Mode} {n : Nat} (text : mode.embeds = true)
      (opens : interpolationLength? (b :: rest) = some n) : Opens b rest mode (.embedded 0)

/-- The bytes at which a region is left: the closing quote, the line end in front of the closing
label, or a brace that the expression has not opened. -/
inductive Closes (b : UInt8) : Mode → Prop
  | quote : Closes b (.quoted b)
  | heredoc (label : List UInt8) (raw : Bool) (line : b = newline) : Closes b (.heredoc label raw)
  | expression (brace : b = ascii '\x7d') : Closes b (.embedded 0)

/-- What a move at `b` with `rest` behind it can do to the mode and the modes around it. -/
inductive Shift (b : UInt8) (rest : List UInt8) : Mode → List Mode → Mode → List Mode → Prop
  | stay (mode : Mode) (outer : List Mode) : Shift b rest mode outer mode outer
  | openTag (outer : List Mode) {n : Nat} (tag : openTagLength? (b :: rest) = some n) :
      Shift b rest .outside outer .code outer
  | closeTag (outer : List Mode) (first : b = ascii '?')
      (second : nextIs (· == ascii '>') rest = true) : Shift b rest .code outer .outside outer
  | openBrace (depth : Nat) (outer : List Mode) (brace : b = ascii '\x7b') :
      Shift b rest (.embedded depth) outer (.embedded (depth + 1)) outer
  | closeBrace (depth : Nat) (outer : List Mode) (brace : b = ascii '\x7d') :
      Shift b rest (.embedded (depth + 1)) outer (.embedded depth) outer
  | enter {mode inner : Mode} (outer : List Mode) (opens : Opens b rest mode inner) :
      Shift b rest mode outer inner (mode :: outer)
  | leave {inner : Mode} (mode : Mode) (outer : List Mode) (closes : Closes b inner) :
      Shift b rest inner (mode :: outer) mode outer

theorem Opens.nested {b : UInt8} {rest : List UInt8} {mode inner : Mode} {outer : List Mode}
    (opens : Opens b rest mode inner) (around : Nested mode outer) : Nested inner (mode :: outer) := by
  cases opens with
  | quote code opens => exact .quoted opens code around
  | heredoc code _ _ headed =>
    obtain ⟨⟨label, bytes⟩, _, _⟩ := heredocHead?_fits headed
    rw [bytes]
    exact .heredoc label _ code around
  | expression text _ => exact .embedded 0 text around

/-- A region stands in a mode that is nested itself. -/
theorem Nested.around {inner mode : Mode} {outer : List Mode} (nested : Nested inner (mode :: outer)) :
    Nested mode outer := by
  cases nested with
  | embedded _ _ around => exact around
  | quoted _ _ around => exact around
  | heredoc _ _ _ around => exact around

theorem Nested.heredoc_label {label : List UInt8} {raw : Bool} {outer : List Mode}
    (nested : Nested (.heredoc label raw) outer) : ∃ l : Label, label = l.bytes := by
  cases nested with
  | heredoc l _ _ _ => exact ⟨l, rfl⟩

/-- Every change keeps the modes well nested. -/
theorem Shift.nested {b : UInt8} {rest : List UInt8} {mode mode' : Mode} {outer outer' : List Mode}
    (shift : Shift b rest mode outer mode' outer') (nested : Nested mode outer) :
    Nested mode' outer' := by
  cases shift with
  | stay => exact nested
  | openTag => cases nested; exact .code
  | closeTag => cases nested; exact .outside
  | openBrace depth =>
    cases nested with
    | embedded _ text around => exact .embedded (depth + 1) text around
  | closeBrace depth =>
    cases nested with
    | embedded _ text around => exact .embedded depth text around
  | enter _ opens => exact opens.nested nested
  | leave => exact nested.around

/-- The modes around stay, or get one more, or give back the innermost. -/
theorem Shift.stack {b : UInt8} {rest : List UInt8} {mode mode' : Mode} {outer outer' : List Mode}
    (shift : Shift b rest mode outer mode' outer') :
    outer' = outer ∨ outer' = mode :: outer ∨ outer = mode' :: outer' := by
  cases shift with
  | stay => exact .inl rfl
  | openTag => exact .inl rfl
  | closeTag => exact .inl rfl
  | openBrace => exact .inl rfl
  | closeBrace => exact .inl rfl
  | enter => exact .inr (.inl rfl)
  | leave => exact .inr (.inr rfl)

/-! ## Every move is of that kind -/

/-- A move stays in the text and changes the modes in one of the ways listed. -/
structure Move.Lawful (b : UInt8) (rest : List UInt8) (mode : Mode) (outer : List Mode) (m : Move) :
    Prop where
  fits : m.more ≤ rest.length
  shift : Shift b rest mode outer m.next.mode m.next.outer

/-- A choice between moves is lawful if both are. -/
theorem Move.lawful_ite {b : UInt8} {rest : List UInt8} {mode : Mode} {outer : List Mode} {c : Prop}
    [Decidable c] {first second : Move} (yes : c → first.Lawful b rest mode outer)
    (no : ¬ c → second.Lawful b rest mode outer) :
    (if c then first else second).Lawful b rest mode outer :=
  iteInduction (motive := Move.Lawful b rest mode outer) yes no

namespace State

variable {b : UInt8} {rest : List UInt8}

theorem pass_lawful (s : State) {more : Nat} (fits : more ≤ rest.length) :
    (s.pass more).Lawful b rest s.mode s.outer :=
  ⟨fits, .stay _ _⟩

theorem escape_lawful (s : State) : (s.escape rest).Lawful b rest s.mode s.outer :=
  s.pass_lawful (Nat.min_le_right _ _)

theorem enter_lawful (s : State) {inner : Mode} {more : Nat} (fits : more ≤ rest.length)
    (opens : Opens b rest s.mode inner) :
    ((s.enter inner).pass more).Lawful b rest s.mode s.outer :=
  ⟨fits, .enter _ opens⟩

theorem leave_lawful {s : State} {more : Nat} (fits : more ≤ rest.length)
    (nested : Nested s.mode s.outer) (closes : Closes b s.mode) :
    (s.leave.pass more).Lawful b rest s.mode s.outer := by
  obtain ⟨mode, outer, inDeclaration, afterMember⟩ := s
  cases outer with
  | nil => cases nested <;> cases closes
  | cons around outer => exact ⟨fits, .leave around outer closes⟩

theorem outsideMove_lawful {s : State} (outside : s.mode = .outside) :
    (s.outsideMove b rest).Lawful b rest s.mode s.outer := by
  rw [outsideMove]
  split
  · next n tag =>
    have fits := openTagLength?_fits tag
    rw [List.length_cons] at fits
    rw [outside]
    exact ⟨by simp only [pass]; omega, .openTag s.outer tag⟩
  · exact s.pass_lawful (Nat.zero_le _)

theorem textMove_lawful {s : State} (text : s.mode.embeds = true) :
    (s.textMove b rest).Lawful b rest s.mode s.outer := by
  rw [textMove]
  split
  · next n opens =>
    obtain ⟨_, fits⟩ := interpolationLength?_fits opens
    rw [List.length_cons] at fits
    exact s.enter_lawful (by omega) (.expression text opens)
  · exact s.pass_lawful (Nat.zero_le _)

theorem quotedMove_lawful {s : State} {quote : UInt8} (mode : s.mode = .quoted quote)
    (nested : Nested s.mode s.outer) :
    (s.quotedMove quote b rest).Lawful b rest s.mode s.outer := by
  rw [quotedMove]
  refine Move.lawful_ite (fun _ => s.escape_lawful) fun _ => ?_
  refine Move.lawful_ite (fun closing => ?_) fun _ => ?_
  · refine leave_lawful (Nat.zero_le _) nested ?_
    rw [mode, ← beq_iff_eq.mp closing]
    exact .quote
  refine Move.lawful_ite (fun _ => s.pass_lawful (Nat.zero_le _)) fun double => ?_
  refine textMove_lawful ?_
  rw [mode]
  simpa [Mode.embeds] using double

theorem heredocLine_next (s : State) (label : List UInt8) (lineEnd : Nat) (body : List UInt8) :
    (s.heredocLine label lineEnd body).next =
      if (heredocLineStart label body).2 then s.leave else s :=
  rfl

/-- A line of a heredoc stays in the text. -/
theorem heredocLine_fits (s : State) (label : List UInt8) (lineEnd : Nat)
    (fits : lineEnd ≤ rest.length) :
    (s.heredocLine label lineEnd (rest.drop lineEnd)).more ≤ rest.length := by
  have taken := heredocLineStart_fits label (rest.drop lineEnd)
  rw [List.length_drop] at taken
  simp only [heredocLine, pass]
  omega

theorem heredocMove_lawful {s : State} {label : List UInt8} {raw : Bool}
    (mode : s.mode = .heredoc label raw) (nested : Nested s.mode s.outer) :
    (s.heredocMove label raw b rest).Lawful b rest s.mode s.outer := by
  rw [heredocMove]
  refine Move.lawful_ite (fun line => ?_) fun _ => ?_
  · refine ⟨s.heredocLine_fits label 0 (Nat.zero_le rest.length), ?_⟩
    rw [heredocLine_next]
    split
    · refine (leave_lawful (Nat.zero_le _) nested ?_).shift
      rw [mode]
      exact .heredoc label raw (beq_iff_eq.mp line)
    · exact .stay _ _
  refine Move.lawful_ite (fun _ => s.pass_lawful (Nat.zero_le _)) fun cooked => ?_
  refine Move.lawful_ite (fun _ => s.escape_lawful) fun _ => ?_
  refine textMove_lawful ?_
  rw [mode]
  simpa [Mode.embeds] using cooked

theorem name_lawful (s : State) (member : Bool) :
    (s.name member b rest).Lawful b rest s.mode s.outer := by
  have longer := (nameBytes_isPrefix (b :: rest)).length_le
  rw [List.length_cons] at longer
  rw [name]
  refine Move.lawful_ite (fun _ => ?_) fun _ => ?_
  · refine Move.lawful_ite (fun _ => ?_) fun _ => s.pass_lawful (Nat.zero_le _)
    exact ⟨(nameBytes_isPrefix rest).length_le, .stay _ _⟩
  refine Move.lawful_ite (fun _ => ?_) fun _ => ⟨by dsimp only; omega, .stay _ _⟩
  refine ⟨by simp only [pass]; omega, ?_⟩
  rw [pass]
  split
  · exact .stay _ _
  · exact .stay _ _

/-- What follows two bytes that are there begins with them. -/
theorem exists_rest_of_nextIs {first second : UInt8} {text : List UInt8}
    (one : nextIs (· == first) text = true) (two : nextIs (· == second) (text.drop 1) = true) :
    ∃ behind, text = first :: second :: behind := by
  cases text with
  | nil => simp at one
  | cons c text =>
    cases text with
    | nil => simp at two
    | cons d text =>
      simp only [nextIs_cons, List.drop_succ_cons, List.drop_zero, beq_iff_eq] at one two
      exact ⟨text, by rw [one, two]⟩

theorem heredocOpener_lawful {s : State} (code : s.mode.isCode = true) {text : List UInt8}
    (first : b = ascii '<') (more : rest = ascii '<' :: ascii '<' :: text) :
    (match heredocHead? (rest.drop 2) with
      | none => s.pass 2
      | some head =>
        (s.enter (.heredoc head.label head.raw)).heredocLine head.label (2 + head.length)
          (rest.drop (2 + head.length))).Lawful b rest s.mode s.outer := by
  have long : rest.length = text.length + 2 := by rw [more]; rfl
  split
  · exact s.pass_lawful (by omega)
  · next head headed =>
    have behind : rest.drop 2 = text := by rw [more]; rfl
    rw [behind] at headed
    obtain ⟨_, _, fits⟩ := heredocHead?_fits headed
    refine ⟨heredocLine_fits _ head.label (2 + head.length) (by omega), ?_⟩
    rw [heredocLine_next]
    split
    · -- The first line closes the body at once.
      exact .stay _ _
    · exact .enter _ (.heredoc code first more headed)

theorem token_lawful {s : State} (member : Bool) (code : s.mode.isCode = true)
    (nested : Nested s.mode s.outer) : (s.token member b rest).Lawful b rest s.mode s.outer := by
  have byte := Nat.zero_le rest.length
  rw [token]
  refine Move.lawful_ite (fun arrow => ?_) fun _ => ?_
  · simp only [Bool.and_eq_true] at arrow
    exact ⟨length_pos_of_nextIs arrow.2, .stay _ _⟩
  refine Move.lawful_ite (fun arrow => ?_) fun _ => ?_
  · simp only [Bool.and_eq_true] at arrow
    obtain ⟨behind, more⟩ := exists_rest_of_nextIs arrow.1.2 arrow.2
    exact ⟨by rw [more]; simp [pass], .stay _ _⟩
  refine Move.lawful_ite (fun colons => ?_) fun _ => ?_
  · simp only [Bool.and_eq_true] at colons
    exact ⟨length_pos_of_nextIs colons.2, .stay _ _⟩
  refine Move.lawful_ite (fun quote => ?_) fun _ => ?_
  · exact s.enter_lawful byte (.quote code quote)
  refine Move.lawful_ite (fun opener => ?_) fun _ => ?_
  · simp only [Bool.and_eq_true, beq_iff_eq] at opener
    obtain ⟨behind, more⟩ := exists_rest_of_nextIs opener.1.2 opener.2
    exact heredocOpener_lawful code opener.1.1 more
  refine Move.lawful_ite (fun _ => s.pass_lawful (runLength_le _ _)) fun _ => ?_
  refine Move.lawful_ite (fun _ => ⟨byte, .stay _ _⟩) fun _ => ?_
  refine Move.lawful_ite (fun _ => s.pass_lawful (runLength_le _ _)) fun _ => ?_
  refine Move.lawful_ite (fun _ => s.name_lawful member) fun _ => ?_
  split
  · next depth mode =>
    refine Move.lawful_ite (fun brace => ?_) fun _ => ?_
    · rw [mode]
      exact ⟨byte, .openBrace depth _ (beq_iff_eq.mp brace)⟩
    refine Move.lawful_ite (fun brace => ?_) fun _ => s.pass_lawful byte
    have brace := beq_iff_eq.mp brace
    split
    · refine leave_lawful byte nested ?_
      rw [mode]
      exact .expression brace
    · rw [mode]
      exact ⟨byte, .closeBrace _ _ brace⟩
  · exact s.pass_lawful byte

theorem codeMove_lawful {s : State} (code : s.mode.isCode = true) (nested : Nested s.mode s.outer) :
    (s.codeMove b rest).Lawful b rest s.mode s.outer := by
  rw [codeMove]
  refine Move.lawful_ite (fun _ => s.pass_lawful (Nat.zero_le _)) fun _ => ?_
  refine Move.lawful_ite (fun tag => ?_) fun _ => ?_
  · simp only [Bool.and_eq_true, beq_iff_eq] at tag
    obtain ⟨⟨mode, first⟩, second⟩ := tag
    rw [mode]
    exact ⟨length_pos_of_nextIs second, .closeTag _ first second⟩
  refine Move.lawful_ite (fun _ => s.pass_lawful (commentLineLength_le _)) fun _ => ?_
  refine Move.lawful_ite (fun comment => ?_) fun _ => ?_
  · simp only [Bool.and_eq_true] at comment
    have positive := length_pos_of_nextIs comment.2
    have inside := commentBlockLength_le (rest.drop 1)
    rw [List.length_drop] at inside
    exact s.pass_lawful (by omega)
  exact token_lawful (s := { s with afterMember := false }) _ code nested

/-- Where the modes are well nested, every move stays in the text and is of the kind listed. -/
theorem move_lawful {s : State} (nested : Nested s.mode s.outer) (b : UInt8) (rest : List UInt8) :
    (s.move b rest).Lawful b rest s.mode s.outer := by
  rw [move]
  split
  · next mode => exact outsideMove_lawful mode
  · next mode => exact codeMove_lawful (by rw [mode]; rfl) nested
  · next mode => exact codeMove_lawful (by rw [mode]; rfl) nested
  · next mode => exact quotedMove_lawful mode nested
  · next mode => exact heredocMove_lawful mode nested

end State

end LayerGuard.Source
