import LayerGuard.Proofs.Source.Position

/-! # Bodies of heredocs

A heredoc begins with `<<<`, a label that may be quoted, and the end of the line. Its body ends at
the first line that begins with the label, blanks apart, unless the label goes on there. If no line
opens embedded code, or if the label is in single quotes so that none can, then no line before that
one is read as code, whatever backslashes, names or quotes stand in it, and nothing is recorded.
-/

namespace LayerGuard.Source

/-! ## Heredocs as they are written -/

/-- How the label stands behind `<<<`. -/
inductive LabelForm where
  | bare
  | doubleQuoted
  | singleQuoted
  deriving DecidableEq, Repr

namespace LabelForm

def write (label : Label) : LabelForm → List UInt8
  | bare => label.bytes
  | doubleQuoted => ascii '"' :: label.bytes ++ [ascii '"']
  | singleQuoted => ascii '\'' :: label.bytes ++ [ascii '\'']

/-- Whether the body holds no code. -/
def raw : LabelForm → Bool
  | singleQuoted => true
  | _ => false

end LabelForm

/-- The end of a line, with a carriage return or without one. -/
def lineEnd (returns : Bool) : List UInt8 := if returns then [0x0D, newline] else [newline]

/-- Text of one line that opens no embedded code, or cannot because it is raw. -/
structure PlainText (raw : Bool) (text : List UInt8) : Prop where
  oneLine : newline ∉ text
  unopened : raw = false →
    ¬ [ascii '\x7b', ascii '$'] <:+: text ∧ ¬ [ascii '$', ascii '\x7b'] <:+: text

/-- A line that does not close a body: behind its blanks it does not begin with the label, or the
label goes on there. -/
structure BodyLine (label : Label) (raw : Bool) (line : List UInt8) : Prop extends
    PlainText raw line where
  unclosed : ∀ behind, line.dropWhile isIndent = label.bytes ++ behind →
    nextIs isLabelByte behind = true

/-- A heredoc or nowdoc from `<<<` through its closing label. -/
structure Heredoc where
  indent : List UInt8
  indented : ∀ b ∈ indent, isIndent b = true
  label : Label
  form : LabelForm
  returns : Bool
  lines : List (List UInt8)
  plain : ∀ line ∈ lines, BodyLine label form.raw line
  closingIndent : List UInt8
  closingIndented : ∀ b ∈ closingIndent, isIndent b = true

namespace Heredoc

/-- The bytes behind `<<<` up to the body. -/
def head (h : Heredoc) : List UInt8 := h.indent ++ h.form.write h.label ++ lineEnd h.returns

/-- The bytes of lines, each with its end, and of the closing label behind its blanks. -/
def body (h : Heredoc) (lines : List (List UInt8)) : List UInt8 :=
  lines.flatMap (· ++ [newline]) ++ (h.closingIndent ++ h.label.bytes)

def bytes (h : Heredoc) : List UInt8 :=
  [ascii '<', ascii '<', ascii '<'] ++ h.head ++ h.body h.lines

end Heredoc

/-! ## The head -/

theorem lineEndLength?_lineEnd (returns : Bool) (rest : List UInt8) :
    lineEndLength? (lineEnd returns ++ rest) = some (lineEnd returns).length := by
  cases returns <;> rfl

theorem nextIs_lineEnd {inClass : UInt8 → Bool} (returns : Bool) (rest : List UInt8)
    (feed : inClass newline = false) (carriage : inClass 0x0D = false) :
    nextIs inClass (lineEnd returns ++ rest) = false := by
  cases returns
  · exact feed
  · exact carriage

theorem Label.firstLabel_append (label : Label) {rest : List UInt8}
    (ends : nextIs isLabelByte rest = false) : firstLabel (label.bytes ++ rest) = label.bytes := by
  have first := firstLabel_joinLabels label [] ends
  rwa [joinLabels_nil] at first

theorem isIndent_of_start {b : UInt8} (starts : isLabelStart b = true) : isIndent b = false := by
  rw [isIndent, Bool.or_eq_false_iff]
  exact ⟨beq_eq_false_of_class starts (by decide), beq_eq_false_of_class starts (by decide)⟩

section Head

variable {indent : List UInt8} (indented : ∀ b ∈ indent, isIndent b = true) (label : Label)
  (returns : Bool) (rest : List UInt8)

include indented

/-- A head whose label stands alone. -/
theorem heredocHead?_bare :
    heredocHead? (indent ++ label.bytes ++ lineEnd returns ++ rest) =
      some ⟨label.bytes, false, (indent ++ label.bytes ++ lineEnd returns).length⟩ := by
  have unquoted : (label.first == ascii '\'' || label.first == ascii '"') = false := by
    rw [Bool.or_eq_false_iff]
    exact ⟨beq_eq_false_of_class label.starts (by decide),
      beq_eq_false_of_class label.starts (by decide)⟩
  have starts : nextIs isLabelStart (label.bytes ++ (lineEnd returns ++ rest)) = true :=
    label.starts
  have first := label.firstLabel_append (nextIs_lineEnd returns rest rfl rfl)
  have blanks : runLength isIndent (indent ++ (label.bytes ++ (lineEnd returns ++ rest))) =
      indent.length := runLength_append indented (isIndent_of_start label.starts)
  have read : heredocLabel? none (label.bytes ++ (lineEnd returns ++ rest)) =
      some (label.bytes, label.bytes.length + (lineEnd returns).length) := by
    simp only [heredocLabel?, first, starts, List.drop_left, lineEndLength?_lineEnd, Bool.not_true,
      Bool.false_eq_true, ↓reduceIte, Option.map_some]
  simp only [heredocHead?, List.append_assoc, List.length_append, blanks, List.drop_left]
  rw [Label.bytes, List.cons_append] at read
  simp only [Label.bytes, List.cons_append, unquoted, read, Bool.false_eq_true, ↓reduceIte,
    Option.map_some]

/-- A head whose label stands in quotes. Single quotes make the body raw. -/
theorem heredocHead?_quoted {quote : UInt8}
    (quoted : (quote == ascii '\'' || quote == ascii '"') = true) :
    heredocHead? (indent ++ (quote :: label.bytes ++ [quote]) ++ lineEnd returns ++ rest) =
      some ⟨label.bytes, quote == ascii '\'',
        (indent ++ (quote :: label.bytes ++ [quote]) ++ lineEnd returns).length⟩ := by
  have outside : isIndent quote = false ∧ isLabelByte quote = false := by
    simp only [Bool.or_eq_true, beq_iff_eq] at quoted
    rcases quoted with rfl | rfl <;> exact ⟨rfl, rfl⟩
  have starts : nextIs isLabelStart (label.bytes ++ quote :: (lineEnd returns ++ rest)) = true :=
    label.starts
  have first : firstLabel (label.bytes ++ quote :: (lineEnd returns ++ rest)) = label.bytes :=
    label.firstLabel_append outside.2
  have blanks : runLength isIndent
      (indent ++ (quote :: (label.bytes ++ quote :: (lineEnd returns ++ rest)))) = indent.length :=
    runLength_append indented outside.1
  have read : heredocLabel? (some quote) (label.bytes ++ quote :: (lineEnd returns ++ rest)) =
      some (label.bytes, label.bytes.length + 1 + (lineEnd returns).length) := by
    simp only [heredocLabel?, first, starts, List.drop_left, nextIs_cons, beq_self_eq_true,
      List.drop_succ_cons, List.drop_zero, lineEndLength?_lineEnd, Bool.not_true,
      Bool.false_eq_true, ↓reduceIte, Option.map_some]
  have written : indent ++ (quote :: label.bytes ++ [quote]) ++ lineEnd returns ++ rest =
      indent ++ (quote :: (label.bytes ++ quote :: (lineEnd returns ++ rest))) := by simp
  have length : (indent ++ (quote :: label.bytes ++ [quote]) ++ lineEnd returns).length =
      indent.length + 1 + (label.bytes.length + 1 + (lineEnd returns).length) := by
    simp only [List.length_append, List.length_cons, List.length_nil]
    omega
  rw [written, length]
  simp only [heredocHead?, blanks, List.drop_left, quoted, read, ↓reduceIte, Option.map_some]

end Head

/-- The head is read as it is written. -/
theorem Heredoc.heredocHead?_append (h : Heredoc) (rest : List UInt8) :
    heredocHead? (h.head ++ rest) = some ⟨h.label.bytes, h.form.raw, h.head.length⟩ := by
  rw [head]
  cases h.form with
  | bare => exact heredocHead?_bare h.indented h.label h.returns rest
  | doubleQuoted => exact heredocHead?_quoted h.indented h.label h.returns rest rfl
  | singleQuoted => exact heredocHead?_quoted h.indented h.label h.returns rest rfl

/-! ## The start of a line -/

theorem nextIs_dropWhile (inClass : UInt8 → Bool) (line : List UInt8) {b : UInt8}
    (outside : inClass b = false) (rest : List UInt8) :
    nextIs inClass (line.dropWhile inClass ++ b :: rest) = false := by
  cases tail : line.dropWhile inClass with
  | nil => exact outside
  | cons d tail' =>
    have nonempty : line.dropWhile inClass ≠ [] := by simp [tail]
    have stops := List.head_dropWhile_not inClass nonempty
    simpa [tail] using stops

/-- Behind its blanks a line does not close the body that it stands in. -/
theorem BodyLine.startsWord_eq {label : Label} {raw : Bool} {line : List UInt8}
    (plain : BodyLine label raw line) (rest : List UInt8) :
    startsWord label.bytes (line.dropWhile isIndent ++ newline :: rest) = false := by
  rw [Bool.eq_false_iff]
  intro closes
  rw [startsWord, Bool.and_eq_true, List.isPrefixOf_iff_prefix] at closes
  obtain ⟨⟨behind, written⟩, stops⟩ := closes
  rw [← written, List.drop_left, Bool.not_eq_true'] at stops
  rcases List.append_eq_append_iff.mp written with ⟨more, tail, follows⟩ | ⟨more, short, follows⟩
  · -- The label lies in the line, so it goes on there.
    have continues := plain.unclosed more tail
    cases more with
    | nil => simp at continues
    | cons b more =>
      rw [follows, List.cons_append, nextIs_cons] at stops
      rw [nextIs_cons, stops] at continues
      contradiction
  · cases more with
    | nil =>
      rw [List.append_nil] at short
      have continues := plain.unclosed [] (by rw [short, List.append_nil])
      simp at continues
    | cons b more =>
      -- The label would hold the line feed behind the line.
      injection follows with feed _
      have inside := label.isLabelByte_of_mem (b := b) (by rw [short]; simp)
      rw [← feed] at inside
      contradiction

/-- What the scanner does behind the end of a line: it passes the blanks and, if the label closes
the body there, the label. -/
def Cursor.lineStart (c : Cursor) (label text : List UInt8) : Position :=
  ⟨c.skip (if (heredocLineStart label text).2 then c.state.leave else c.state)
      (text.take (heredocLineStart label text).1),
    text.drop (heredocLineStart label text).1⟩

/-- At the start of a line that does not close the body its blanks are passed. -/
theorem BodyLine.lineStart_eq {label : Label} {raw : Bool} {line : List UInt8}
    (plain : BodyLine label raw line) (c : Cursor) (rest : List UInt8) :
    c.lineStart label.bytes (line ++ newline :: rest) =
      ⟨c.skip c.state (line.takeWhile isIndent), line.dropWhile isIndent ++ newline :: rest⟩ := by
  have split : line ++ newline :: rest =
      line.takeWhile isIndent ++ (line.dropWhile isIndent ++ newline :: rest) := by
    rw [← List.append_assoc, List.takeWhile_append_dropWhile]
  have blanks : runLength isIndent
      (line.takeWhile isIndent ++ (line.dropWhile isIndent ++ newline :: rest)) =
        (line.takeWhile isIndent).length :=
    runLength_append (List.all_eq_true.mp List.all_takeWhile)
      (nextIs_dropWhile isIndent line rfl rest)
  simp only [Cursor.lineStart, split, heredocLineStart, blanks, List.drop_left, List.take_left,
    plain.startsWord_eq, Bool.false_eq_true, ↓reduceIte]

/-- At the start of the last line its blanks and the closing label are passed. -/
theorem Cursor.lineStart_closing (c : Cursor) {indent : List UInt8}
    (indented : ∀ b ∈ indent, isIndent b = true) (label : Label) {rest : List UInt8}
    (ends : nextIs isLabelByte rest = false) :
    c.lineStart label.bytes (indent ++ label.bytes ++ rest) =
      ⟨c.skip c.state.leave (indent ++ label.bytes), rest⟩ := by
  have blanks : runLength isIndent (indent ++ (label.bytes ++ rest)) = indent.length :=
    runLength_append indented (isIndent_of_start label.starts)
  have closes : startsWord label.bytes (label.bytes ++ rest) = true := by
    rw [startsWord, List.drop_left, ends, List.isPrefixOf_iff_prefix.mpr (List.prefix_append _ _)]
    rfl
  have start : heredocLineStart label.bytes (indent ++ label.bytes ++ rest) =
      ((indent ++ label.bytes).length, true) := by
    simp only [heredocLineStart, List.append_assoc, blanks, List.drop_left, closes, ↓reduceIte,
      List.length_append]
  simp only [lineStart, start, List.take_left, List.drop_left, ↓reduceIte]

/-- A move over the end of a line leads to the start of the next one. -/
theorem Position.Step.lineStart {c : Cursor} {b : UInt8} (front : List UInt8) {text : List UInt8}
    {s : State} {label : List UInt8}
    (moves : c.state.move b (front ++ text) = s.heredocLine label front.length text) :
    Step ⟨c, b :: (front ++ text)⟩ ((c.skip s (b :: front)).lineStart label text) := by
  have step := Step.move c b (front ++ text)
  rw [moves] at step
  simp only [State.heredocLine, State.pass, List.take_length_add_append,
    List.drop_length_add_append] at step
  rwa [Cursor.lineStart, Cursor.skip_skip]

/-! ## The text of a line -/

theorem PlainText.suffix {raw : Bool} {text tail : List UInt8} (plain : PlainText raw text)
    (suffix : tail <:+ text) : PlainText raw tail where
  oneLine member := plain.oneLine (suffix.subset member)
  unopened cooked :=
    ⟨fun inner => (plain.unopened cooked).1 (inner.trans suffix.isInfix),
      fun inner => (plain.unopened cooked).2 (inner.trans suffix.isInfix)⟩

/-- A pair of bytes that does not stand in a line does not begin in it either. -/
theorem pair_free_line {first second b : UInt8} {text : List UInt8}
    (free : ¬ [first, second] <:+: b :: text) (inside : second ≠ newline) (rest : List UInt8) :
    (b == first && nextIs (· == second) (text ++ newline :: rest)) = false := by
  cases text with
  | nil => simp [inside.symm]
  | cons d text => exact (pair_free_cons free).1

/-- A move within a line stays in the line and in the body. -/
theorem PlainText.exists_move {raw : Bool} {b : UInt8} {more : List UInt8}
    (plain : PlainText raw (b :: more)) (s : State) (label rest : List UInt8) :
    ∃ taken left, more = taken ++ left ∧
      s.heredocMove label raw b (more ++ newline :: rest) = s.pass taken.length := by
  have inLine : (b == newline) = false := by
    rw [beq_eq_false_iff_ne]
    rintro rfl
    exact plain.oneLine (List.mem_cons_self ..)
  cases raw with
  | true => exact ⟨[], more, rfl, by simp [State.heredocMove, inLine]⟩
  | false =>
    obtain ⟨unbraced, undollared⟩ := plain.unopened rfl
    have text : s.textMove b (more ++ newline :: rest) = s.pass 0 :=
      s.textMove_plain (pair_free_line unbraced (by decide) rest)
        (pair_free_line undollared (by decide) rest)
    cases more with
    | nil =>
      -- A backslash at the end of the line escapes nothing.
      refine ⟨[], [], rfl, ?_⟩
      simpa [State.heredocMove, inLine] using text
    | cons d more =>
      have next : (d == newline) = false := by
        rw [beq_eq_false_iff_ne]
        rintro rfl
        exact plain.oneLine (by simp)
      cases escaped : b == separator with
      | true =>
        refine ⟨[d], more, rfl, ?_⟩
        simp [State.heredocMove, inLine, escaped, next, State.escape]
      | false =>
        refine ⟨[], d :: more, rfl, ?_⟩
        simpa [State.heredocMove, inLine, escaped] using text

/-- The text of a line is passed to its end. -/
theorem Cursor.within_line {height : Nat} {label : List UInt8} {raw : Bool} {text : List UInt8}
    (plain : PlainText raw text) {c : Cursor} (mode : c.state.mode = .heredoc label raw)
    (deep : height < c.state.outer.length) (rest : List UInt8) :
    Position.Within (Position.deeperThan height) ⟨c, text ++ newline :: rest⟩
      ⟨c.skip c.state text, newline :: rest⟩ := by
  induction length : text.length using Nat.strongRecOn generalizing text c with
  | ind n ih =>
    cases text with
    | nil => exact .refl
    | cons b more =>
      obtain ⟨taken, left, rfl, moves⟩ := plain.exists_move c.state label rest
      have step : Position.Step ⟨c, b :: (taken ++ (left ++ newline :: rest))⟩
          ⟨c.skip c.state (b :: taken), left ++ newline :: rest⟩ := by
        refine .pass taken ?_ rfl
        rw [← List.append_assoc, ← moves, State.move, mode]
      have shorter : left.length < n := by
        rw [← length, List.length_cons, List.length_append]
        omega
      have behind := ih left.length shorter (plain.suffix (List.suffix_append (b :: taken) left))
        (c := c.skip c.state (b :: taken)) mode deep rfl
      rw [Cursor.skip_skip] at behind
      rw [List.cons_append, List.append_assoc]
      exact .head ⟨deep, step⟩ behind

/-! ## The whole body -/

/-- The end of a line inside a body. -/
theorem State.move_heredocLine {s : State} {label : List UInt8} {raw : Bool}
    (mode : s.mode = .heredoc label raw) (rest : List UInt8) :
    s.move newline rest = s.heredocLine label 0 rest := by
  simp only [move, mode, heredocMove, beq_self_eq_true, ↓reduceIte]

/-- `<<<` with a head behind it enters a body. -/
theorem State.codeMove_heredoc (s : State) {text : List UInt8} {head : HeredocHead}
    (headed : heredocHead? text = some head) :
    s.codeMove (ascii '<') (ascii '<' :: ascii '<' :: text) =
      ({ s with afterMember := false }.enter (.heredoc head.label head.raw)).heredocLine head.label
        (2 + head.length) (text.drop head.length) := by
  have behind : (ascii '<' :: ascii '<' :: text).drop (2 + head.length) =
      text.drop head.length := by
    rw [Nat.add_comm]
    rfl
  rw [← behind]
  simp [codeMove, token, isSpace, headed]

namespace Heredoc

theorem body_nil (h : Heredoc) : h.body [] = h.closingIndent ++ h.label.bytes := rfl

theorem body_cons (h : Heredoc) (line : List UInt8) (lines : List (List UInt8)) :
    h.body (line :: lines) = line ++ newline :: h.body lines := by
  simp [body]

/-- From the start of a line of a body on, every line is passed and the body ends behind the closing
label. -/
theorem until_closingLabel (h : Heredoc) {mode : Mode} {outer : List Mode} {c : Cursor}
    (inside : c.state.mode = .heredoc h.label.bytes h.form.raw)
    (around : c.state.outer = mode :: outer) {lines : List (List UInt8)}
    (plain : ∀ line ∈ lines, BodyLine h.label h.form.raw line)
    {rest : List UInt8} (ends : nextIs isLabelByte rest = false) :
    Position.Until (Position.deeperThan outer.length)
      (c.lineStart h.label.bytes (h.body lines ++ rest))
      ⟨c.skip c.state.leave (h.body lines), rest⟩ := by
  induction lines generalizing c with
  | nil =>
    rw [body_nil, c.lineStart_closing h.closingIndented h.label ends]
    have height : c.state.leave.outer.length = outer.length := by simp [State.leave, around]
    exact .stop (.inr (Nat.not_lt_of_le (Nat.le_of_eq height)))
  | cons line lines ih =>
    have deep : outer.length < c.state.outer.length := by simp [around]
    have here := plain line (List.mem_cons_self ..)
    have text := Cursor.within_line (here.suffix (List.dropWhile_suffix isIndent))
      (c := c.skip c.state (line.takeWhile isIndent)) inside deep (h.body lines ++ rest)
    rw [Cursor.skip_skip, List.takeWhile_append_dropWhile] at text
    have lineEnd := Position.Step.lineStart [] (c := c.skip c.state line)
      (State.move_heredocLine inside (h.body lines ++ rest))
    have behind := ih (c := (c.skip c.state line).skip c.state [newline]) inside around
      fun other member => plain other (List.mem_cons_of_mem _ member)
    rw [body_cons, List.append_assoc, List.cons_append, here.lineStart_eq]
    refine text.until (.step deep lineEnd ?_)
    rw [Cursor.skip_skip, Cursor.skip_skip, List.append_assoc] at behind
    rw [Cursor.skip_skip]
    exact behind

/-- Wherever a heredoc begins in code, it is passed exactly to behind its closing label. Nothing is
recorded on the way, a declaration stays open or closed, and the lines are counted. -/
theorem passes_closingLabel_iff (h : Heredoc) (c : Cursor) (rest : List UInt8)
    (code : c.state.mode.isCode = true) (ends : nextIs isLabelByte rest = false) (r : Position) :
    Position.Passes ⟨c, h.bytes ++ rest⟩ r ↔
      r = ⟨⟨{ c.state with afterMember := false }, c.offset + h.bytes.length,
        c.line + lineFeeds h.bytes, c.found⟩, rest⟩ := by
  have written : h.bytes ++ rest =
      ascii '<' :: (ascii '<' :: ascii '<' :: h.head ++ (h.body h.lines ++ rest)) := by
    rw [bytes, List.append_assoc]
    rfl
  have moves : c.state.move (ascii '<')
      (ascii '<' :: ascii '<' :: h.head ++ (h.body h.lines ++ rest)) =
      ({ c.state with afterMember := false }.enter (.heredoc h.label.bytes h.form.raw)).heredocLine
        h.label.bytes (ascii '<' :: ascii '<' :: h.head).length (h.body h.lines ++ rest) := by
    rw [State.move_of_isCode code]
    refine (State.codeMove_heredoc _ (h.heredocHead?_append _)).trans ?_
    rw [List.drop_left, Nat.add_comm]
    rfl
  have opens := Position.Step.lineStart _ moves
  have closes := h.until_closingLabel
    (c := c.skip ({ c.state with afterMember := false }.enter (.heredoc h.label.bytes h.form.raw))
      (ascii '<' :: ascii '<' :: ascii '<' :: h.head)) rfl rfl h.plain ends
  rw [Cursor.skip_skip] at closes
  rw [written]
  exact Position.Passes.iff_eq ⟨_, opens, closes⟩

/-- The label goes on in the first line, the second one ends in a backslash, and a carriage return
ends the head. The declaration that is open before the heredoc is open behind it. -/
theorem passes_closingLabel_iff_continued :
    ∃ h : Heredoc,
      h.bytes = "<<< \"EOT\"\r\nEOTX A\\B \"\n \\\n\tEOT".toList.map ascii ∧
      Position.Passes
        ⟨⟨⟨.embedded 1, [.quoted 34, .code], true, true⟩, 6, 1, []⟩, h.bytes ++ [ascii ';']⟩
        ⟨⟨⟨.embedded 1, [.quoted 34, .code], true, false⟩, 35, 4, []⟩, [ascii ';']⟩ := by
  let label : Label := ⟨ascii 'E', [ascii 'O', ascii 'T'], by decide, List.all_eq_true.mp rfl⟩
  let first : List UInt8 := "EOTX A\\B \"".toList.map ascii
  let second : List UInt8 := " \\".toList.map ascii
  have closed {line : List UInt8} (free : ascii '$' ∉ line) :
      ¬ [ascii '\x7b', ascii '$'] <:+: line ∧ ¬ [ascii '$', ascii '\x7b'] <:+: line :=
    ⟨fun inner => free (inner.subset (by simp)), fun inner => free (inner.subset (by simp))⟩
  have continued : BodyLine label false first := by
    refine ⟨⟨by decide, fun _ => closed (by decide)⟩, ?_⟩
    rintro behind written
    cases written
    rfl
  have escaped : BodyLine label false second := by
    refine ⟨⟨by decide, fun _ => closed (by decide)⟩, ?_⟩
    rintro behind written
    cases written
  let h : Heredoc :=
    { indent := [ascii ' '], indented := List.all_eq_true.mp rfl, label, form := .doubleQuoted
      returns := true, lines := [first, second]
      plain := List.forall_mem_cons.mpr ⟨continued, List.forall_mem_singleton.mpr escaped⟩
      closingIndent := [0x09], closingIndented := List.all_eq_true.mp rfl }
  have written : h.bytes = "<<< \"EOT\"\r\nEOTX A\\B \"\n \\\n\tEOT".toList.map ascii := rfl
  have length : h.bytes.length = 29 := by rw [written]; decide
  have lines : lineFeeds h.bytes = 3 := by rw [written]; decide
  refine ⟨h, written, ?_⟩
  rw [passes_closingLabel_iff h _ _ rfl rfl, length, lines]

end Heredoc

end LayerGuard.Source
