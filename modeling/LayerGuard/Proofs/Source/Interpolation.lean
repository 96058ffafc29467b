import LayerGuard.Proofs.Source.Occurrence
import LayerGuard.Proofs.Source.Position

/-! # Code embedded in literals

A literal between double quotes or backticks holds text and, in braces, embedded code. Embedded code
holds names, variables, groups in braces, and literals again, to any depth. The scanner comes back
from a literal exactly behind its closing quote, and it has then recorded the names of the embedded
code of all levels, in order and at their places: no text is read as code and no code as text.
-/

namespace LayerGuard.Source

/-! ## Literals as trees -/

/-- The quotes around a literal in which code may be embedded. -/
inductive Quote where
  | double
  | backtick
  deriving DecidableEq, Repr

def Quote.byte : Quote → UInt8
  | double => ascii '"'
  | backtick => ascii '\x60'

mutual

/-- Code embedded in a literal: items, each with a space behind it. -/
inductive Embedded : Type where
  | done
  /-- At least two labels, the first not the keyword. -/
  | qualified (first : Label) (ordinary : first.isKeyword = false) (second : Label)
      (more : List Label) (rest : Embedded)
  /-- A name behind a leading separator. -/
  | fullyQualified (first : Label) (more : List Label) (rest : Embedded)
  | dollar (label : Label) (rest : Embedded)
  /-- Code between braces of its own. -/
  | group (inner rest : Embedded)
  | literal (quote : Quote) (text : LiteralText quote) (rest : Embedded)

/-- The text of a literal between its quotes. -/
inductive LiteralText : Quote → Type where
  | done {quote : Quote} : LiteralText quote
  /-- A byte that stands for itself. -/
  | plain {quote : Quote} (b : UInt8) (unquoted : b ≠ quote.byte) (unescaped : b ≠ separator)
      (unbraced : b ≠ ascii '\x7b') (undollared : b ≠ ascii '$') (rest : LiteralText quote) :
      LiteralText quote
  | escape {quote : Quote} (b : UInt8) (rest : LiteralText quote) : LiteralText quote
  /-- Code in braces that begins with a variable. -/
  | braces {quote : Quote} (label : Label) (inner : Embedded) (rest : LiteralText quote) :
      LiteralText quote
  /-- Code in braces behind a dollar. -/
  | dollarBraces {quote : Quote} (inner : Embedded) (rest : LiteralText quote) : LiteralText quote

end

mutual

def Embedded.bytes : Embedded → List UInt8
  | .done => []
  | .qualified first _ second more rest =>
    joinLabels first (second :: more) ++ [ascii ' '] ++ rest.bytes
  | .fullyQualified first more rest =>
    separator :: joinLabels first more ++ [ascii ' '] ++ rest.bytes
  | .dollar label rest => ascii '$' :: label.bytes ++ [ascii ' '] ++ rest.bytes
  | .group inner rest =>
    [ascii '\x7b'] ++ inner.bytes ++ [ascii '\x7d'] ++ [ascii ' '] ++ rest.bytes
  | .literal quote text rest =>
    [quote.byte] ++ text.bytes ++ [quote.byte] ++ [ascii ' '] ++ rest.bytes

def LiteralText.bytes {quote : Quote} : LiteralText quote → List UInt8
  | .done => []
  | .plain b _ _ _ _ rest => [b] ++ rest.bytes
  | .escape b rest => [separator, b] ++ rest.bytes
  | .braces label inner rest =>
    [ascii '\x7b'] ++ (ascii '$' :: label.bytes ++ [ascii ' ']) ++ inner.bytes ++
      [ascii '\x7d'] ++ rest.bytes
  | .dollarBraces inner rest =>
    [ascii '$', ascii '\x7b'] ++ inner.bytes ++ [ascii '\x7d'] ++ rest.bytes

end

/-- A place in a text: how many bytes lie before it, and its line. -/
structure Place where
  offset : Nat
  line : Nat
  deriving DecidableEq, Repr

def Place.past (p : Place) (text : List UInt8) : Place :=
  ⟨p.offset + text.length, p.line + lineFeeds text⟩

mutual

/-- The names of embedded code that begins at a place. -/
def Embedded.occurrences : Embedded → Place → List Occurrence
  | .done, _ => []
  | .qualified first _ second more rest, p =>
    ⟨p.offset, p.line, joinLabels first (second :: more)⟩ ::
      rest.occurrences (p.past (joinLabels first (second :: more) ++ [ascii ' ']))
  | .fullyQualified first more rest, p =>
    ⟨p.offset + 1, p.line, joinLabels first more⟩ ::
      rest.occurrences (p.past (separator :: joinLabels first more ++ [ascii ' ']))
  | .dollar label rest, p => rest.occurrences (p.past (ascii '$' :: label.bytes ++ [ascii ' ']))
  | .group inner rest, p =>
    inner.occurrences (p.past [ascii '\x7b']) ++
      rest.occurrences
        (p.past ([ascii '\x7b'] ++ inner.bytes ++ [ascii '\x7d'] ++ [ascii ' ']))
  | .literal quote text rest, p =>
    text.occurrences (p.past [quote.byte]) ++
      rest.occurrences (p.past ([quote.byte] ++ text.bytes ++ [quote.byte] ++ [ascii ' ']))

/-- The names of the code embedded in the text of a literal that begins at a place. -/
def LiteralText.occurrences {quote : Quote} : LiteralText quote → Place → List Occurrence
  | .done, _ => []
  | .plain b _ _ _ _ rest, p => rest.occurrences (p.past [b])
  | .escape b rest, p => rest.occurrences (p.past [separator, b])
  | .braces label inner rest, p =>
    inner.occurrences (p.past ([ascii '\x7b'] ++ (ascii '$' :: label.bytes ++ [ascii ' ']))) ++
      rest.occurrences
        (p.past ([ascii '\x7b'] ++ (ascii '$' :: label.bytes ++ [ascii ' ']) ++ inner.bytes ++
          [ascii '\x7d']))
  | .dollarBraces inner rest, p =>
    inner.occurrences (p.past [ascii '$', ascii '\x7b']) ++
      rest.occurrences (p.past ([ascii '$', ascii '\x7b'] ++ inner.bytes ++ [ascii '\x7d']))

end

/-! ## Moves at braces and quotes -/

namespace State

variable {s : State}

theorem codeMove_openingBrace {depth : Nat} (embedded : s.mode = .embedded depth)
    (rest : List UInt8) :
    s.codeMove (ascii '\x7b') rest =
      { s with mode := .embedded (depth + 1), afterMember := false }.pass 0 := by
  simp [codeMove, token, isSpace, isDigit, isLabelStart, isLetter, separator, embedded]

/-- A closing brace ends a group if one is open. -/
theorem codeMove_closingBrace {depth : Nat} (embedded : s.mode = .embedded (depth + 1))
    (rest : List UInt8) :
    s.codeMove (ascii '\x7d') rest =
      { s with mode := .embedded depth, afterMember := false }.pass 0 := by
  simp [codeMove, token, isSpace, isDigit, isLabelStart, isLetter, separator, embedded]

/-- A closing brace ends the embedded code if no group is open. -/
theorem codeMove_lastBrace (embedded : s.mode = .embedded 0) (rest : List UInt8) :
    s.codeMove (ascii '\x7d') rest = { s with afterMember := false }.leave.pass 0 := by
  simp [codeMove, token, isSpace, isDigit, isLabelStart, isLetter, separator, embedded]

theorem codeMove_quote (s : State) (quote : Quote) (rest : List UInt8) :
    s.codeMove quote.byte rest =
      ({ s with afterMember := false }.enter (.quoted quote.byte)).pass 0 := by
  cases quote <;> simp [codeMove, token, isSpace, Quote.byte]

theorem quotedMove_escape (s : State) (quote b : UInt8) (rest : List UInt8) :
    s.quotedMove quote separator (b :: rest) = s.pass 1 := by
  simp only [quotedMove, beq_self_eq_true, ↓reduceIte, escape, List.length_cons]
  congr 1

theorem quotedMove_close (s : State) (quote : Quote) (rest : List UInt8) :
    s.quotedMove quote.byte quote.byte rest = s.leave.pass 0 := by
  cases quote <;> simp [quotedMove, Quote.byte, separator]

/-- Between these quotes a byte that is neither a quote nor an escape may open embedded code. -/
theorem quotedMove_text (s : State) {quote : Quote} {b : UInt8} (rest : List UInt8)
    (unquoted : b ≠ quote.byte) (unescaped : b ≠ separator) :
    s.quotedMove quote.byte b rest = s.textMove b rest := by
  have double : (quote.byte == ascii '\'') = false := by cases quote <;> rfl
  simp only [quotedMove, beq_eq_false_iff_ne.mpr unquoted, beq_eq_false_iff_ne.mpr unescaped,
    double, Bool.false_eq_true, ↓reduceIte]

end State

/-! ## Crossing a stretch of text -/

/-- A text leads from one cursor to another, whatever follows it, and all along more modes than
`height` stand around. -/
def Cursor.Crosses (height : Nat) (c : Cursor) (text : List UInt8) (c' : Cursor) : Prop :=
  ∀ rest, Position.Within (Position.deeperThan height) ⟨c, text ++ rest⟩ ⟨c', rest⟩

theorem Cursor.Crosses.append {height : Nat} {c c' c'' : Cursor} {first second : List UInt8}
    (one : c.Crosses height first c') (two : c'.Crosses height second c'') :
    c.Crosses height (first ++ second) c'' := by
  intro rest
  rw [List.append_assoc]
  exact (one (second ++ rest)).trans (two rest)

namespace Place

theorem past_append (p : Place) (first second : List UInt8) :
    p.past (first ++ second) = (p.past first).past second := by
  simp only [past, List.length_append, lineFeeds_append, Nat.add_assoc]

/-- The cursor at a place, where no declaration is open and no member is due. -/
def cursor (p : Place) (mode : Mode) (outer : List Mode) (found : List Occurrence) : Cursor :=
  ⟨⟨mode, outer, false, false⟩, p.offset, p.line, found⟩

/-- A text at a place leads from a mode back to it, and the names are recorded on the way. -/
def Records (p : Place) (height : Nat) (mode : Mode) (outer : List Mode) (text : List UInt8)
    (names : List Occurrence) : Prop :=
  ∀ found, (p.cursor mode outer found).Crosses height text
    ((p.past text).cursor mode outer (names.reverse ++ found))

variable {height depth : Nat} {mode inner : Mode} {outer around : List Mode} {p : Place}

theorem Records.nil (p : Place) : p.Records height mode outer [] [] := fun _ _ => .refl

theorem Records.append {first second : List UInt8} {names more : List Occurrence}
    (one : p.Records height mode outer first names)
    (two : (p.past first).Records height mode outer second more) :
    p.Records height mode outer (first ++ second) (names ++ more) := by
  intro found
  rw [past_append, List.reverse_append, List.append_assoc]
  exact (one found).append (two _)

/-- An opener and its closer around a text that is read in a mode of its own. -/
theorem Records.between {opener text closer : List UInt8} {names : List Occurrence}
    (opens : ∀ found, (p.cursor mode outer found).Crosses height opener
      ((p.past opener).cursor inner around found))
    (within : (p.past opener).Records height inner around text names)
    (closes : ∀ (q : Place) found, (q.cursor inner around found).Crosses height closer
      ((q.past closer).cursor mode outer found)) :
    p.Records height mode outer (opener ++ text ++ closer) names := by
  intro found
  rw [past_append, past_append]
  exact ((opens found).append (within found)).append (closes _ _)

/-- A lexeme without a name that is read alike whatever follows it. -/
theorem crosses_pass (p : Place) (found : List Occurrence) {b : UInt8} (more : List UInt8)
    (deep : height < outer.length)
    (moves : ∀ rest, State.move ⟨mode, outer, false, false⟩ b (more ++ rest) =
      State.pass ⟨inner, around, false, false⟩ more.length) :
    (p.cursor mode outer found).Crosses height (b :: more)
      ((p.past (b :: more)).cursor inner around found) := by
  intro rest
  exact .single deep (Position.Step.pass more (moves rest) rfl)

/-! ## Items of embedded code -/

theorem records_space (p : Place) (deep : height < outer.length) :
    p.Records height (.embedded depth) outer [ascii ' '] [] := by
  intro found
  refine p.crosses_pass found [] deep fun rest => ?_
  rw [State.move_of_isCode rfl, State.codeMove_space _ _ rfl]
  rfl

/-- What a space behind it does not change. -/
theorem Records.spaced {text : List UInt8} {names : List Occurrence} (deep : height < outer.length)
    (item : p.Records height (.embedded depth) outer text names) :
    p.Records height (.embedded depth) outer (text ++ [ascii ' ']) names := by
  have behind := item.append (records_space _ deep)
  rwa [List.append_nil] at behind

/-- A token with the space that ends it. -/
theorem crosses_token (p : Place) (found : List Occurrence) {b : UInt8} (more : List UInt8)
    (records : Bool) (deep : height < outer.length)
    (moves : ∀ rest, State.codeMove ⟨.embedded depth, outer, false, false⟩ b
      (more ++ ascii ' ' :: rest) =
        ⟨more.length, ⟨.embedded depth, outer, false, false⟩, records⟩) :
    (p.cursor (.embedded depth) outer found).Crosses height (b :: more ++ [ascii ' '])
      ((p.past (b :: more ++ [ascii ' '])).cursor (.embedded depth) outer
        (if records then (p.cursor (.embedded depth) outer found).occurrence (b :: more) :: found
          else found)) := by
  intro rest
  have token : Position.Step
      ⟨p.cursor (.embedded depth) outer found, b :: (more ++ ascii ' ' :: rest)⟩ _ :=
    .lexeme more (moves rest) rfl
  rw [past_append, List.append_assoc]
  exact .head ⟨deep, token⟩ (records_space (p.past (b :: more)) deep _ rest)

theorem nameBytes_space (rest : List UInt8) : nameBytes (ascii ' ' :: rest) = [] :=
  (nameBytes_eq_nil_iff _).mpr ⟨rfl, rfl⟩

theorem records_qualified (p : Place) (first : Label) (ordinary : first.isKeyword = false)
    (second : Label) (more : List Label) (deep : height < outer.length) :
    p.Records height (.embedded depth) outer (joinLabels first (second :: more) ++ [ascii ' '])
      [⟨p.offset, p.line, joinLabels first (second :: more)⟩] := by
  intro found
  have written : (p.cursor (.embedded depth) outer found).occurrence
      (joinLabels first (second :: more)) =
        ⟨p.offset, p.line, joinLabels first (second :: more)⟩ :=
    Cursor.occurrence_of_start _ _ first.starts
  rw [← written]
  refine p.crosses_token found (joinLabels first (second :: more)).tail true deep ?_
  intro rest
  rw [State.codeMove_label _ _ first.starts, State.name_joinLabels _ _ _ _ (nameBytes_space rest),
    ordinary]
  rfl

/-- A leading separator does not belong to the name. -/
theorem records_fullyQualified (p : Place) (first : Label) (more : List Label)
    (deep : height < outer.length) :
    p.Records height (.embedded depth) outer (separator :: joinLabels first more ++ [ascii ' '])
      [⟨p.offset + 1, p.line, joinLabels first more⟩] := by
  intro found
  refine p.crosses_token found (joinLabels first more) true deep ?_
  intro rest
  rw [State.codeMove_separator, State.name_separator _ _ _ _ (nameBytes_space rest)]
  rfl

theorem records_dollar (p : Place) (label : Label) (deep : height < outer.length) :
    p.Records height (.embedded depth) outer (ascii '$' :: label.bytes ++ [ascii ' ']) [] := by
  intro found
  refine p.crosses_token found label.bytes false deep ?_
  intro rest
  rw [State.codeMove_dollar, runLength_append (fun _ => label.isLabelByte_of_mem) rfl]
  rfl

/-- A group is read with one brace more open, and its closing brace takes that away again. -/
theorem Records.group {text : List UInt8} {names : List Occurrence} (deep : height < outer.length)
    (within : (p.past [ascii '\x7b']).Records height (.embedded (depth + 1)) outer text names) :
    p.Records height (.embedded depth) outer
      ([ascii '\x7b'] ++ text ++ [ascii '\x7d'] ++ [ascii ' ']) names := by
  refine .spaced deep (.between (fun found => ?_) within fun q found => ?_)
  · refine p.crosses_pass found [] deep fun rest => ?_
    rw [State.move_of_isCode rfl, State.codeMove_openingBrace rfl]
    rfl
  · refine q.crosses_pass found [] deep fun rest => ?_
    rw [State.move_of_isCode rfl, State.codeMove_closingBrace rfl]
    rfl

/-- The closing quote leads back into the code around a literal. -/
theorem crosses_closingQuote (p : Place) (found : List Occurrence) (quote : Quote)
    (deep : height ≤ outer.length) :
    (p.cursor (.quoted quote.byte) (mode :: outer) found).Crosses height [quote.byte]
      ((p.past [quote.byte]).cursor mode outer found) := by
  refine p.crosses_pass found [] (Nat.lt_succ_of_le deep) fun rest => ?_
  exact State.quotedMove_close _ quote rest

/-- A literal inside embedded code. -/
theorem Records.literal {quote : Quote} {text : List UInt8} {names : List Occurrence}
    (deep : height < outer.length)
    (within : (p.past [quote.byte]).Records height (.quoted quote.byte) (.embedded depth :: outer)
      text names) :
    p.Records height (.embedded depth) outer
      ([quote.byte] ++ text ++ [quote.byte] ++ [ascii ' ']) names := by
  refine .spaced deep (.between (fun found => ?_) within fun q found => ?_)
  · refine p.crosses_pass found [] deep fun rest => ?_
    rw [State.move_of_isCode rfl, List.nil_append, State.codeMove_quote]
    rfl
  · exact q.crosses_closingQuote found quote (Nat.le_of_lt deep)

/-! ## Parts of a literal -/

theorem records_plain (p : Place) {quote : Quote} {b : UInt8} (unquoted : b ≠ quote.byte)
    (unescaped : b ≠ separator) (unbraced : b ≠ ascii '\x7b') (undollared : b ≠ ascii '$')
    (deep : height < outer.length) : p.Records height (.quoted quote.byte) outer [b] [] := by
  intro found
  refine p.crosses_pass found [] deep fun rest => ?_
  refine (State.quotedMove_text _ rest unquoted unescaped).trans (State.textMove_plain _ ?_ ?_)
  · rw [beq_eq_false_iff_ne.mpr unbraced, Bool.false_and]
  · rw [beq_eq_false_iff_ne.mpr undollared, Bool.false_and]

theorem records_escape (p : Place) (quote b : UInt8) (deep : height < outer.length) :
    p.Records height (.quoted quote) outer [separator, b] [] := by
  intro found
  refine p.crosses_pass found [b] deep fun rest => ?_
  exact State.quotedMove_escape _ quote b rest

/-- The brace that embedded code has not opened leads back into the text around it. -/
theorem crosses_lastBrace (p : Place) (found : List Occurrence) (deep : height < outer.length) :
    (p.cursor (.embedded 0) (mode :: outer) found).Crosses height [ascii '\x7d']
      ((p.past [ascii '\x7d']).cursor mode outer found) := by
  refine p.crosses_pass found [] (Nat.lt_succ_of_lt deep) fun rest => ?_
  rw [State.move_of_isCode rfl, State.codeMove_lastBrace rfl]
  rfl

/-- Code behind a brace and a variable. The brace opens it because the variable follows. -/
theorem Records.braces {quote : Quote} {label : Label} {text : List UInt8}
    {names : List Occurrence} (deep : height < outer.length)
    (within : (p.past ([ascii '\x7b'] ++ (ascii '$' :: label.bytes ++ [ascii ' ']))).Records height
      (.embedded 0) (.quoted quote.byte :: outer) text names) :
    p.Records height (.quoted quote.byte) outer
      ([ascii '\x7b'] ++ (ascii '$' :: label.bytes ++ [ascii ' ']) ++ text ++ [ascii '\x7d'])
      names := by
  refine .between (fun found rest => ?_) within fun q found => q.crosses_lastBrace found deep
  have opens : State.move ⟨.quoted quote.byte, outer, false, false⟩ (ascii '\x7b')
      ((ascii '$' :: label.bytes ++ [ascii ' ']) ++ rest) =
        State.pass ⟨.embedded 0, .quoted quote.byte :: outer, false, false⟩ 0 := by
    refine (State.quotedMove_text _ _ ?_ (by decide)).trans rfl
    cases quote <;> decide
  have brace : Position.Step ⟨p.cursor (.quoted quote.byte) outer found, _⟩ _ :=
    .pass [] opens rfl
  have dollar : (p.past [ascii '\x7b']).Records height (.embedded 0) (.quoted quote.byte :: outer)
      (ascii '$' :: label.bytes ++ [ascii ' ']) [] :=
    records_dollar _ label (Nat.lt_succ_of_lt deep)
  rw [past_append, List.append_assoc]
  exact .head ⟨deep, brace⟩ (dollar found rest)

/-- Code behind a dollar and a brace. -/
theorem Records.dollarBraces {quote : Quote} {text : List UInt8} {names : List Occurrence}
    (deep : height < outer.length)
    (within : (p.past [ascii '$', ascii '\x7b']).Records height (.embedded 0)
      (.quoted quote.byte :: outer) text names) :
    p.Records height (.quoted quote.byte) outer
      ([ascii '$', ascii '\x7b'] ++ text ++ [ascii '\x7d']) names := by
  refine .between (fun found => ?_) within fun q found => q.crosses_lastBrace found deep
  refine p.crosses_pass found [ascii '\x7b'] deep fun rest => ?_
  refine (State.quotedMove_text _ _ ?_ (by decide)).trans rfl
  cases quote <;> decide

end Place

/-! ## Whole literals -/

mutual

/-- Embedded code is read at any depth and in any surroundings, and its names are recorded. -/
theorem Embedded.records {height depth : Nat} {outer : List Mode} (deep : height < outer.length) :
    (e : Embedded) → (p : Place) →
    p.Records height (.embedded depth) outer e.bytes (e.occurrences p)
  | .done, p => .nil p
  | .qualified first ordinary second more rest, p =>
    (p.records_qualified first ordinary second more deep).append (rest.records deep _)
  | .fullyQualified first more rest, p =>
    (p.records_fullyQualified first more deep).append (rest.records deep _)
  | .dollar label rest, p => (p.records_dollar label deep).append (rest.records deep _)
  | .group inner rest, _ =>
    (Place.Records.group deep (inner.records deep _)).append (rest.records deep _)
  | .literal _ text rest, _ =>
    (Place.Records.literal deep (text.records (Nat.lt_succ_of_lt deep) _)).append
      (rest.records deep _)

/-- The text of a literal is read in any surroundings, and the names in it are recorded. -/
theorem LiteralText.records {height : Nat} {quote : Quote} {outer : List Mode}
    (deep : height < outer.length) : (text : LiteralText quote) → (p : Place) →
    p.Records height (.quoted quote.byte) outer text.bytes (text.occurrences p)
  | .done, p => .nil p
  | .plain _ unquoted unescaped unbraced undollared rest, p =>
    (p.records_plain unquoted unescaped unbraced undollared deep).append (rest.records deep _)
  | .escape b rest, p => (p.records_escape quote.byte b deep).append (rest.records deep _)
  | .braces _ inner rest, _ =>
    (Place.Records.braces deep (inner.records (Nat.lt_succ_of_lt deep) _)).append
      (rest.records deep _)
  | .dollarBraces inner rest, _ =>
    (Place.Records.dollarBraces deep (inner.records (Nat.lt_succ_of_lt deep) _)).append
      (rest.records deep _)

end

/-- A literal in which code may be embedded. -/
structure InterpolatedLiteral where
  quote : Quote
  text : LiteralText quote

namespace InterpolatedLiteral

def bytes (literal : InterpolatedLiteral) : List UInt8 :=
  [literal.quote.byte] ++ literal.text.bytes ++ [literal.quote.byte]

/-- The names of the code embedded in a literal that begins at a place. -/
def occurrences (literal : InterpolatedLiteral) (p : Place) : List Occurrence :=
  literal.text.occurrences (p.past [literal.quote.byte])

/-- Wherever a literal begins in code, it is passed exactly to behind its closing quote. What is
recorded on the way are the names of the code embedded in it, of all levels and in order, each at
its place. No declaration is open behind the literal if none is open before it, and no member is due. -/
theorem passes_closingQuote_iff (literal : InterpolatedLiteral) (c : Cursor) (rest : List UInt8)
    (code : c.state.mode.isCode = true) (undeclared : c.state.inDeclaration = false)
    (r : Position) :
    Position.Passes ⟨c, literal.bytes ++ rest⟩ r ↔
      r = ⟨⟨⟨c.state.mode, c.state.outer, false, false⟩, c.offset + literal.bytes.length,
        c.line + lineFeeds literal.bytes,
        (literal.occurrences ⟨c.offset, c.line⟩).reverse ++ c.found⟩, rest⟩ := by
  obtain ⟨⟨mode, outer, inDeclaration, afterMember⟩, offset, line, found⟩ := c
  obtain ⟨quote, text⟩ := literal
  subst undeclared
  let p : Place := ⟨offset, line⟩
  have opens : Position.Step
      ⟨⟨⟨mode, outer, false, afterMember⟩, offset, line, found⟩,
        quote.byte :: (text.bytes ++ [quote.byte] ++ rest)⟩
      ⟨(p.past [quote.byte]).cursor (.quoted quote.byte) (mode :: outer) found,
        text.bytes ++ [quote.byte] ++ rest⟩ := by
    refine .pass [] ?_ rfl
    rw [State.move_of_isCode code]
    exact State.codeMove_quote _ quote _
  have inside : (p.past [quote.byte]).Records outer.length (.quoted quote.byte) (mode :: outer)
      text.bytes (text.occurrences (p.past [quote.byte])) :=
    text.records (Nat.lt_succ_self _) _
  have closes := (inside found).append (Place.crosses_closingQuote _ _ quote (Nat.le_refl _)) rest
  -- Behind the closing quote the modes around are those before the opening one.
  have ends := closes.until (.stop (.inr (Nat.lt_irrefl outer.length)))
  rw [← Place.past_append, ← Place.past_append] at ends
  exact Position.Passes.iff_eq ⟨_, opens, ends⟩

/-- Two levels of embedded code: the brace that closes the group does not end the code around it,
the backtick inside does not end the literal, and neither does the escaped quote at its end. The
names stand on the second line. -/
theorem passes_closingQuote_iff_nested :
    let a : Label := ⟨ascii 'A', [], by decide, List.all_eq_true.mp rfl⟩
    let b : Label := ⟨ascii 'B', [], by decide, List.all_eq_true.mp rfl⟩
    let inner : InterpolatedLiteral :=
      ⟨.backtick, .dollarBraces (.fullyQualified b [a] .done) .done⟩
    let literal : InterpolatedLiteral :=
      ⟨.double, .plain newline (by decide) (by decide) (by decide) (by decide)
        (.braces a
          (.group (.qualified a (by decide) b [] .done) (.literal inner.quote inner.text .done))
          (.escape (ascii '"') .done))⟩
    literal.bytes =
        "\"\n\x7b$A \x7bA\\B \x7d \x60$\x7b\\B\\A \x7d\x60 \x7d\\\"\"".toList.map ascii ∧
      literal.occurrences ⟨6, 1⟩ = [⟨13, 2, joinLabels a [b]⟩, ⟨23, 2, joinLabels b [a]⟩] ∧
      Position.Passes
        ⟨⟨⟨.code, [], false, true⟩, 6, 1, []⟩, literal.bytes ++ [ascii ';']⟩
        ⟨⟨⟨.code, [], false, false⟩, 34, 2, [⟨23, 2, joinLabels b [a]⟩, ⟨13, 2, joinLabels a [b]⟩]⟩,
          [ascii ';']⟩ := by
  intro a b inner literal
  have names : literal.occurrences ⟨6, 1⟩ =
      [⟨13, 2, joinLabels a [b]⟩, ⟨23, 2, joinLabels b [a]⟩] := by decide
  have length : literal.bytes.length = 28 := by decide
  have lines : lineFeeds literal.bytes = 1 := by decide
  refine ⟨by decide, names, ?_⟩
  rw [passes_closingQuote_iff literal _ _ rfl rfl, names, length, lines]
  rfl

end InterpolatedLiteral

end LayerGuard.Source
