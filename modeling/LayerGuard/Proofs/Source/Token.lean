import LayerGuard.Proofs.Source.Move
import LayerGuard.Source.Analysis

/-! # Token programs

A token program is a list of tokens of code with white space behind each of them. What a token
means is said without bytes: a name is recorded unless a declaration is open, the keyword opens a
declaration unless a member operator stands before it, and a semicolon ends it. Comments stand
between an operator and its member without parting them. The scanner, which sees only the bytes of
a program, finds in it exactly the names that this reading records, at their positions.
-/

namespace LayerGuard.Source

/-- The white space behind a token. -/
inductive Gap where
  | space
  | newline
  deriving DecidableEq, Repr

def Gap.byte : Gap → UInt8
  | space => ascii ' '
  | newline => Source.newline

/-- An operator in front of a member. -/
inductive MemberOperator where
  | arrow
  | nullArrow
  | doubleColon
  deriving DecidableEq, Repr

def MemberOperator.bytes : MemberOperator → List UInt8
  | arrow => [ascii '-', ascii '>']
  | nullArrow => [ascii '?', ascii '-', ascii '>']
  | doubleColon => [ascii ':', ascii ':']

/-- A part of a single-quoted literal: a byte that stands for itself, or an escape. -/
inductive LiteralPart where
  | plain (b : UInt8) (unquoted : b ≠ ascii '\'') (unescaped : b ≠ separator)
  | escape (b : UInt8)
  deriving DecidableEq, Repr

def LiteralPart.bytes : LiteralPart → List UInt8
  | plain b _ _ => [b]
  | escape b => [separator, b]

/-- The bytes that are tokens of their own. -/
def punctuation : List UInt8 := "()[]\x7b\x7d,=+-*/.!<>&|^~@%:?".toList.map ascii

/-- A token of code. -/
inductive Token where
  /-- A label that is not the keyword. -/
  | unqualified (label : Label) (ordinary : label.isKeyword = false)
  /-- At least two labels, the first not the keyword. -/
  | qualified (first : Label) (ordinary : first.isKeyword = false) (second : Label)
      (more : List Label)
  /-- A name behind a leading separator. -/
  | fullyQualified (first : Label) (more : List Label)
  /-- A name told from the current namespace: the keyword, then labels. -/
  | relative (word : Label) (keyword : word.isKeyword = true) (first : Label) (more : List Label)
  /-- The keyword in some letter case. -/
  | keyword (word : Label) (keyword : word.isKeyword = true)
  | semicolon
  | member (operator : MemberOperator)
  | dollar (label : Label)
  | number (digit : UInt8) (more : List UInt8) (starts : isDigit digit = true)
      (continues : ∀ b ∈ more, isNumberByte b = true)
  | literal (parts : List LiteralPart)
  | blockComment (text : List UInt8) (unclosed : ¬ [ascii '*', ascii '/'] <:+: text)
  | slashComment (text : List UInt8) (oneLine : newline ∉ text)
      (untagged : ¬ [ascii '?', ascii '>'] <:+: text)
  /-- A comment behind `#`; a bracket would make it an attribute. -/
  | hashComment (text : List UInt8) (oneLine : newline ∉ text)
      (untagged : ¬ [ascii '?', ascii '>'] <:+: text) (plain : text.head? ≠ some (ascii '['))
  | punctuation (b : UInt8) (listed : b ∈ Source.punctuation)

namespace Token

def bytes : Token → List UInt8
  | unqualified label _ => label.bytes
  | qualified first _ second more => joinLabels first (second :: more)
  | fullyQualified first more => separator :: joinLabels first more
  | relative word _ first more => joinLabels word (first :: more)
  | keyword word _ => word.bytes
  | semicolon => [ascii ';']
  | member operator => operator.bytes
  | dollar label => ascii '$' :: label.bytes
  | number digit more _ _ => digit :: more
  | literal parts => ascii '\'' :: (parts.flatMap LiteralPart.bytes ++ [ascii '\''])
  | blockComment text _ => ascii '/' :: ascii '*' :: (text ++ [ascii '*', ascii '/'])
  | slashComment text _ _ => ascii '/' :: ascii '/' :: text
  | hashComment text _ _ _ => ascii '#' :: text
  | punctuation b _ => [b]

/-- The byte behind a token. Only the end of the line ends a line comment. -/
def gapByte : Token → Gap → UInt8
  | slashComment _ _ _, _ => newline
  | hashComment _ _ _ _, _ => newline
  | _, gap => gap.byte

def isComment : Token → Bool
  | blockComment _ _ => true
  | slashComment _ _ _ => true
  | hashComment _ _ _ _ => true
  | _ => false

end Token

/-- What is known in front of a token: whether a declaration is open, whether the token before it,
comments apart, was a member operator, and the position. -/
structure Reading where
  inDeclaration : Bool
  afterMember : Bool
  offset : Nat
  line : Nat
  deriving DecidableEq, Repr

namespace Token

/-- Whether a declaration is open behind a token. -/
def inDeclaration (r : Reading) : Token → Bool
  | keyword _ _ => r.inDeclaration || !r.afterMember
  | semicolon => false
  | _ => r.inDeclaration

/-- Whether a member is due behind a token. -/
def afterMember (r : Reading) : Token → Bool
  | member _ => true
  | t => t.isComment && r.afterMember

/-- The name that a token is, with its place. -/
def name? (r : Reading) : Token → Option Occurrence
  | qualified first _ second more => some ⟨r.offset, r.line, joinLabels first (second :: more)⟩
  | fullyQualified first more => some ⟨r.offset + 1, r.line, joinLabels first more⟩
  | _ => none

/-- The name that a token gives in a reading: none while a declaration is open. -/
def recorded (r : Reading) (t : Token) : List Occurrence :=
  if r.inDeclaration then [] else (t.name? r).toList

end Token

/-- The reading directly behind a token. -/
def Reading.behind (r : Reading) (t : Token) : Reading where
  inDeclaration := t.inDeclaration r
  afterMember := t.afterMember r
  offset := r.offset + t.bytes.length
  line := r.line + lineFeeds t.bytes

/-- The reading behind one more byte of white space. -/
def Reading.past (r : Reading) (b : UInt8) : Reading :=
  { r with offset := r.offset + 1, line := r.line + lineFeeds [b] }

/-- Tokens of code with the white space behind them. -/
abbrev TokenProgram := List (Token × Gap)

namespace TokenProgram

def bytes (program : TokenProgram) : List UInt8 :=
  program.flatMap fun (t, gap) => t.bytes ++ [t.gapByte gap]

/-- The names that a program records, read from left to right. -/
def occurrences (r : Reading) : TokenProgram → List Occurrence
  | [] => []
  | (t, gap) :: rest => t.recorded r ++ occurrences ((r.behind t).past (t.gapByte gap)) rest

def behind (r : Reading) : TokenProgram → Reading
  | [] => r
  | (t, gap) :: rest => behind ((r.behind t).past (t.gapByte gap)) rest

end TokenProgram

/-! ## What the scanner does at a token -/

def Reading.cursor (r : Reading) (found : List Occurrence) : Cursor :=
  ⟨⟨.code, [], r.inDeclaration, r.afterMember⟩, r.offset, r.line, found⟩

/-- The lexemes of several bytes that begin with punctuation. -/
def longerLexemes : List (List UInt8) :=
  ["->", "?->", "::", "?>", "//", "/*", "<<<"].map fun lexeme => lexeme.toList.map ascii

/-- Whether a token is a comment that lasts to the end of its line. -/
def Token.isLineComment : Token → Bool
  | slashComment _ _ _ => true
  | hashComment _ _ _ _ => true
  | _ => false

/-- Whether a token ends in front of a text, so that nothing there continues it. -/
def Token.endsBefore (rest : List UInt8) : Token → Bool
  | semicolon => true
  | member _ => true
  | literal _ => true
  | blockComment _ _ => true
  | slashComment _ _ _ => nextIs (· == newline) rest
  | hashComment _ _ _ _ => nextIs (· == newline) rest
  | dollar _ => !nextIs isLabelByte rest
  | number _ _ _ _ => !nextIs isNumberByte rest
  | punctuation b _ => longerLexemes.all fun lexeme => !lexeme.isPrefixOf (b :: rest)
  | _ => !nextIs (fun b => isLabelByte b || b == separator) rest

/-- A lexeme at the front of a text lies in front of every byte that is foreign to it. -/
theorem prefix_of_foreign {α : Type} {lexeme front back : List α} {b : α} (foreign : b ∉ lexeme)
    (begins : lexeme <+: front ++ b :: back) : lexeme <+: front := by
  by_cases short : lexeme.length ≤ front.length
  · exact List.prefix_of_prefix_length_le begins (List.prefix_append _ _) short
  · have through : front ++ [b] <+: front ++ b :: back := ⟨back, by simp⟩
    have taken : front ++ [b] <+: lexeme :=
      List.prefix_of_prefix_length_le through begins (by simp; omega)
    exact absurd (taken.subset (by simp)) foreign

/-- White space ends every token, a line feed also the comments that last to it. -/
theorem Token.endsBefore_space (t : Token) {b : UInt8} (rest : List UInt8)
    (space : isSpace b = true) (lineEnd : t.isLineComment = true → b = newline) :
    t.endsBefore (b :: rest) = true := by
  have other {c : UInt8} (outside : isSpace c = false) : (b == c) = false :=
    beq_eq_false_of_class space outside
  have classes : isLabelByte b = false ∧ isNumberByte b = false := by
    simp only [isSpace, Bool.or_eq_true, beq_iff_eq] at space
    rcases space with (((rfl | rfl) | rfl) | rfl) | rfl <;> exact ⟨rfl, rfl⟩
  cases t with
  | slashComment => rw [lineEnd rfl]; rfl
  | hashComment => rw [lineEnd rfl]; rfl
  | punctuation mark _ =>
    have lexemes : (longerLexemes.all fun lexeme =>
        decide (1 < lexeme.length) && lexeme.all (!isSpace ·)) = true := by decide
    refine List.all_eq_true.mpr fun lexeme longer => ?_
    obtain ⟨long, spaceless⟩ : 1 < lexeme.length ∧ lexeme.all (!isSpace ·) = true := by
      simpa only [Bool.and_eq_true, decide_eq_true_eq] using List.all_eq_true.mp lexemes _ longer
    have foreign : b ∉ lexeme := by
      intro inside
      simpa [space] using List.all_eq_true.mp spaceless b inside
    rw [Bool.not_eq_true', Bool.eq_false_iff]
    intro begins
    have within : lexeme <+: [mark] ++ b :: rest := List.isPrefixOf_iff_prefix.mp begins
    exact absurd (prefix_of_foreign foreign within).length_le (Nat.not_le.mpr long)
  | _ => simp [endsBefore, classes, other (show isSpace separator = false from rfl)]

theorem Token.isSpace_gapByte (t : Token) (gap : Gap) : isSpace (t.gapByte gap) = true := by
  cases t <;> cases gap <;> rfl

/-- The byte behind a token ends it. -/
theorem Token.endsBefore_gapByte (t : Token) (gap : Gap) (rest : List UInt8) :
    t.endsBefore (t.gapByte gap :: rest) = true := by
  refine t.endsBefore_space rest (t.isSpace_gapByte gap) fun comment => ?_
  cases t with
  | slashComment => rfl
  | hashComment => rfl
  | _ => contradiction

theorem Reading.run_space (r : Reading) (found : List Occurrence) {b : UInt8} (rest : List UInt8)
    (space : isSpace b = true) :
    (r.cursor found).run (b :: rest) = ((r.past b).cursor found).run rest := by
  have moves : (r.cursor found).state.move b rest = (r.cursor found).state.pass 0 := by
    rw [State.move_of_code rfl, State.codeMove_space _ _ space]
  exact Cursor.run_byte moves

/-- The text of a single-quoted literal is passed part by part. -/
theorem Cursor.run_literalParts (c : Cursor) (parts : List LiteralPart) (rest : List UInt8)
    (quoted : c.state.mode = .quoted (ascii '\'')) :
    c.run (parts.flatMap LiteralPart.bytes ++ rest) =
      (c.skip c.state (parts.flatMap LiteralPart.bytes)).run rest := by
  induction parts generalizing c with
  | nil => rfl
  | cons part parts ih =>
    rw [List.flatMap_cons, List.append_assoc]
    have next := ih (c.skip c.state part.bytes) quoted
    rw [Cursor.skip_skip] at next
    refine Eq.trans ?_ next
    cases part with
    | plain b unquoted unescaped =>
      refine Cursor.run_byte ?_
      simp only [State.move, quoted, State.quotedMove, beq_eq_false_iff_ne.mpr unquoted,
        beq_eq_false_iff_ne.mpr unescaped, beq_self_eq_true, Bool.false_eq_true, ↓reduceIte]
    | escape b =>
      refine Cursor.run_pass [b] ?_ rfl
      simp only [State.move, quoted, State.quotedMove, beq_self_eq_true, ↓reduceIte, State.escape,
        List.cons_append, List.length_cons]
      congr 1

/-- A whole literal is passed, and its parts leave no trace but lines. -/
theorem Reading.run_literal (r : Reading) (found : List Occurrence) (parts : List LiteralPart)
    (rest : List UInt8) :
    (r.cursor found).run ((Token.literal parts).bytes ++ rest) =
      ((r.behind (.literal parts)).cursor found).run rest := by
  have opens : (r.cursor found).state.move (ascii '\'')
      (parts.flatMap LiteralPart.bytes ++ ascii '\'' :: rest) =
        ({ (r.cursor found).state with afterMember := false }.enter
          (.quoted (ascii '\''))).pass 0 := by
    rw [State.move_of_code rfl, State.codeMove_singleQuote]
  have closes (c : Cursor) (quoted : c.state.mode = .quoted (ascii '\'')) :
      c.run (ascii '\'' :: rest) = (c.skip c.state.leave [ascii '\'']).run rest := by
    refine Cursor.run_byte ?_
    simp [State.move, quoted, State.quotedMove, separator]
  simp only [Token.bytes, List.cons_append, List.append_assoc, List.nil_append]
  rw [Cursor.run_byte opens, Cursor.run_literalParts _ _ _ rfl, closes _ rfl, Cursor.skip_skip,
    Cursor.skip_skip]
  rfl

theorem Token.recorded_of_unnamed {r : Reading} {t : Token} (unnamed : t.name? r = none) :
    t.recorded r = [] := by
  simp [recorded, unnamed]

/-- A token that is no name, passed in one move. -/
theorem Reading.run_unnamed (r : Reading) (found : List Occurrence) {t : Token} {b : UInt8}
    (more : List UInt8) {rest : List UInt8} (written : t.bytes = b :: more)
    (unnamed : t.name? r = none)
    (moves : (r.cursor found).state.codeMove b (more ++ rest) =
      State.pass ⟨.code, [], t.inDeclaration r, t.afterMember r⟩ more.length) :
    (r.cursor found).run (t.bytes ++ rest) =
      ((r.behind t).cursor (t.recorded r ++ found)).run rest := by
  rw [← State.move_of_code rfl] at moves
  rw [Token.recorded_of_unnamed unnamed, written, List.cons_append,
    Cursor.run_pass more moves rfl, ← written]
  rfl

/-- A name without a leading separator is recorded if it is qualified, and only the bare keyword
changes whether a declaration is open. -/
theorem Reading.codeMove_joinLabels (r : Reading) (found : List Occurrence) (first : Label)
    (more : List Label) {rest : List UInt8} (ends : nameBytes rest = []) :
    (r.cursor found).state.codeMove first.first ((joinLabels first more).tail ++ rest) =
      ⟨(joinLabels first more).tail.length,
        ⟨.code, [], r.inDeclaration || first.isKeyword && more.isEmpty && !r.afterMember, false⟩,
        !first.isKeyword && !more.isEmpty && !r.inDeclaration⟩ := by
  rw [State.codeMove_label _ _ first.starts, State.name_joinLabels _ _ _ _ ends]
  cases first.isKeyword with
  | true =>
    cases more.isEmpty <;> cases member : r.afterMember <;> simp [cursor, State.pass, member]
  | false => simp [cursor]

theorem Cursor.occurrence_joinLabels (c : Cursor) (first : Label) (more : List Label) :
    c.occurrence (joinLabels first more) = ⟨c.offset, c.line, joinLabels first more⟩ := by
  have unseparated : (first.first == separator) = false :=
    beq_eq_false_of_class first.starts (by decide)
  change (if first.first == separator then _ else _) = _
  rw [unseparated]
  rfl

/-- A token that is a name, passed in one move that records it unless a declaration is open. -/
theorem Reading.run_named (r : Reading) (found : List Occurrence) {t : Token} {b : UInt8}
    (more : List UInt8) {rest : List UInt8} (written : t.bytes = b :: more)
    (named : t.name? r = some ((r.cursor found).occurrence t.bytes))
    (moves : (r.cursor found).state.codeMove b (more ++ rest) =
      ⟨more.length, ⟨.code, [], t.inDeclaration r, t.afterMember r⟩, !r.inDeclaration⟩) :
    (r.cursor found).run (t.bytes ++ rest) =
      ((r.behind t).cursor (t.recorded r ++ found)).run rest := by
  rw [← State.move_of_code rfl] at moves
  rw [Token.recorded, named, written, List.cons_append, Cursor.run_lexeme moves rfl, ← written]
  cases within : r.inDeclaration <;> simp [Cursor.advance, cursor, behind, within]

theorem isPrefixOf_pair (first second b : UInt8) (rest : List UInt8) :
    [first, second].isPrefixOf (b :: rest) = (b == first && nextIs (· == second) rest) := by
  cases rest <;> simp [List.isPrefixOf, Bool.beq_comm]

theorem isPrefixOf_triple (first second third b : UInt8) (rest : List UInt8) :
    [first, second, third].isPrefixOf (b :: rest) =
      (b == first && nextIs (· == second) rest && nextIs (· == third) (rest.drop 1)) := by
  rcases rest with _ | ⟨c, _ | ⟨d, rest⟩⟩ <;>
    simp [List.isPrefixOf, Bool.beq_comm, Bool.and_assoc]

/-- A byte of punctuation that begins no longer lexeme is a token of its own. -/
theorem State.codeMove_punctuation {s : State} (code : s.mode = .code) {b : UInt8}
    {rest : List UInt8} (listed : b ∈ punctuation)
    (alone : (longerLexemes.all fun lexeme => !lexeme.isPrefixOf (b :: rest)) = true) :
    s.codeMove b rest = { s with afterMember := false }.pass 0 := by
  have marks : (punctuation.all fun b => !(isSpace b || b == ascii '#' || b == ascii '\'' ||
      b == ascii '"' || b == ascii '\x60' || b == ascii '$' || b == ascii ';' || isDigit b ||
      b == separator || isLabelStart b)) = true := by decide
  have plain := List.all_eq_true.mp marks b listed
  simp only [Bool.not_eq_true', Bool.or_eq_false_iff] at plain
  have apart {first second : UInt8} (longer : [first, second] ∈ longerLexemes) :
      (b == first && nextIs (· == second) rest) = false := by
    rw [← isPrefixOf_pair, ← Bool.not_eq_true']
    exact List.all_eq_true.mp alone _ longer
  have apart₃ {first second third : UInt8} (longer : [first, second, third] ∈ longerLexemes) :
      (b == first && nextIs (· == second) rest && nextIs (· == third) (rest.drop 1)) = false := by
    rw [← isPrefixOf_triple, ← Bool.not_eq_true']
    exact List.all_eq_true.mp alone _ longer
  have closes : (b == ascii '?' && nextIs (· == ascii '>') rest) = false := apart (by decide)
  have comments : (b == ascii '/' && nextIs (· == ascii '/') rest) = false ∧
      (b == ascii '/' && nextIs (· == ascii '*') rest) = false :=
    ⟨apart (by decide), apart (by decide)⟩
  have members : (b == ascii '-' && nextIs (· == ascii '>') rest) = false ∧
      (b == ascii ':' && nextIs (· == ascii ':') rest) = false ∧
      (b == ascii '?' && nextIs (· == ascii '-') rest && nextIs (· == ascii '>') (rest.drop 1)) =
        false :=
    ⟨apart (by decide), apart (by decide), apart₃ (by decide)⟩
  have document : (b == ascii '<' && nextIs (· == ascii '<') rest &&
      nextIs (· == ascii '<') (rest.drop 1)) = false := apart₃ (by decide)
  simp only [codeMove, token, plain, closes, comments, members, document, code, beq_self_eq_true,
    Bool.true_and, Bool.false_and, Bool.or_self, Bool.false_eq_true, ↓reduceIte]

/-- No name goes on in front of a byte that is neither of a label nor the separator. -/
theorem nameBytes_of_stop {rest : List UInt8}
    (stops : (!nextIs (fun b => isLabelByte b || b == separator) rest) = true) :
    nameBytes rest = [] := by
  rw [nameBytes_eq_nil_iff]
  cases rest with
  | nil => exact ⟨rfl, rfl⟩
  | cons b rest =>
    simp only [nextIs_cons, Bool.not_eq_true', Bool.or_eq_false_iff] at stops
    simp only [nextIs_cons, stops, Bool.false_and, and_self]

/-- Behind a token the scanner stands where the reading says, and has recorded what it says. -/
theorem Reading.run_token (r : Reading) (found : List Occurrence) (t : Token) {rest : List UInt8}
    (ends : t.endsBefore rest = true) :
    (r.cursor found).run (t.bytes ++ rest) =
      ((r.behind t).cursor (t.recorded r ++ found)).run rest := by
  cases t with
  | unqualified label ordinary =>
    refine r.run_unnamed found (joinLabels label []).tail (b := label.first) ?_ rfl ?_
    · exact (joinLabels_nil label).symm
    · rw [r.codeMove_joinLabels found label [] (nameBytes_of_stop ends), ordinary]
      simp [State.pass, Token.inDeclaration, Token.afterMember, Token.isComment]
  | qualified first ordinary second more =>
    refine r.run_named found (joinLabels first (second :: more)).tail rfl ?_ ?_
    · rw [Token.bytes, Cursor.occurrence_joinLabels]
      rfl
    · rw [r.codeMove_joinLabels found first (second :: more) (nameBytes_of_stop ends), ordinary]
      simp [Token.inDeclaration, Token.afterMember, Token.isComment]
  | fullyQualified first more =>
    refine r.run_named found _ rfl rfl ?_
    rw [State.codeMove_separator, State.name_separator _ _ _ _ (nameBytes_of_stop ends)]
    rfl
  | relative word keyword first more =>
    refine r.run_unnamed found (joinLabels word (first :: more)).tail rfl rfl ?_
    rw [r.codeMove_joinLabels found word (first :: more) (nameBytes_of_stop ends), keyword]
    simp [State.pass, Token.inDeclaration, Token.afterMember, Token.isComment]
  | keyword word keyword =>
    refine r.run_unnamed found (joinLabels word []).tail (b := word.first) ?_ rfl ?_
    · exact (joinLabels_nil word).symm
    · rw [r.codeMove_joinLabels found word [] (nameBytes_of_stop ends), keyword]
      simp [State.pass, Token.inDeclaration, Token.afterMember, Token.isComment]
  | semicolon =>
    refine r.run_unnamed found _ rfl rfl ?_
    rw [State.codeMove_semicolon]
    rfl
  | member operator =>
    cases operator with
    | arrow => exact r.run_unnamed found _ rfl rfl (State.codeMove_arrow _ _)
    | nullArrow => exact r.run_unnamed found _ rfl rfl (State.codeMove_nullArrow _ _)
    | doubleColon => exact r.run_unnamed found _ rfl rfl (State.codeMove_doubleColon _ _)
  | dollar label =>
    refine r.run_unnamed found _ rfl rfl ?_
    rw [State.codeMove_dollar, runLength_append (fun _ => label.isLabelByte_of_mem)
      ((Bool.not_eq_true' _).mp ends)]
    rfl
  | number digit more starts continues =>
    refine r.run_unnamed found _ rfl rfl ?_
    rw [State.codeMove_digit _ _ starts, runLength_append continues
      ((Bool.not_eq_true' _).mp ends)]
    rfl
  | literal parts =>
    rw [Token.recorded_of_unnamed rfl]
    exact r.run_literal found parts _
  | blockComment text unclosed =>
    refine r.run_unnamed found _ rfl rfl ?_
    have length : 1 + (text.length + 2) =
        (ascii '*' :: (text ++ [ascii '*', ascii '/'])).length := by
      simp only [List.length_cons, List.length_append, List.length_nil]
      omega
    rw [List.cons_append, State.codeMove_blockComment, List.append_assoc]
    simp only [List.cons_append, List.nil_append]
    rw [commentBlockLength_append _ unclosed, length]
    rfl
  | slashComment text oneLine untagged =>
    obtain ⟨line, rfl⟩ := exists_cons_of_nextIs ends
    refine r.run_unnamed found _ rfl rfl ?_
    rw [List.cons_append, State.codeMove_slashComment, commentLineLength_append _ oneLine untagged]
    rfl
  | hashComment text oneLine untagged plain =>
    obtain ⟨line, rfl⟩ := exists_cons_of_nextIs ends
    refine r.run_unnamed found _ rfl rfl ?_
    have bracketless : nextIs (· == ascii '[') (text ++ newline :: line) = false := by
      cases text with
      | nil => rfl
      | cons b text => simpa using plain
    rw [State.codeMove_hashComment _ bracketless, commentLineLength_append _ oneLine untagged]
    rfl
  | punctuation b listed =>
    refine r.run_unnamed found _ rfl rfl ?_
    exact State.codeMove_punctuation rfl listed ends

/-! ## What the scanner finds in a program -/

theorem Token.recorded_reverse (r : Reading) (t : Token) :
    (t.recorded r).reverse = t.recorded r := by
  rw [recorded]
  split
  · rfl
  · cases t.name? r <;> rfl

/-- Behind a program the scanner stands where the reading says, and has recorded what it says. -/
theorem TokenProgram.run_bytes (program : TokenProgram) (r : Reading) (found : List Occurrence)
    (rest : List UInt8) :
    (r.cursor found).run (program.bytes ++ rest) =
      ((program.behind r).cursor ((program.occurrences r).reverse ++ found)).run rest := by
  induction program generalizing r found with
  | nil => rfl
  | cons item program ih =>
    obtain ⟨t, gap⟩ := item
    simp only [bytes, List.flatMap_cons, List.append_assoc, List.cons_append, List.nil_append]
    rw [r.run_token found t (t.endsBefore_gapByte gap _),
      Reading.run_space _ _ _ (t.isSpace_gapByte gap)]
    refine (ih _ _).trans ?_
    simp only [behind, occurrences, List.reverse_append, List.append_assoc, t.recorded_reverse]

/-- The tag that opens the code of a program. -/
def openTag : List UInt8 := "<?php ".toList.map ascii

/-- The reading in front of a program, behind its tag. -/
def Reading.start : Reading := ⟨false, false, openTag.length, 1⟩

theorem Cursor.run_openTag (rest : List UInt8) :
    Cursor.start.run (openTag ++ rest) = (Reading.start.cursor []).run rest := by
  have tag : openTagLength? (ascii '<' :: (openTag.tail ++ rest)) = some 5 := rfl
  have moves : Cursor.start.state.move (ascii '<') (openTag.tail ++ rest) =
      State.pass ⟨.code, [], false, false⟩ 4 := by
    simp only [Cursor.start, State.initial, State.move, State.outsideMove, tag]
  -- The tag is passed in one move, the space behind it in another.
  refine (Cursor.run_pass (openTag.tail.take 4) moves rfl).trans ?_
  exact Reading.run_space ⟨false, false, 5, 1⟩ [] rest rfl

/-- A scanner that sees only bytes finds in a token program exactly the names that the tokens
record: every qualified and fully qualified name outside a declaration, once, in order and with its
line, and nothing else. -/
theorem references_tokenProgram (program : TokenProgram) :
    occurrences (openTag ++ program.bytes) = program.occurrences .start ∧
      ∀ source : String, Text.bytesOf source = openTag ++ program.bytes →
        references source = (program.occurrences .start).map Occurrence.toReference := by
  have scanned : occurrences (openTag ++ program.bytes) = program.occurrences .start := by
    have run := program.run_bytes .start [] []
    rw [List.append_nil, List.append_nil, Cursor.run_nil] at run
    rw [occurrences, Cursor.run_openTag, run]
    exact List.reverse_reverse _
  refine ⟨scanned, ?_⟩
  intro source written
  rw [references, written, scanned]

/-- A comment does not part a member operator from its member, so this second keyword opens no
declaration and the name behind it is recorded. -/
theorem references_tokenProgram_member :
    let capital : Label :=
      ⟨ascii 'N', "amespace".toList.map ascii, by decide, List.all_eq_true.mp rfl⟩
    let small : Label :=
      ⟨ascii 'n', "amespace".toList.map ascii, by decide, List.all_eq_true.mp rfl⟩
    let a : Label := ⟨ascii 'A', [], by decide, List.all_eq_true.mp rfl⟩
    let b : Label := ⟨ascii 'B', [], by decide, List.all_eq_true.mp rfl⟩
    let program : TokenProgram :=
      [(.keyword capital (by decide), .space), (.qualified b (by decide) a [], .newline),
        (.semicolon, .space), (.member .nullArrow, .space),
        (.slashComment [ascii '?'] (by decide) fun closer => absurd closer.length_le (by decide),
          .space),
        (.keyword small (by decide), .space), (.qualified a (by decide) b [], .space)]
    let source := "<?php Namespace B\\A\n; ?-> //?\nnamespace A\\B "
    Text.bytesOf source = openTag ++ program.bytes ∧
      program.occurrences .start = [⟨40, 3, joinLabels a [b]⟩] ∧
      references source = (program.occurrences .start).map Occurrence.toReference := by
  intro capital small a b program source
  have written : Text.bytesOf source = openTag ++ program.bytes := by decide
  exact ⟨written, by decide, (references_tokenProgram program).2 source written⟩

end LayerGuard.Source
