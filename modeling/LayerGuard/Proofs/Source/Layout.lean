import LayerGuard.Proofs.Source.Token

/-! # Code as it is laid out

A layout is a list of tokens with any white space between, before and behind them. Where no white
space stands behind a token the text there must not continue it, so operators of several bytes are
laid out too, as punctuation without white space. What a layout records and what is known behind it
is read off its tokens, and the scanner agrees with that reading in front of every text that ends
the last token.
-/

namespace LayerGuard.Source

/-- A piece of a layout: a token, or a byte of white space. -/
inductive Piece where
  | token (t : Token)
  | blank (b : UInt8) (space : isSpace b = true)

namespace Piece

def bytes : Piece → List UInt8
  | token t => t.bytes
  | blank b _ => [b]

def token? : Piece → Option Token
  | token t => some t
  | blank _ _ => none

def behind (r : Reading) : Piece → Reading
  | token t => r.behind t
  | blank b _ => r.past b

/-- The name that a piece gives in a reading. -/
def recorded (r : Reading) : Piece → List Occurrence
  | token t => t.recorded r
  | blank _ _ => []

end Piece

/-- Tokens of code and the white space around them. -/
abbrev Layout := List Piece

namespace Layout

def bytes (layout : Layout) : List UInt8 := layout.flatMap Piece.bytes

def tokens (layout : Layout) : List Token := layout.filterMap Piece.token?

def behind (r : Reading) (layout : Layout) : Reading := layout.foldl Piece.behind r

/-- The names that a layout records, read from left to right. -/
def occurrences (r : Reading) : Layout → List Occurrence
  | [] => []
  | piece :: more => piece.recorded r ++ occurrences (piece.behind r) more

/-- Whether every token ends in front of the text behind it, with `rest` behind the layout. White
space ends a token, but only a line feed ends a comment that lasts to the end of its line. -/
def parted (rest : List UInt8) : Layout → Bool
  | [] => true
  | .token t :: more => t.endsBefore (bytes more ++ rest) && parted rest more
  | .blank _ _ :: more => parted rest more

/-! ## What the scanner does at a layout -/

/-- Behind a layout the scanner stands where the reading says, and has recorded what it says. -/
theorem run_bytes (layout : Layout) (r : Reading) (found : List Occurrence) {rest : List UInt8}
    (apart : layout.parted rest = true) :
    (r.cursor found).run (layout.bytes ++ rest) =
      ((layout.behind r).cursor ((layout.occurrences r).reverse ++ found)).run rest := by
  induction layout generalizing r found with
  | nil => rfl
  | cons piece layout ih =>
    rw [bytes, List.flatMap_cons, List.append_assoc]
    cases piece with
    | token t =>
      obtain ⟨ends, apart⟩ := Bool.and_eq_true_iff.mp apart
      refine (r.run_token found t ends).trans ((ih _ _ apart).trans ?_)
      simp only [behind, occurrences, List.foldl_cons, Piece.behind, Piece.recorded,
        List.reverse_append, List.append_assoc, t.recorded_reverse]
    | blank b space =>
      refine (r.run_space found _ space).trans ((ih _ _ apart).trans ?_)
      simp only [behind, occurrences, List.foldl_cons, Piece.behind, Piece.recorded,
        List.nil_append]

/-- The scan of a layout with nothing behind it. -/
theorem run_whole (layout : Layout) (r : Reading) (found : List Occurrence)
    (apart : layout.parted [] = true) :
    (r.cursor found).run layout.bytes =
      (layout.behind r).cursor ((layout.occurrences r).reverse ++ found) := by
  have run := layout.run_bytes r found apart
  rwa [List.append_nil, Cursor.run_nil] at run

/-- The scan of a layout behind the open tag, and of whatever follows it. -/
theorem run_openTag (layout : Layout) {rest : List UInt8} (apart : layout.parted rest = true) :
    Cursor.start.run (openTag ++ layout.bytes ++ rest) =
      ((layout.behind .start).cursor (layout.occurrences .start).reverse).run rest := by
  rw [List.append_assoc, Cursor.run_openTag, layout.run_bytes .start [] apart, List.append_nil]

/-! ## What may follow a layout -/

theorem bytes_append (front back : Layout) : (front ++ back).bytes = front.bytes ++ back.bytes :=
  List.flatMap_append

theorem parted_append (front back : Layout) (rest : List UInt8) :
    (front ++ back).parted rest = (front.parted (back.bytes ++ rest) && back.parted rest) := by
  induction front with
  | nil => rfl
  | cons piece front ih =>
    cases piece with
    | token t =>
      rw [List.cons_append, parted, parted, ih, bytes_append, List.append_assoc, Bool.and_assoc]
    | blank b space => exact ih

end Layout

/-- Whether a byte stands in none of the longer lexemes. -/
def foreignToLexemes (b : UInt8) : Bool := longerLexemes.all fun lexeme => !lexeme.contains b

/-- Whether a token ends is told in front of a foreign byte. -/
theorem Token.endsBefore_congr (t : Token) (front : List UInt8) {b : UInt8}
    (back back' : List UInt8) (foreign : foreignToLexemes b = true) :
    t.endsBefore (front ++ b :: back) = t.endsBefore (front ++ b :: back') := by
  have next (inClass : UInt8 → Bool) :
      nextIs inClass (front ++ b :: back) = nextIs inClass (front ++ b :: back') := by
    cases front <;> rfl
  cases t with
  | punctuation mark _ =>
    have lexeme_iff {lexeme : List UInt8} (longer : lexeme ∈ longerLexemes) (behind : List UInt8) :
        lexeme <+: mark :: (front ++ b :: behind) ↔ lexeme <+: mark :: front := by
      have absent : b ∉ lexeme := by simpa using List.all_eq_true.mp foreign lexeme longer
      rw [← List.cons_append]
      exact ⟨prefix_of_foreign absent, fun begins => begins.trans (List.prefix_append _ _)⟩
    rw [Bool.eq_iff_iff, endsBefore, endsBefore, List.all_eq_true, List.all_eq_true]
    refine forall₂_congr fun lexeme longer => ?_
    rw [Bool.not_eq_true', Bool.not_eq_true', Bool.eq_false_iff, Bool.eq_false_iff, ne_eq, ne_eq,
      List.isPrefixOf_iff_prefix, List.isPrefixOf_iff_prefix, lexeme_iff longer, lexeme_iff longer]
  | _ => simp only [endsBefore, next]

namespace Layout

/-- Whether a layout is parted is told in front of a foreign byte. -/
theorem parted_congr (layout : Layout) {b : UInt8} (back back' : List UInt8)
    (foreign : foreignToLexemes b = true) :
    layout.parted (b :: back) = layout.parted (b :: back') := by
  induction layout with
  | nil => rfl
  | cons piece layout ih =>
    cases piece with
    | token t => rw [parted, parted, ih, t.endsBefore_congr _ back back' foreign]
    | blank b space => exact ih

end Layout

end LayerGuard.Source
