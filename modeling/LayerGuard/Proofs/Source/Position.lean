import LayerGuard.Proofs.Source.Nesting
import Mathlib.Logic.ExistsUnique
import Mathlib.Logic.Relation

/-! # Positions of a scan

A scan goes from position to position, one move at a time. Whatever bytes a text is made of, every
position it comes to lies in the text and knows its line, no lexeme reaches beyond the end, every
move goes forward, and every region that is entered is come back from, at the latest at the end of
the text. From any position the scan goes on to the end.
-/

namespace LayerGuard.Source

/-! ## Places in a text -/

/-- A place in a text: that many bytes from its front, on that line, and with `rest` behind it. -/
structure PlacedIn (text : List UInt8) (offset line : Nat) (rest : List UInt8) : Prop where
  within : offset ≤ text.length
  behind : text.drop offset = rest
  line : line = 1 + lineFeeds (text.take offset)

/-- A place further on, byte by byte. -/
theorem PlacedIn.forward {text rest : List UInt8} {offset line n : Nat}
    (placed : PlacedIn text offset line rest) (fits : n ≤ rest.length) :
    PlacedIn text (offset + n) (line + lineFeeds (rest.take n)) (rest.drop n) := by
  obtain ⟨within, rfl, rfl⟩ := placed
  rw [List.length_drop] at fits
  refine ⟨by omega, List.drop_drop.symm, ?_⟩
  rw [List.take_add, lineFeeds_append, Nat.add_assoc]

/-! ## Moving from position to position -/

/-- A position of a scan: the cursor there and the text behind it. -/
structure Position where
  cursor : Cursor
  rest : List UInt8

theorem State.move_closingBrace {s : State} {depth : Nat} (embedded : s.mode = .embedded depth)
    (nested : Nested s.mode s.outer) (rest : List UInt8) :
    depth = 0 ∧ s.outer = (s.move (ascii '\x7d') rest).next.mode ::
        (s.move (ascii '\x7d') rest).next.outer ∨
      0 < depth ∧ (s.move (ascii '\x7d') rest).next.mode = .embedded (depth - 1) ∧
        (s.move (ascii '\x7d') rest).next.outer = s.outer := by
  obtain ⟨mode, outer, inDeclaration, afterMember⟩ := s
  simp only at embedded nested ⊢
  subst embedded
  cases nested with
  | embedded _ _ _ =>
    cases depth with
    | zero =>
      exact .inl ⟨rfl, by simp [move, codeMove, token, isSpace, isDigit, isLabelStart, isLetter,
        separator, pass, leave]⟩
    | succ depth =>
      exact .inr ⟨Nat.succ_pos _, by simp [move, codeMove, token, isSpace, isDigit, isLabelStart,
        isLetter, separator, pass]⟩

namespace Position

def front (text : List UInt8) : Position := ⟨.start, text⟩

/-- The position at which the scan of a text ends. -/
def finish (text : List UInt8) : Position := ⟨Cursor.start.run text, []⟩

def offset (p : Position) : Nat := p.cursor.offset

def mode (p : Position) : Mode := p.cursor.state.mode

/-- The modes around a position, innermost first. -/
def outer (p : Position) : List Mode := p.cursor.state.outer

/-- One move of the scanner. -/
inductive Step : Position → Position → Prop
  | move (c : Cursor) (b : UInt8) (rest : List UInt8) :
      Step ⟨c, b :: rest⟩
        ⟨c.advance (c.state.move b rest) (b :: rest.take (c.state.move b rest).more),
          rest.drop (c.state.move b rest).more⟩

/-- Any number of moves. -/
def Reaches : Position → Position → Prop := Relation.ReflTransGen Step

theorem Step.unique {p q r : Position} (first : Step p q) (second : Step p r) : q = r := by
  cases first
  cases second
  rfl

theorem exists_step {p : Position} (more : p.rest ≠ []) : ∃ q, Step p q := by
  obtain ⟨c, rest⟩ := p
  cases rest with
  | nil => contradiction
  | cons b rest => exact ⟨_, .move c b rest⟩

theorem Step.rest_ne_nil {p q : Position} (step : Step p q) : p.rest ≠ [] := by
  cases step
  exact List.cons_ne_nil _ _

theorem Step.rest_lt {p q : Position} (step : Step p q) : q.rest.length < p.rest.length := by
  cases step
  simp only [List.length_drop, List.length_cons]
  omega

/-- Every move takes a byte at least. -/
theorem Step.offset_lt {p q : Position} (step : Step p q) : p.offset < q.offset := by
  cases step
  simp only [offset, Cursor.advance, List.length_cons]
  omega

theorem Reaches.offset_le {p q : Position} (reaches : p.Reaches q) : p.offset ≤ q.offset := by
  induction reaches with
  | refl => exact Nat.le_refl _
  | tail _ step ih => exact Nat.le_trans ih (Nat.le_of_lt step.offset_lt)

/-- A move is one step of the run. -/
theorem Step.run_eq {p q : Position} (step : Step p q) : p.cursor.run p.rest = q.cursor.run q.rest := by
  cases step with
  | move c b rest => rw [Cursor.run]

/-- The scan goes on from a position to where the run ends. -/
theorem reaches_run (p : Position) : p.Reaches ⟨p.cursor.run p.rest, []⟩ := by
  obtain ⟨c, rest⟩ := p
  induction c, rest using Cursor.run.induct with
  | case1 c =>
    rw [Cursor.run_nil]
    exact .refl
  | case2 c b rest move ih =>
    have step := Step.move c b rest
    rw [step.run_eq]
    exact .head step ih

/-- From every position that it comes to, the scan of a text goes on to its end. -/
theorem Reaches.finish {text : List UInt8} {p : Position} (reached : (front text).Reaches p) :
    p.Reaches (finish text) := by
  have same : p.cursor.run p.rest = Cursor.start.run text := by
    induction reached with
    | refl => rfl
    | tail _ step ih => rw [← step.run_eq, ih]
  rw [Position.finish, ← same]
  exact reaches_run p

/-! ## What holds at every position -/

/-- A position is where it says it is, and its modes are well nested. -/
structure Sound (text : List UInt8) (p : Position) : Prop where
  placed : PlacedIn text p.cursor.offset p.cursor.line p.rest
  nested : Nested p.mode p.outer

theorem sound_front (text : List UInt8) : (front text).Sound text where
  placed := ⟨Nat.zero_le _, rfl, rfl⟩
  nested := .outside

/-- Every move keeps a position sound, and passes only places of the text. -/
theorem Sound.step {text : List UInt8} {p q : Position} (sound : p.Sound text) (step : Step p q) :
    q.Sound text := by
  cases step with
  | move c b rest =>
    have lawful := State.move_lawful sound.nested b rest
    have forward := sound.placed.forward (n := (c.state.move b rest).more + 1)
      (Nat.succ_le_succ lawful.fits)
    refine ⟨?_, lawful.shift.nested sound.nested⟩
    have taken : (rest.take (c.state.move b rest).more).length = (c.state.move b rest).more :=
      List.length_take_of_le lawful.fits
    simpa only [Cursor.advance, List.length_cons, taken, List.take_succ_cons,
      List.drop_succ_cons] using forward

theorem Reaches.sound {text : List UInt8} {p : Position} (reached : (front text).Reaches p) :
    p.Sound text := by
  induction reached with
  | refl => exact sound_front text
  | tail _ step sound => exact sound.step step

theorem Sound.shift {text rest : List UInt8} {b : UInt8} {p q : Position} (sound : p.Sound text)
    (next : p.rest = b :: rest) (step : Step p q) :
    Shift b rest p.mode p.outer q.mode q.outer := by
  cases step with
  | move c b rest =>
    cases next
    exact (State.move_lawful sound.nested b rest).shift

/-! ## Regions -/

/-- The first position from `p` on whose state is not `inside`, or else the end of the text. -/
inductive Until (inside : State → Prop) : Position → Position → Prop
  | stop {p : Position} (stops : p.rest = [] ∨ ¬ inside p.cursor.state) : Until inside p p
  | step {p q r : Position} (goes : inside p.cursor.state) (step : Step p q)
      (more : Until inside q r) : Until inside p r

variable {inside : State → Prop}

theorem Until.reaches {p r : Position} (found : Until inside p r) : p.Reaches r := by
  induction found with
  | stop _ => exact .refl
  | step _ step _ ih => exact .head step ih

theorem Until.stopped {p r : Position} (found : Until inside p r) :
    r.rest = [] ∨ ¬ inside r.cursor.state := by
  induction found with
  | stop stops => exact stops
  | step _ _ _ ih => exact ih

theorem exists_until (inside : State → Prop) (p : Position) : ∃ r, Until inside p r := by
  induction length : p.rest.length using Nat.strongRecOn generalizing p with
  | ind n ih =>
    by_cases stops : p.rest = [] ∨ ¬ inside p.cursor.state
    · exact ⟨p, .stop stops⟩
    · rw [not_or, Classical.not_not] at stops
      obtain ⟨q, step⟩ := exists_step stops.1
      obtain ⟨r, found⟩ := ih q.rest.length (length ▸ step.rest_lt) q rfl
      exact ⟨r, .step stops.2 step found⟩

theorem Until.unique {p r s : Position} (first : Until inside p r) (second : Until inside p s) :
    r = s := by
  induction first with
  | stop stops =>
    cases second with
    | stop _ => rfl
    | step goes step _ => exact (stops.elim step.rest_ne_nil (· goes)).elim
  | step goes step _ ih =>
    cases second with
    | stop stops => exact (stops.elim step.rest_ne_nil (· goes)).elim
    | step _ step' more =>
      cases step.unique step'
      exact ih more

/-- Whether a state has more modes around it than the given number. -/
def deeperThan (height : Nat) (s : State) : Prop := height < s.outer.length

/-- A region ends where the mode that it was entered from is back, with the same modes around it,
unless the text ends first. -/
theorem Until.comes_back {text : List UInt8} {mode : Mode} {outer : List Mode} {p r : Position}
    (found : Until (deeperThan outer.length) p r) (sound : p.Sound text)
    (entered : ∃ inner, p.outer = inner ++ mode :: outer) :
    r.rest = [] ∨ r.mode = mode ∧ r.outer = outer := by
  induction found with
  | @stop p stops =>
    obtain ⟨inner, around⟩ := entered
    refine stops.imp_right fun left => (left ?_).elim
    change outer.length < p.outer.length
    rw [around, List.length_append, List.length_cons]
    omega
  | @step p q r goes step more ih =>
    obtain ⟨inner, around⟩ := entered
    obtain ⟨b, rest, next⟩ := List.exists_cons_of_ne_nil step.rest_ne_nil
    have sound' := sound.step step
    rcases (sound.shift next step).stack with same | pushed | popped
    · exact ih sound' ⟨inner, same.trans around⟩
    · exact ih sound' ⟨p.mode :: inner, pushed.trans (congrArg _ around)⟩
    · rw [around] at popped
      cases inner with
      | nil =>
        -- The move takes off the mode that the region was entered from.
        injection popped with mode' outer'
        cases more with
        | stop _ => exact .inr ⟨mode'.symm, outer'.symm⟩
        | step deeper _ _ =>
          change outer.length < q.outer.length at deeper
          rw [outer'] at deeper
          exact (Nat.lt_irrefl _ deeper).elim
      | cons m inner =>
        injection popped with _ outer'
        exact ih sound' ⟨inner, outer'.symm⟩

/-- Where a region is entered there is one position at which it ends. It lies further on, and there
the mode that the region was entered from is back unless the text ends. -/
theorem Sound.region {text : List UInt8} {p q : Position} (sound : p.Sound text) (step : Step p q)
    (entered : q.outer = p.mode :: p.outer) :
    ∃! r, Until (deeperThan p.outer.length) q r ∧ p.offset < q.offset ∧ q.offset ≤ r.offset ∧
      (r.rest = [] ∨ r.mode = p.mode ∧ r.outer = p.outer) := by
  obtain ⟨r, found⟩ := exists_until (deeperThan p.outer.length) q
  have back := found.comes_back (sound.step step) ⟨[], entered⟩
  exact ⟨r, ⟨found, step.offset_lt, found.reaches.offset_le, back⟩,
    fun s other => other.1.unique found⟩

/-- Moves that all begin in states `inside`. -/
def Within (inside : State → Prop) : Position → Position → Prop :=
  Relation.ReflTransGen fun p q => inside p.cursor.state ∧ Step p q

theorem Within.single {p q : Position} (goes : inside p.cursor.state) (step : Step p q) :
    Within inside p q :=
  Relation.ReflTransGen.single ⟨goes, step⟩

/-- Moves that begin inside lead to where the first position that is not inside is looked for. -/
theorem Within.until {p q r : Position} (within : Within inside p q) (found : Until inside q r) :
    Until inside p r := by
  induction within using Relation.ReflTransGen.head_induction_on with
  | refl => exact found
  | head move _ ih => exact .step move.1 move.2 ih

/-- A lexeme is passed together with the region that it opens, if it opens one: behind it, `r` is
the first position with no more modes around it than at `p`. -/
def Passes (p r : Position) : Prop := ∃ q, Step p q ∧ Until (deeperThan p.outer.length) q r

theorem Passes.unique {p r s : Position} (first : p.Passes r) (second : p.Passes s) : r = s := by
  obtain ⟨q, step, found⟩ := first
  obtain ⟨q', step', found'⟩ := second
  cases step.unique step'
  exact found.unique found'

/-- Where a lexeme has been passed is told by one way to pass it. -/
theorem Passes.iff_eq {p r s : Position} (passes : p.Passes s) : p.Passes r ↔ r = s := by
  constructor
  · intro other
    exact other.unique passes
  · rintro rfl
    exact passes

/-- A step over the lexeme that a text begins with. -/
theorem Step.lexeme {c : Cursor} {b : UInt8} (more : List UInt8) {rest : List UInt8} {move : Move}
    (moves : c.state.move b (more ++ rest) = move) (length : move.more = more.length) :
    Step ⟨c, b :: (more ++ rest)⟩ ⟨c.advance move (b :: more), rest⟩ := by
  have step := Step.move c b (more ++ rest)
  rwa [moves, length, List.take_left, List.drop_left] at step

/-- A step over the lexeme that a text begins with, if it is no name. -/
theorem Step.pass {c : Cursor} {b : UInt8} (more : List UInt8) {rest : List UInt8} {state : State}
    {length : Nat} (moves : c.state.move b (more ++ rest) = state.pass length)
    (fits : length = more.length) :
    Step ⟨c, b :: (more ++ rest)⟩ ⟨c.skip state (b :: more), rest⟩ :=
  Step.lexeme more moves fits

/-- Code between tags ends at one position, which is not before its front: behind the close tag or
at the end of the text. -/
theorem exists_unique_codeEnd (p : Position) :
    ∃! r, Until (·.mode ≠ .outside) p r ∧ p.offset ≤ r.offset ∧
      (r.rest = [] ∨ r.mode = .outside) := by
  obtain ⟨r, found⟩ := exists_until (·.mode ≠ .outside) p
  exact ⟨r, ⟨found, found.reaches.offset_le, found.stopped.imp_right Decidable.not_not.mp⟩,
    fun s other => other.1.unique found⟩

/-! ## Braces of embedded code -/

/-- At a closing brace embedded code ends if it has opened none itself; otherwise one brace less
is open, so there is one to take away. -/
theorem Sound.closingBrace {text rest : List UInt8} {p q : Position} {depth : Nat}
    (sound : p.Sound text) (embedded : p.mode = .embedded depth)
    (brace : p.rest = ascii '\x7d' :: rest) (step : Step p q) :
    depth = 0 ∧ p.outer = q.mode :: q.outer ∨
      0 < depth ∧ q.mode = .embedded (depth - 1) ∧ q.outer = p.outer := by
  cases step with
  | move c b rest =>
    cases brace
    exact State.move_closingBrace embedded sound.nested rest

/-! ## The whole scan -/

/-- What is promised at a position that the scan of a text comes to. -/
structure Safe (text : List UInt8) (p : Position) : Prop where
  /-- The position lies in the text and knows its line. -/
  placed : PlacedIn text p.cursor.offset p.cursor.line p.rest
  /-- The modes around the position are those of regions that are still open. -/
  nested : Nested p.mode p.outer
  /-- No lexeme reaches beyond the end of the text. -/
  fits : ∀ b rest, p.rest = b :: rest → (p.cursor.state.move b rest).more ≤ rest.length
  /-- The body of a heredoc begins behind its opener and in the text. -/
  body : ∀ behind head, p.rest = ascii '<' :: ascii '<' :: ascii '<' :: behind →
    heredocHead? behind = some head → 0 < head.length ∧ p.offset + 3 + head.length ≤ text.length
  /-- A move goes forward, and every byte it passes is at its place. -/
  forward : ∀ q, Step p q → p.offset < q.offset ∧ ∀ n ≤ q.offset - p.offset,
    PlacedIn text (p.offset + n) (p.cursor.line + lineFeeds (p.rest.take n)) (p.rest.drop n)
  /-- Regions are entered at openers only, and left only where there is one to come back to. -/
  shift : ∀ b rest q, p.rest = b :: rest → Step p q →
    Shift b rest p.mode p.outer q.mode q.outer
  /-- A brace is taken away only where one is open. -/
  closingBrace : ∀ depth rest q, p.mode = .embedded depth → p.rest = ascii '\x7d' :: rest →
    Step p q → depth = 0 ∧ p.outer = q.mode :: q.outer ∨
      0 < depth ∧ q.mode = .embedded (depth - 1) ∧ q.outer = p.outer
  /-- A region that is entered ends at one position, further on. -/
  region : ∀ q, Step p q → q.outer = p.mode :: p.outer →
    ∃! r, Until (deeperThan p.outer.length) q r ∧ p.offset < q.offset ∧ q.offset ≤ r.offset ∧
      (r.rest = [] ∨ r.mode = p.mode ∧ r.outer = p.outer)
  /-- Code between tags ends at one position, which is not before this one. -/
  code : p.mode = .code → ∃! r, Until (·.mode ≠ .outside) p r ∧ p.offset ≤ r.offset ∧
    (r.rest = [] ∨ r.mode = .outside)

/-- What is promised of a heredoc's body follows from where its head lies. -/
theorem Sound.body {text behind : List UInt8} {p : Position} {head : HeredocHead}
    (sound : p.Sound text) (opener : p.rest = ascii '<' :: ascii '<' :: ascii '<' :: behind)
    (headed : heredocHead? behind = some head) :
    0 < head.length ∧ p.offset + 3 + head.length ≤ text.length := by
  obtain ⟨_, longer, fits⟩ := heredocHead?_fits headed
  have length := congrArg List.length sound.placed.behind
  have within := sound.placed.within
  simp only [List.length_drop, opener, List.length_cons] at length
  refine ⟨by omega, ?_⟩
  rw [offset]
  omega

theorem Sound.forward {text : List UInt8} {p q : Position} (sound : p.Sound text) (step : Step p q)
    {n : Nat} (inside : n ≤ q.offset - p.offset) :
    PlacedIn text (p.offset + n) (p.cursor.line + lineFeeds (p.rest.take n)) (p.rest.drop n) := by
  refine sound.placed.forward ?_
  have within := (sound.step step).placed.within
  have behind := congrArg List.length sound.placed.behind
  rw [List.length_drop] at behind
  simp only [offset] at inside
  omega

theorem Sound.safe {text : List UInt8} {p : Position} (sound : p.Sound text) : p.Safe text where
  placed := sound.placed
  nested := sound.nested
  fits b rest _ := (State.move_lawful sound.nested b rest).fits
  body _ _ opener headed := sound.body opener headed
  forward _ step := ⟨step.offset_lt, fun _ inside => sound.forward step inside⟩
  shift _ _ _ next step := sound.shift next step
  closingBrace _ _ _ embedded brace step := sound.closingBrace embedded brace step
  region _ step entered := sound.region step entered
  code _ := exists_unique_codeEnd p

/-- Whatever its bytes are, every position of the scan of a text is safe and leads on to the end of
the scan, which is the end of the text. -/
theorem scan_safe (text : List UInt8) :
    (∀ p, (front text).Reaches p → p.Safe text ∧ p.Reaches (finish text)) ∧
      (finish text).offset = text.length := by
  refine ⟨fun p reached => ⟨reached.sound.safe, reached.finish⟩, ?_⟩
  have sound : (finish text).Sound text := (reaches_run (front text)).sound
  have behind := congrArg List.length sound.placed.behind
  have within := sound.placed.within
  rw [List.length_drop] at behind
  change text.length - (finish text).offset = 0 at behind
  change (finish text).offset ≤ text.length at within
  omega

/-- The scan of `<?php "{$a}"` comes to an expression embedded in a literal. -/
theorem scan_safe_interpolation :
    ∃ p, (front ("<?php \"\x7b$a\x7d\"".toList.map ascii)).Reaches p ∧ p.mode = .embedded 0 ∧
      p.offset = 8 ∧ p.Safe ("<?php \"\x7b$a\x7d\"".toList.map ascii) := by
  have bytes : "<?php \"\x7b$a\x7d\"".toList.map ascii =
      [60, 63, 112, 104, 112, 32, 34, 123, 36, 97, 125, 34] := by decide
  have reached : (front ("<?php \"\x7b$a\x7d\"".toList.map ascii)).Reaches
      ⟨⟨⟨.embedded 0, [.quoted 34, .code], false, false⟩, 8, 1, []⟩, [36, 97, 125, 34]⟩ := by
    rw [bytes]
    exact .tail (.tail (.tail (.tail .refl (.move _ _ _)) (.move _ _ _)) (.move _ _ _)) (.move _ _ _)
  exact ⟨_, reached, rfl, rfl, ((scan_safe _).1 _ reached).1⟩

end Position

end LayerGuard.Source
