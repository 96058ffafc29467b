import LayerGuard.Proofs.Source.Occurrence
import LayerGuard.Proofs.Source.Position
import LayerGuard.Proofs.Text.Utf8

/-! # Names between characters

The scanner goes by bytes. In the text of a literal it may come to stand inside a character, because
an escape takes a single byte, but never in code: a move that leads into code ends behind an ASCII
byte or in front of a byte that no label holds, and every byte of a character outside ASCII may
stand in a label. So in the bytes of a text a name is read from the first byte of a character to the
last byte of one, and the name is a part of the text as it is.
-/

namespace LayerGuard.Source

/-! ## Where moves end -/

/-- Two stretches of bytes between which no character can go on: an ASCII byte ends the first one,
or no byte of a label begins the second one. -/
def Parted (lexeme rest : List UInt8) : Prop :=
  (∃ b, lexeme.getLast? = some b ∧ b.toNat < 128) ∨ nextIs isLabelByte rest = false

/-- A move that leads into code ends between characters. -/
def Move.Lands (b : UInt8) (rest : List UInt8) (m : Move) : Prop :=
  m.next.mode.isCode = true → Parted (b :: rest.take m.more) (rest.drop m.more)

/-- A choice between moves ends between characters if both do. -/
theorem Move.lands_ite {b : UInt8} {rest : List UInt8} {c : Prop} [Decidable c]
    {first second : Move} (yes : c → first.Lands b rest) (no : ¬ c → second.Lands b rest) :
    (if c then first else second).Lands b rest :=
  iteInduction (motive := Move.Lands b rest) yes no

theorem Parted.cons {b c : UInt8} {lexeme rest : List UInt8} (parted : Parted (c :: lexeme) rest) :
    Parted (b :: c :: lexeme) rest := by
  rwa [Parted, List.getLast?_cons_cons]

theorem Parted.all (lexeme : List UInt8) {rest : List UInt8} {n : Nat} (whole : rest.length ≤ n) :
    Parted lexeme (rest.drop n) := by
  rw [List.drop_of_length_le whole]
  exact .inr rfl

theorem nextIs_drop_runLength (inClass : UInt8 → Bool) (text : List UInt8) :
    nextIs inClass (text.drop (runLength inClass text)) = false := by
  induction text with
  | nil => rfl
  | cons b text ih =>
    cases inside : inClass b with
    | true => simpa [runLength, inside] using ih
    | false => simp [runLength, inside]

theorem ascii_of_not_labelStart {b : UInt8} (outside : isLabelStart b = false) : b.toNat < 128 := by
  simp only [isLabelStart, Bool.or_eq_false_iff, decide_eq_false_iff_not,
    UInt8.le_iff_toNat_le, UInt8.reduceToNat] at outside
  omega

theorem ascii_of_numberByte {b : UInt8} (inside : isNumberByte b = true) : b.toNat < 128 := by
  simp only [isNumberByte, isLetter, isDigit, Bool.or_eq_true, Bool.and_eq_true, decide_eq_true_eq,
    beq_iff_eq, UInt8.le_iff_toNat_le, ← UInt8.toNat_inj] at inside
  have low : (ascii '0').toNat = 48 ∧ (ascii '9').toNat = 57 ∧ (ascii '.').toNat = 46 := by decide
  have letters : (ascii 'a').toNat = 97 ∧ (ascii 'z').toNat = 122 ∧ (ascii 'A').toNat = 65 ∧
    (ascii 'Z').toNat = 90 ∧ (ascii '_').toNat = 95 := by decide
  omega

theorem ascii_of_lower {b : UInt8} (low : (lower b).toNat < 128) : b.toNat < 128 := by
  rw [lower] at low
  split at low
  · next capital =>
    simp only [Bool.and_eq_true, decide_eq_true_eq, UInt8.le_iff_toNat_le] at capital
    exact Nat.lt_of_le_of_lt capital.2 (by decide)
  · exact low

/-- An open tag ends in an ASCII byte. -/
theorem IsOpenTag.ascii_last {tag : List UInt8} (isTag : IsOpenTag tag) :
    ∃ b, tag.getLast? = some b ∧ b.toNat < 128 := by
  rcases isTag with rfl | word
  · exact ⟨ascii '=', by decide, by decide⟩
  · have last : (tag.map lower).getLast? = some (ascii 'p') := by rw [word]; decide
    rw [List.getLast?_map] at last
    obtain ⟨b, last, small⟩ := Option.map_eq_some_iff.mp last
    exact ⟨b, last, ascii_of_lower (by rw [small]; decide)⟩

/-- A line comment ends in front of an ASCII byte or with the text. -/
theorem nextIs_drop_commentLine (text : List UInt8) :
    nextIs isLabelByte (text.drop (commentLineLength text)) = false := by
  induction text with
  | nil => rfl
  | cons b text ih =>
    rw [commentLineLength]
    split
    · next ends =>
      simp only [Bool.or_eq_true, Bool.and_eq_true, beq_iff_eq] at ends
      rcases ends with rfl | ⟨rfl, _⟩ <;> rfl
    · exact ih

/-- A block comment ends behind its closer or with the text. -/
theorem parted_commentBlock (b : UInt8) (text : List UInt8) :
    Parted (b :: text.take (commentBlockLength text)) (text.drop (commentBlockLength text)) := by
  induction text generalizing b with
  | nil => exact .all _ (Nat.zero_le _)
  | cons c text ih =>
    rw [commentBlockLength]
    split
    · next closes =>
      simp only [Bool.and_eq_true, beq_iff_eq] at closes
      obtain ⟨rfl, slash⟩ := closes
      cases text with
      | nil => simp at slash
      | cons d text =>
        simp only [nextIs_cons, beq_iff_eq] at slash
        exact .inl ⟨d, rfl, by rw [slash]; decide⟩
    · exact (ih c).cons

/-- The label that closes a heredoc is not continued. -/
theorem nextIs_drop_lineStart {label text : List UInt8}
    (closed : (heredocLineStart label text).2 = true) :
    nextIs isLabelByte (text.drop (heredocLineStart label text).1) = false := by
  rw [heredocLineStart] at closed ⊢
  by_cases word : startsWord label (text.drop (runLength isIndent text)) = true
  · rw [if_pos word]
    rw [startsWord, Bool.and_eq_true, Bool.not_eq_true', List.drop_drop] at word
    exact word.2
  · rw [if_neg word] at closed
    cases closed

theorem nextIs_drop_nameBytes (text : List UInt8) :
    nextIs isLabelByte (text.drop (nameBytes text).length) = false :=
  ((nameBytes_eq_nil_iff _).mp (nameBytes_drop_length text)).1

theorem Nested.isQuote {quote : UInt8} {outer : List Mode} (nested : Nested (.quoted quote) outer) :
    isQuote quote = true := by
  cases nested with
  | quoted opens _ _ => exact opens

namespace State

variable {b : UInt8} {rest : List UInt8}

theorem pass_lands (s : State) (low : b.toNat < 128) : (s.pass 0).Lands b rest :=
  fun _ => .inl ⟨b, rfl, low⟩

/-- A move that stays in text may end anywhere. -/
theorem lands_of_text {m : Move} (text : m.next.mode.isCode = false) : m.Lands b rest := by
  intro code
  rw [text] at code
  contradiction

theorem heredocLine_lands {s : State} (text : s.mode.isCode = false) (label : List UInt8)
    (lineEnd : Nat) : (s.heredocLine label lineEnd (rest.drop lineEnd)).Lands b rest := by
  cases closed : (heredocLineStart label (rest.drop lineEnd)).2 with
  | false =>
    refine lands_of_text ?_
    rw [heredocLine_next, closed]
    exact text
  | true =>
    intro _
    have ends := nextIs_drop_lineStart closed
    rw [List.drop_drop] at ends
    exact .inr ends

theorem outsideMove_lands {s : State} (outside : s.mode = .outside) :
    (s.outsideMove b rest).Lands b rest := by
  rw [outsideMove]
  split
  · next n tag =>
    intro _
    obtain ⟨positive, isTag⟩ := isOpenTag_of_length tag
    obtain ⟨n, rfl⟩ := Nat.exists_eq_add_one.mpr positive
    exact .inl isTag.ascii_last
  · refine lands_of_text ?_
    rw [pass, outside]
    rfl

theorem textMove_lands {s : State} (text : s.mode.isCode = false) :
    (s.textMove b rest).Lands b rest := by
  rw [textMove]
  split
  · next n opens =>
    intro _
    rcases rest with _ | ⟨c, rest⟩
    · cases opens
    · rw [interpolationLength?] at opens
      split at opens
      · next brace =>
        cases opens
        simp only [Bool.and_eq_true, beq_iff_eq] at brace
        exact .inl ⟨b, rfl, by rw [brace.1]; decide⟩
      · split at opens
        · next dollar =>
          cases opens
          simp only [Bool.and_eq_true, beq_iff_eq] at dollar
          exact .inl ⟨c, rfl, by rw [dollar.2]; decide⟩
        · cases opens
  · exact lands_of_text text

theorem quotedMove_lands {s : State} {quote : UInt8} (mode : s.mode = .quoted quote)
    (nested : Nested s.mode s.outer) : (s.quotedMove quote b rest).Lands b rest := by
  have text : s.mode.isCode = false := by rw [mode]; rfl
  rw [quotedMove]
  refine Move.lands_ite (fun _ => lands_of_text text) fun _ => ?_
  refine Move.lands_ite (fun closing => ?_) fun _ => ?_
  · refine pass_lands _ ?_
    rw [mode] at nested
    have opens := nested.isQuote
    simp only [Source.isQuote, Bool.or_eq_true, beq_iff_eq] at opens
    rw [beq_iff_eq.mp closing]
    rcases opens with (rfl | rfl) | rfl <;> decide
  exact Move.lands_ite (fun _ => lands_of_text text) fun _ => textMove_lands text

theorem heredocMove_lands {s : State} {label : List UInt8} {raw : Bool}
    (mode : s.mode = .heredoc label raw) : (s.heredocMove label raw b rest).Lands b rest := by
  have text : s.mode.isCode = false := by rw [mode]; rfl
  rw [heredocMove]
  refine Move.lands_ite (fun _ => heredocLine_lands text label 0) fun _ => ?_
  refine Move.lands_ite (fun _ => lands_of_text text) fun _ => ?_
  exact Move.lands_ite (fun _ => lands_of_text text) fun _ => textMove_lands text

theorem name_lands (s : State) (member : Bool) (word : (b == separator || isLabelStart b) = true) :
    (s.name member b rest).Lands b rest := by
  rw [name]
  refine Move.lands_ite (fun separated => ?_) fun unseparated => ?_
  · refine Move.lands_ite (fun _ _ => .inr (nextIs_drop_nameBytes rest)) fun _ => ?_
    exact s.pass_lands (by rw [beq_iff_eq.mp separated]; decide)
  · have starts : isLabelStart b = true := by simpa [unseparated] using word
    have ends : Parted (b :: rest.take ((nameBytes (b :: rest)).length - 1))
        (rest.drop ((nameBytes (b :: rest)).length - 1)) := by
      have whole := nextIs_drop_nameBytes (b :: rest)
      rw [nameBytes, isLabelByte_of_start starts] at whole ⊢
      exact .inr whole
    exact Move.lands_ite (fun _ _ => ends) fun _ _ => ends

/-- A number ends behind one of its bytes, all of which are ASCII. -/
theorem parted_number (digit : isDigit b = true) :
    Parted (b :: rest.take (runLength isNumberByte rest))
      (rest.drop (runLength isNumberByte rest)) := by
  have taken : rest.take (runLength isNumberByte rest) = rest.takeWhile isNumberByte :=
    (List.prefix_iff_eq_take.mp (List.takeWhile_prefix isNumberByte)).symm
  have inside : ∀ c ∈ b :: rest.takeWhile isNumberByte, isNumberByte c = true :=
    List.forall_mem_cons.mpr
      ⟨by simp [isNumberByte, digit], List.all_eq_true.mp List.all_takeWhile⟩
  rw [taken]
  have last := List.getLast?_eq_some_getLast (List.cons_ne_nil b (rest.takeWhile isNumberByte))
  exact .inl ⟨_, last, ascii_of_numberByte (inside _ (List.getLast_mem _))⟩

theorem token_lands (s : State) (member : Bool) : (s.token member b rest).Lands b rest := by
  rw [token]
  refine Move.lands_ite (fun arrow _ => ?_) fun _ => ?_
  · simp only [Bool.and_eq_true] at arrow
    obtain ⟨behind, rfl⟩ := exists_cons_of_nextIs arrow.2
    exact .inl ⟨ascii '>', rfl, by decide⟩
  refine Move.lands_ite (fun arrow _ => ?_) fun _ => ?_
  · simp only [Bool.and_eq_true] at arrow
    obtain ⟨behind, rfl⟩ := exists_rest_of_nextIs arrow.1.2 arrow.2
    exact .inl ⟨ascii '>', rfl, by decide⟩
  refine Move.lands_ite (fun colons _ => ?_) fun _ => ?_
  · simp only [Bool.and_eq_true] at colons
    obtain ⟨behind, rfl⟩ := exists_cons_of_nextIs colons.2
    exact .inl ⟨ascii ':', rfl, by decide⟩
  refine Move.lands_ite (fun _ => lands_of_text rfl) fun _ => ?_
  refine Move.lands_ite (fun opener => ?_) fun _ => ?_
  · simp only [Bool.and_eq_true, beq_iff_eq] at opener
    obtain ⟨behind, rfl⟩ := exists_rest_of_nextIs opener.1.2 opener.2
    split
    · exact fun _ => .inl ⟨ascii '<', rfl, by decide⟩
    · exact heredocLine_lands rfl _ _
  refine Move.lands_ite (fun _ _ => .inr (nextIs_drop_runLength isLabelByte rest)) fun _ => ?_
  refine Move.lands_ite (fun semicolon => ?_) fun _ => ?_
  · exact pass_lands _ (by rw [beq_iff_eq.mp semicolon]; decide)
  refine Move.lands_ite (fun digit _ => parted_number digit) fun _ => ?_
  refine Move.lands_ite (fun word => s.name_lands member word) fun other => ?_
  -- Any other byte is no byte of a label, hence ASCII.
  have low : b.toNat < 128 := by
    simp only [Bool.or_eq_true, not_or, Bool.not_eq_true] at other
    exact ascii_of_not_labelStart other.2
  split
  · refine Move.lands_ite (fun _ => pass_lands _ low) fun _ => ?_
    refine Move.lands_ite (fun _ => ?_) fun _ => pass_lands _ low
    split <;> exact pass_lands _ low
  · exact pass_lands _ low

theorem codeMove_lands (s : State) : (s.codeMove b rest).Lands b rest := by
  rw [codeMove]
  refine Move.lands_ite (fun space => ?_) fun _ => ?_
  · refine s.pass_lands ?_
    simp only [isSpace, Bool.or_eq_true, beq_iff_eq] at space
    rcases space with (((rfl | rfl) | rfl) | rfl) | rfl <;> decide
  refine Move.lands_ite (fun _ => lands_of_text rfl) fun _ => ?_
  refine Move.lands_ite (fun _ _ => .inr (nextIs_drop_commentLine rest)) fun _ => ?_
  refine Move.lands_ite (fun opener _ => ?_) fun _ => token_lands _ _
  simp only [Bool.and_eq_true] at opener
  obtain ⟨text, rfl⟩ := exists_cons_of_nextIs opener.2
  rw [pass, Nat.add_comm]
  exact (parted_commentBlock (ascii '*') text).cons

/-- Where the modes are well nested, every move into code ends between characters. -/
theorem move_lands {s : State} (nested : Nested s.mode s.outer) (b : UInt8) (rest : List UInt8) :
    (s.move b rest).Lands b rest := by
  rw [move]
  split
  · next mode => exact outsideMove_lands mode
  · exact s.codeMove_lands
  · exact s.codeMove_lands
  · next mode => exact quotedMove_lands mode nested
  · next mode => exact heredocMove_lands mode

end State

/-! ## Positions between characters -/

/-- In the bytes of a text no character goes on between parted stretches. -/
theorem Parted.fresh {cs : List Char} {front lexeme rest : List UInt8} (parted : Parted lexeme rest)
    (whole : Text.utf8Bytes cs = front ++ (lexeme ++ rest)) :
    nextIs Text.isContinuation rest = false := by
  rcases parted with ⟨b, last, low⟩ | next
  · obtain ⟨init, rfl⟩ := List.getLast?_eq_some_iff.mp last
    rw [List.append_assoc, ← List.append_assoc, List.singleton_append] at whole
    exact Text.head_of_ascii whole low
  · cases rest with
    | nil => rfl
    | cons c rest =>
      rw [nextIs_cons, isLabelByte, Bool.or_eq_false_iff] at next
      rw [nextIs_cons, ← Bool.not_eq_true, Text.isContinuation_iff]
      have low := ascii_of_not_labelStart next.1
      omega

namespace Position

variable {source : String} {p : Position}

/-- The bytes before a position and those behind it make up the text. -/
theorem Sound.whole {text : List UInt8} (sound : p.Sound text) :
    text = text.take p.offset ++ p.rest := by
  rw [← sound.placed.behind]
  exact (List.take_append_drop _ _).symm

/-- A position of code lies between characters. -/
theorem Reaches.fresh (reached : (front (Text.bytesOf source)).Reaches p)
    (code : p.mode.isCode = true) : nextIs Text.isContinuation p.rest = false := by
  cases reached with
  | refl => cases code
  | tail before step =>
    have sound := Reaches.sound before
    have whole := sound.whole
    cases step with
    | move c b rest =>
      have parted := State.move_lands sound.nested b rest code
      have split : b :: rest = (b :: rest.take (c.state.move b rest).more) ++
          rest.drop (c.state.move b rest).more := by
        rw [List.cons_append, List.take_append_drop]
      exact parted.fresh (whole.trans (congrArg _ split))

end Position

/-! ## Names cut out of a text -/

/-- A stretch of the bytes of a source cuts a text out of it, so both of its ends lie between
characters of the source. -/
def Span.CutsOut (source : String) (span : Span) (name : String) : Prop :=
  ∃ before behind, source = before ++ (name ++ behind) ∧
    span.start = (Text.bytesOf before).length ∧
    span.stop = (Text.bytesOf before).length + (Text.bytesOf name).length

/-- Bytes between two places where no character goes on are those of a part of the text. -/
theorem exists_cutsOut {source : String} {front name rest : List UInt8}
    (whole : Text.bytesOf source = front ++ (name ++ rest))
    (first : nextIs Text.isContinuation (name ++ rest) = false)
    (last : nextIs Text.isContinuation rest = false) :
    ∃ text, Span.CutsOut source ⟨front.length, front.length + name.length⟩ text := by
  obtain ⟨before, others, chars, rfl, tail⟩ := Text.exists_split_of_head whole first
  obtain ⟨text, behind, rfl, rfl, rfl⟩ := Text.exists_split_of_head tail last
  refine ⟨String.ofList text, String.ofList before, String.ofList behind, ?_, ?_, ?_⟩
  · rw [← String.ofList_append, ← String.ofList_append, ← chars, String.ofList_toList]
  · rw [Text.bytesOf, String.toList_ofList]
  · rw [Text.bytesOf, Text.bytesOf, String.toList_ofList, String.toList_ofList]

/-- The stretch of the name that the scanner reads at a position of code: from the first label on,
as far as the name goes. -/
inductive Position.ReadsName (p : Position) : Span → Prop
  | label {b : UInt8} {rest : List UInt8} (code : p.mode.isCode = true) (next : p.rest = b :: rest)
      (starts : isLabelStart b = true) :
      ReadsName p ⟨p.offset, p.offset + (nameBytes (b :: rest)).length⟩
  | separated {rest : List UInt8} (code : p.mode.isCode = true)
      (next : p.rest = separator :: rest) (starts : nextIs isLabelStart rest = true) :
      ReadsName p ⟨p.offset + 1, p.offset + 1 + (nameBytes rest).length⟩

/-- A name that begins between characters ends between characters. -/
theorem exists_cutsOut_name {source : String} {front text : List UInt8}
    (whole : Text.bytesOf source = front ++ text)
    (first : nextIs Text.isContinuation text = false) :
    ∃ name, Span.CutsOut source ⟨front.length, front.length + (nameBytes text).length⟩ name := by
  have parted : Parted (nameBytes text) (text.drop (nameBytes text).length) :=
    .inr (nextIs_drop_nameBytes text)
  rw [← nameBytes_append_drop text] at whole first
  exact exists_cutsOut whole first (parted.fresh whole)

theorem Position.ReadsName.exists_cutsOut {source : String} {p : Position} {span : Span}
    (reads : p.ReadsName span) (reached : (front (Text.bytesOf source)).Reaches p) :
    ∃ name, span.CutsOut source name := by
  have sound := Reaches.sound reached
  have whole := sound.whole
  have length : ((Text.bytesOf source).take p.offset).length = p.offset :=
    List.length_take_of_le sound.placed.within
  generalize (Text.bytesOf source).take p.offset = passed at whole length
  cases reads with
  | label code next starts =>
    have fresh := Reaches.fresh reached code
    rw [next] at whole fresh
    rw [← length]
    exact exists_cutsOut_name whole fresh
  | @separated rest code next starts =>
    rw [next, List.append_cons] at whole
    have behind : (passed ++ [separator]).length = p.offset + 1 := by simp [length]
    have parted : Parted [separator] rest := .inl ⟨separator, rfl, by decide⟩
    rw [← behind]
    exact exists_cutsOut_name whole (parted.fresh (whole.trans (List.append_assoc ..)))

/-- The bytes of the stretch are those of the text cut out. -/
theorem Span.CutsOut.slice {source name : String} {span : Span} (cuts : span.CutsOut source name) :
    span.slice (Text.bytesOf source) = Text.bytesOf name := by
  obtain ⟨before, behind, rfl, start, stop⟩ := cuts
  rw [Span.slice, start, stop, Text.bytesOf_append, Text.bytesOf_append,
    List.take_length_add_append, List.drop_left, List.take_left]

/-! ## What is recorded -/

/-- Only in code is anything recorded. -/
theorem State.isCode_of_records {s : State} {b : UInt8} {rest : List UInt8}
    (records : (s.move b rest).records = true) : s.mode.isCode = true := by
  cases mode : s.mode with
  | code => rfl
  | embedded depth => rfl
  | outside => simp [move, mode] at records
  | quoted quote => simp [move, mode] at records
  | heredoc label raw => simp [move, mode] at records

/-- What a move records is the stretch of the name read there. -/
theorem Position.readsName_of_records {c : Cursor} {b : UInt8} {rest : List UInt8}
    (records : (c.state.move b rest).records = true) :
    ReadsName ⟨c, b :: rest⟩ (c.occurrence (b :: rest.take (c.state.move b rest).more)).span := by
  have code := State.isCode_of_records records
  rcases c.state.move_recordsName b rest records with
    ⟨rfl, next, length⟩ | ⟨starts, _, _, length⟩
  · rw [length, take_nameBytes]
    exact .separated code rfl next
  · have taken : b :: rest.take (c.state.move b rest).more = nameBytes (b :: rest) := by
      rw [← take_nameBytes, ← length, List.take_succ_cons]
    rw [Cursor.occurrence_of_start _ _ starts, taken]
    exact .label code rfl starts

theorem Position.Reaches.exists_readsName {text : List UInt8} {p : Position}
    (reached : (front text).Reaches p) {o : Occurrence} (found : o ∈ p.cursor.found) :
    ∃ q, (front text).Reaches q ∧ q.ReadsName o.span := by
  induction reached with
  | refl => cases found
  | tail before step ih =>
    cases step with
    | move c b rest =>
      simp only [Cursor.advance] at found
      split at found
      · next records =>
        rcases List.mem_cons.mp found with rfl | earlier
        · exact ⟨_, before, readsName_of_records records⟩
        · exact ih earlier
      · exact ih found

/-- Wherever the scanner reads a name in a source, both ends of the name lie between characters, so
its bytes are well-formed and it is a part of the source. Every reference is such a part, as it
is. -/
theorem names_cutOut (source : String) :
    (∀ p span, (Position.front (Text.bytesOf source)).Reaches p → p.ReadsName span →
      ∃ name, span.CutsOut source name ∧
        Text.decode? (span.slice (Text.bytesOf source)) = some name) ∧
      List.Forall₂
        (fun o r => (∃ p, (Position.front (Text.bytesOf source)).Reaches p ∧ p.ReadsName o.span) ∧
          o.span.CutsOut source r.name)
        (occurrences (Text.bytesOf source)) (references source) := by
  refine ⟨fun p span reached reads => ?_, ?_⟩
  · obtain ⟨name, cuts⟩ := reads.exists_cutsOut reached
    exact ⟨name, cuts, cuts.slice ▸ Text.decode?_bytesOf name⟩
  · rw [references, List.forall₂_map_right_iff, List.forall₂_same]
    intro o member
    have found := List.mem_reverse.mp member
    have finished := Position.reaches_run (.front (Text.bytesOf source))
    obtain ⟨p, reached, reads⟩ := finished.exists_readsName found
    obtain ⟨name, cuts⟩ := reads.exists_cutsOut reached
    have bears := ((Cursor.sound_run (Text.bytesOf source)).stands o found).1.bears
    rw [bears.name, cuts.slice, Text.decodeLossy_bytesOf]
    exact ⟨⟨p, reached, reads⟩, cuts⟩

/-- The escape leads into the middle of a character at offset 9. The name in the code behind it is
read at offset 14 and cut out as it is, with a character outside ASCII at its front. -/
theorem names_cutOut_escaped :
    let source := "<?php \"\\é\x7b$a É\\B\x7d\""
    ∃ p q, (Position.front (Text.bytesOf source)).Reaches p ∧ p.offset = 9 ∧
      nextIs Text.isContinuation p.rest = true ∧
      (Position.front (Text.bytesOf source)).Reaches q ∧ q.ReadsName ⟨14, 18⟩ ∧
      Span.CutsOut source ⟨14, 18⟩ "É\\B" := by
  intro source
  have bytes : Text.bytesOf source = [60, 63, 112, 104, 112, 32, 34, 92, 195, 169, 123, 36, 97, 32,
      195, 137, 92, 66, 125, 34] := by decide
  let inside : Position :=
    ⟨⟨⟨.quoted 34, [.code], false, false⟩, 9, 1, []⟩,
      [169, 123, 36, 97, 32, 195, 137, 92, 66, 125, 34]⟩
  let embedded : Position :=
    ⟨⟨⟨.embedded 0, [.quoted 34, .code], false, false⟩, 14, 1, []⟩, [195, 137, 92, 66, 125, 34]⟩
  have escaped : (Position.front (Text.bytesOf source)).Reaches inside := by
    rw [bytes]
    exact .tail (.tail (.tail (.tail .refl (.move ..)) (.move ..)) (.move ..)) (.move ..)
  have reached : (Position.front (Text.bytesOf source)).Reaches embedded :=
    .tail (.tail (.tail (.tail escaped (.move ..)) (.move ..)) (.move ..)) (.move ..)
  have length : (nameBytes embedded.rest).length = 4 := by decide
  have reads : embedded.ReadsName ⟨14, 14 + (nameBytes embedded.rest).length⟩ :=
    .label (b := 195) rfl rfl (by decide)
  rw [length] at reads
  obtain ⟨name, cuts, decoded⟩ := (names_cutOut source).1 _ _ reached reads
  have slice : Span.slice (Text.bytesOf source) ⟨14, 18⟩ = Text.bytesOf "É\\B" := by decide
  rw [slice, Text.decode?_bytesOf] at decoded
  cases decoded
  exact ⟨inside, embedded, escaped, rfl, rfl, reached, reads, cuts⟩

end LayerGuard.Source
