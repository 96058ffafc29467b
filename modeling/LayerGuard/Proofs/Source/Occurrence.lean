import LayerGuard.Proofs.Source.Move
import LayerGuard.Source.Analysis
import Mathlib.Data.List.Forall2

/-! # Every recorded name stands in the text

Whatever bytes a source is made of, well-formed or not, a recorded name is a stretch of it: labels
with separators between them that nothing behind them continues, on the line where the stretch
begins and behind some open tag. The stretches come in order and do not overlap. The invariant
holds in front of the source and every move keeps it, so no mode has to be looked at by itself.
-/

namespace LayerGuard.Source

/-! ## What a move can do -/

namespace State

@[simp] theorem pass_records (s : State) (more : Nat) : (s.pass more).records = false := rfl

@[simp] theorem escape_records (s : State) (rest : List UInt8) :
    (s.escape rest).records = false := rfl

@[simp] theorem heredocLine_records (s : State) (label : List UInt8) (lineEnd : Nat)
    (body : List UInt8) : (s.heredocLine label lineEnd body).records = false := rfl

@[simp] theorem outsideMove_records (s : State) (b : UInt8) (rest : List UInt8) :
    (s.outsideMove b rest).records = false := by
  rw [outsideMove]
  split <;> rfl

@[simp] theorem textMove_records (s : State) (b : UInt8) (rest : List UInt8) :
    (s.textMove b rest).records = false := by
  rw [textMove]
  split <;> rfl

@[simp] theorem quotedMove_records (s : State) (quote b : UInt8) (rest : List UInt8) :
    (s.quotedMove quote b rest).records = false := by
  simp only [quotedMove, apply_ite Move.records]
  simp

@[simp] theorem heredocMove_records (s : State) (label : List UInt8) (raw : Bool) (b : UInt8)
    (rest : List UInt8) : (s.heredocMove label raw b rest).records = false := by
  simp only [heredocMove, apply_ite Move.records]
  simp

end State

/-- A move that records takes exactly a name: one behind a leading separator, or one of several
labels that does not begin with the keyword. -/
def Move.RecordsName (b : UInt8) (rest : List UInt8) (m : Move) : Prop :=
  m.records = true →
    (b = separator ∧ nextIs isLabelStart rest = true ∧ m.more = (nameBytes rest).length) ∨
      (isLabelStart b = true ∧ isNamespaceWord (firstLabel (b :: rest)) = false ∧
        (firstLabel (b :: rest)).length < (nameBytes (b :: rest)).length ∧
        m.more + 1 = (nameBytes (b :: rest)).length)

theorem Move.recordsName_of_silent {b : UInt8} {rest : List UInt8} {m : Move}
    (silent : m.records = false) : m.RecordsName b rest := by
  intro records
  rw [silent] at records
  contradiction

/-- A choice between moves records names if both do. -/
theorem Move.recordsName_ite {b : UInt8} {rest : List UInt8} {c : Prop} [Decidable c]
    {first second : Move} (yes : c → first.RecordsName b rest)
    (no : ¬ c → second.RecordsName b rest) : (if c then first else second).RecordsName b rest :=
  iteInduction (motive := Move.RecordsName b rest) yes no

namespace State

theorem pass_recordsName (s : State) (more : Nat) (b : UInt8) (rest : List UInt8) :
    (s.pass more).RecordsName b rest :=
  Move.recordsName_of_silent rfl

theorem name_recordsName (s : State) (member : Bool) {b : UInt8} (rest : List UInt8)
    (word : (b == separator || isLabelStart b) = true) :
    (s.name member b rest).RecordsName b rest := by
  rw [name]
  refine Move.recordsName_ite (fun separated => ?_) fun unseparated => ?_
  · refine Move.recordsName_ite (fun next => ?_) fun _ => s.pass_recordsName _ _ _
    intro _
    exact .inl ⟨beq_iff_eq.mp separated, next, rfl⟩
  · have starts : isLabelStart b = true := by simpa [unseparated] using word
    refine Move.recordsName_ite (fun _ => pass_recordsName _ _ _ _) fun ordinary => ?_
    intro records
    simp only [Bool.and_eq_true, decide_eq_true_eq] at records
    refine .inr ⟨starts, Bool.not_eq_true _ ▸ ordinary, records.1, ?_⟩
    exact Nat.sub_add_cancel (Nat.lt_of_le_of_lt (Nat.zero_le _) records.1)

theorem token_recordsName (s : State) (member : Bool) (b : UInt8) (rest : List UInt8) :
    (s.token member b rest).RecordsName b rest := by
  have silent (t : State) (more : Nat) := t.pass_recordsName more b rest
  rw [token]
  refine Move.recordsName_ite (fun _ => silent _ _) fun _ => ?_
  refine Move.recordsName_ite (fun _ => silent _ _) fun _ => ?_
  refine Move.recordsName_ite (fun _ => silent _ _) fun _ => ?_
  refine Move.recordsName_ite (fun _ => silent _ _) fun _ => ?_
  refine Move.recordsName_ite (fun _ => ?_) fun _ => ?_
  · split
    · exact silent _ _
    · exact Move.recordsName_of_silent rfl
  refine Move.recordsName_ite (fun _ => silent _ _) fun _ => ?_
  refine Move.recordsName_ite (fun _ => silent _ _) fun _ => ?_
  refine Move.recordsName_ite (fun _ => silent _ _) fun _ => ?_
  refine Move.recordsName_ite (fun word => s.name_recordsName member rest word) fun _ => ?_
  split
  · refine Move.recordsName_ite (fun _ => silent _ _) fun _ => ?_
    refine Move.recordsName_ite (fun _ => ?_) fun _ => silent _ _
    split <;> exact silent _ _
  · exact silent _ _

theorem codeMove_recordsName (s : State) (b : UInt8) (rest : List UInt8) :
    (s.codeMove b rest).RecordsName b rest := by
  have silent (t : State) (more : Nat) := t.pass_recordsName more b rest
  rw [codeMove]
  refine Move.recordsName_ite (fun _ => silent _ _) fun _ => ?_
  refine Move.recordsName_ite (fun _ => silent _ _) fun _ => ?_
  refine Move.recordsName_ite (fun _ => silent _ _) fun _ => ?_
  refine Move.recordsName_ite (fun _ => silent _ _) fun _ => ?_
  exact token_recordsName _ _ _ _

/-- In every mode a move that records takes exactly a name. -/
theorem move_recordsName (s : State) (b : UInt8) (rest : List UInt8) :
    (s.move b rest).RecordsName b rest := by
  cases mode : s.mode with
  | outside => exact Move.recordsName_of_silent (by simp [move, mode])
  | code => simpa only [move, mode] using s.codeMove_recordsName b rest
  | embedded depth => simpa only [move, mode] using s.codeMove_recordsName b rest
  | quoted quote => exact Move.recordsName_of_silent (by simp [move, mode])
  | heredoc label raw => exact Move.recordsName_of_silent (by simp [move, mode])

end State

/-- Bytes that open code: `<?=`, or `<?php` in some letter case. -/
def IsOpenTag (tag : List UInt8) : Prop :=
  tag = "<?=".toList.map ascii ∨ tag.map lower = "<?php".toList.map ascii

/-- Whether an open tag stands somewhere in a text. -/
def HasOpenTag (text : List UInt8) : Prop := ∃ tag, IsOpenTag tag ∧ tag <:+: text

theorem HasOpenTag.append {text : List UInt8} (tagged : HasOpenTag text) (more : List UInt8) :
    HasOpenTag (text ++ more) := by
  obtain ⟨tag, isTag, inside⟩ := tagged
  exact ⟨tag, isTag, inside.trans (List.prefix_append text more).isInfix⟩

theorem isOpenTag_of_length {text : List UInt8} {n : Nat} (found : openTagLength? text = some n) :
    0 < n ∧ IsOpenTag (text.take n) := by
  rw [openTagLength?] at found
  split at found
  · next short =>
    cases found
    exact ⟨by decide, .inl (beq_iff_eq.mp short)⟩
  · split at found
    · next long =>
      cases found
      exact ⟨by decide, .inr (beq_iff_eq.mp long)⟩
    · cases found

namespace State

/-- Outside the tags nothing is recorded, and only an open tag leads out of there. -/
theorem move_of_outside {s : State} (outside : s.mode = .outside) (b : UInt8)
    (rest : List UInt8) :
    (s.move b rest).records = false ∧
      ((s.move b rest).next.mode = .outside ∨
        openTagLength? (b :: rest) = some ((s.move b rest).more + 1)) := by
  simp only [move, outside, outsideMove_records, true_and]
  cases tag : openTagLength? (b :: rest) with
  | none => exact .inl (by simp [outsideMove, tag, pass, outside])
  | some n =>
    have positive : n - 1 + 1 = n := Nat.sub_add_cancel (isOpenTag_of_length tag).1
    exact .inr (by simp [outsideMove, tag, pass, positive])

end State

/-! ## The invariant -/

/-- An occurrence is what stands in a text at its offset: a name that nothing continues, qualified
or behind a separator, on its line and behind an open tag. -/
def Occurrence.StandsIn (text : List UInt8) (o : Occurrence) : Prop :=
  ∃ before behind, text = before ++ (o.name ++ behind) ∧ before.length = o.offset ∧
    o.line = 1 + lineFeeds before ∧ HasOpenTag before ∧ nameBytes behind = [] ∧
    ∃ first more, o.name = joinLabels first more ∧
      (before.getLast? = some separator ∨ more ≠ [] ∧ first.isKeyword = false)

/-- The offset behind an occurrence. -/
def Occurrence.stop (o : Occurrence) : Nat := o.offset + o.name.length

/-- What holds of a cursor in a text when `passed` lies behind it: it knows its position, code is
met behind an open tag only, and what it has found stands in the text, in order, the last first. -/
structure Cursor.Sound (text passed : List UInt8) (c : Cursor) : Prop where
  offset : c.offset = passed.length
  line : c.line = 1 + lineFeeds passed
  tagged : c.state.mode = .outside ∨ HasOpenTag passed
  stands : ∀ o ∈ c.found, o.StandsIn text ∧ o.stop ≤ passed.length
  ordered : c.found.Pairwise fun later earlier => earlier.stop ≤ later.offset

theorem Cursor.sound_start (text : List UInt8) : Cursor.start.Sound text [] where
  offset := rfl
  line := rfl
  tagged := .inl rfl
  stands := by simp [start]
  ordered := .nil

theorem Cursor.occurrence_separator (c : Cursor) (name : List UInt8) :
    c.occurrence (separator :: name) = ⟨c.offset + 1, c.line, name⟩ := rfl

theorem Cursor.occurrence_of_start (c : Cursor) {b : UInt8} (rest : List UInt8)
    (starts : isLabelStart b = true) :
    c.occurrence (b :: rest) = ⟨c.offset, c.line, b :: rest⟩ := by
  have unseparated : (b == separator) = false := beq_eq_false_of_class starts (by decide)
  simp only [occurrence, unseparated, Bool.false_eq_true, ↓reduceIte]

/-- What a move records stands in the text, between where the move begins and where it ends. -/
theorem Cursor.Sound.occurrence {text passed rest : List UInt8} {b : UInt8} {c : Cursor} {m : Move}
    (sound : c.Sound text passed) (whole : text = passed ++ b :: rest) (tagged : HasOpenTag passed)
    (named : m.RecordsName b rest) (records : m.records = true) :
    (c.occurrence (b :: rest.take m.more)).StandsIn text ∧
      passed.length ≤ (c.occurrence (b :: rest.take m.more)).offset ∧
      (c.occurrence (b :: rest.take m.more)).stop ≤
        passed.length + (b :: rest.take m.more).length := by
  rcases named records with ⟨rfl, next, length⟩ | ⟨starts, ordinary, qualified, length⟩
  · -- A leading separator belongs to the lexeme and not to the name.
    rw [Cursor.occurrence_separator, length, take_nameBytes, sound.offset]
    refine ⟨⟨passed ++ [separator], rest.drop (nameBytes rest).length, ?_, ?_, ?_, ?_, ?_, ?_⟩,
      ?_, ?_⟩
    · simp [whole, nameBytes_append_drop]
    · simp
    · rw [lineFeeds_append, sound.line]
      rfl
    · exact tagged.append _
    · exact nameBytes_drop_length rest
    · cases rest with
      | nil => simp at next
      | cons d rest =>
        obtain ⟨first, more, read, _⟩ := exists_joinLabels_of_start rest next
        exact ⟨first, more, read, .inl (by simp)⟩
    · simp
    · simp only [Occurrence.stop, List.length_cons]
      omega
  · have taken : b :: rest.take m.more = nameBytes (b :: rest) := by
      rw [← take_nameBytes, ← length, List.take_succ_cons]
    rw [Cursor.occurrence_of_start _ _ starts, taken, sound.offset]
    obtain ⟨first, more, read, label⟩ := exists_joinLabels_of_start rest starts
    refine ⟨⟨passed, (b :: rest).drop (nameBytes (b :: rest)).length, ?_, rfl, sound.line, tagged,
      nameBytes_drop_length _, first, more, read, .inr ⟨?_, ?_⟩⟩, Nat.le_refl _, Nat.le_refl _⟩
    · rw [nameBytes_append_drop, whole]
    · rwa [label, read, length_lt_joinLabels_iff] at qualified
    · rwa [label] at ordinary

/-- Every move keeps the invariant. -/
theorem Cursor.Sound.step {text passed rest : List UInt8} {b : UInt8} {c : Cursor}
    (sound : c.Sound text passed) (whole : text = passed ++ b :: rest) :
    (c.advance (c.state.move b rest) (b :: rest.take (c.state.move b rest).more)).Sound text
      (passed ++ b :: rest.take (c.state.move b rest).more) := by
  have named := c.state.move_recordsName b rest
  have outside (mode : c.state.mode = .outside) := State.move_of_outside mode b rest
  generalize c.state.move b rest = m at named outside ⊢
  have recorded (records : m.records = true) :=
    sound.occurrence whole (sound.tagged.resolve_left fun mode => by
      rw [(outside mode).1] at records
      contradiction) named records
  refine ⟨?_, ?_, ?_, ?_, ?_⟩
  · simp [Cursor.advance, sound.offset]
  · simp only [Cursor.advance, lineFeeds_append, sound.line, Nat.add_assoc]
  · rcases sound.tagged with mode | tagged
    · rcases (outside mode).2 with still | tag
      · exact .inl still
      · refine .inr ⟨(b :: rest).take (m.more + 1), (isOpenTag_of_length tag).2, ?_⟩
        exact (List.suffix_append passed _).isInfix
    · exact .inr (tagged.append _)
  · intro o member
    rw [List.length_append]
    simp only [Cursor.advance] at member
    split at member
    · next records =>
      obtain ⟨stands, _, within⟩ := recorded records
      rcases List.mem_cons.mp member with rfl | earlier
      · exact ⟨stands, within⟩
      · exact ⟨(sound.stands o earlier).1, Nat.le_add_right_of_le (sound.stands o earlier).2⟩
    · exact ⟨(sound.stands o member).1, Nat.le_add_right_of_le (sound.stands o member).2⟩
  · simp only [Cursor.advance]
    split
    · next records =>
      obtain ⟨_, begins, _⟩ := recorded records
      exact .cons (fun o earlier => Nat.le_trans (sound.stands o earlier).2 begins) sound.ordered
    · exact sound.ordered

/-- Behind a run the invariant holds of the whole text. -/
theorem Cursor.sound_run (text : List UInt8) : (Cursor.start.run text).Sound text text := by
  let holds (c : Cursor) (rest : List UInt8) : Prop :=
    ∃ passed, text = passed ++ rest ∧ c.Sound text passed
  have front : holds .start text := ⟨[], rfl, Cursor.sound_start text⟩
  have behind : holds (Cursor.start.run text) [] := by
    refine Cursor.run_preserves ?_ front
    rintro c b rest ⟨passed, whole, sound⟩
    refine ⟨_, ?_, sound.step whole⟩
    rw [List.append_assoc, List.cons_append, List.take_append_drop, ← whole]
  obtain ⟨passed, whole, sound⟩ := behind
  rw [List.append_nil] at whole
  exact whole ▸ sound

/-! ## References as stretches of the source -/

/-- A stretch of a text: from its first byte to the one behind its last. -/
structure Span where
  start : Nat
  stop : Nat
  deriving DecidableEq, Repr

namespace Span

def slice (text : List UInt8) (span : Span) : List UInt8 := (text.take span.stop).drop span.start

/-- A stretch of a text bears a reference. -/
structure Bears (text : List UInt8) (span : Span) (r : Reference) : Prop where
  inside : span.start < span.stop ∧ span.stop ≤ text.length
  name : r.name = Text.decodeLossy (span.slice text)
  /-- The stretch is labels with separators between them. A separator stands before it, or it has
  two labels at least and the first is not the keyword. -/
  labels : ∃ first more, span.slice text = joinLabels first more ∧
    (0 < span.start ∧ text[span.start - 1]? = some separator ∨
      more ≠ [] ∧ first.isKeyword = false)
  /-- No byte behind the stretch continues its last label. -/
  labelEnds : ∀ b, text[span.stop]? = some b → isLabelByte b = false
  /-- No further label follows behind a separator. -/
  nameEnds : text[span.stop]? = some separator →
    ∀ b, text[span.stop + 1]? = some b → isLabelStart b = false
  line : r.line = 1 + (text.take span.start).count 0x0A
  tagged : HasOpenTag (text.take span.start)

end Span

def Occurrence.span (o : Occurrence) : Span := ⟨o.offset, o.stop⟩

theorem joinLabels_length_pos (first : Label) (more : List Label) :
    0 < (joinLabels first more).length := by
  simp [joinLabels, Label.bytes]

/-- An occurrence that stands in a text is borne by its stretch. -/
theorem Occurrence.StandsIn.bears {text : List UInt8} {o : Occurrence} (stands : o.StandsIn text) :
    o.span.Bears text o.toReference := by
  obtain ⟨before, behind, whole, offset, line, tagged, ends, first, more, name, qualified⟩ := stands
  have positive : 0 < o.name.length := name ▸ joinLabels_length_pos first more
  have front : text.take o.offset = before := by
    rw [whole, ← offset, List.take_left]
  have slice : o.span.slice text = o.name := by
    have upTo : text.take o.stop = before ++ o.name := by
      rw [whole, stop, ← offset, ← List.append_assoc, ← List.length_append, List.take_left]
    rw [Span.slice, span, upTo, ← offset, List.drop_left]
  have rest (n : Nat) : text[o.stop + n]? = behind[n]? := by
    rw [whole, stop, ← offset, ← List.append_assoc, ← List.length_append,
      List.getElem?_append_right (Nat.le_add_right _ _), Nat.add_sub_cancel_left]
  rw [nameBytes_eq_nil_iff] at ends
  refine ⟨⟨?_, ?_⟩, ?_, ⟨first, more, ?_, ?_⟩, ?_, ?_, ?_, ?_⟩
  · simp only [span, stop]
    omega
  · simp only [span, stop, whole, ← offset, List.length_append]
    omega
  · rw [slice]
    rfl
  · rw [slice, name]
  · rcases qualified with separated | qualified
    · obtain ⟨init, rfl⟩ := List.getLast?_eq_some_iff.mp separated
      refine .inl ⟨?_, ?_⟩
      · simp [span, ← offset]
      · simp [span, ← offset, whole]
    · exact .inr qualified
  · intro b next
    rw [span, ← Nat.add_zero o.stop, rest, ← List.head?_eq_getElem?] at next
    simpa [nextIs, next] using ends.1
  · intro separated b next
    rw [span, ← Nat.add_zero o.stop, rest, ← List.head?_eq_getElem?] at separated
    rw [span, rest, ← List.getElem?_tail, ← List.head?_eq_getElem?] at next
    simpa [nextIs, separated, next] using ends.2
  · rw [toReference, line, span, front]
    rfl
  · rw [span, front]
    exact tagged

/-- Every reference of a source is borne by a stretch of its bytes, and the stretches come in order
without overlap. -/
theorem references_borne (source : String) :
    ∃ spans : List Span,
      spans.Pairwise (fun a b => a.start < b.start ∧ a.stop ≤ b.start) ∧
        List.Forall₂ (Span.Bears (Text.bytesOf source)) spans (references source) := by
  have sound := Cursor.sound_run (Text.bytesOf source)
  have stands : ∀ o ∈ occurrences (Text.bytesOf source), o.StandsIn (Text.bytesOf source) := by
    intro o member
    exact (sound.stands o (List.mem_reverse.mp member)).1
  have ordered : (occurrences (Text.bytesOf source)).Pairwise fun a b => a.stop ≤ b.offset :=
    List.pairwise_reverse.mpr sound.ordered
  refine ⟨(occurrences (Text.bytesOf source)).map Occurrence.span, ?_, ?_⟩
  · refine List.pairwise_map.mpr (ordered.imp_of_mem ?_)
    intro a b member _ apart
    have positive := (stands a member).bears.inside.1
    exact ⟨Nat.lt_of_lt_of_le positive apart, apart⟩
  · rw [references, List.forall₂_map_left_iff, List.forall₂_map_right_iff, List.forall₂_same]
    intro o member
    exact (stands o member).bears

end LayerGuard.Source
