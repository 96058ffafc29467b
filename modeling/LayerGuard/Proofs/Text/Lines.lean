import LayerGuard.Proofs.Text.Split

/-! # Texts made of lines

A text is made of lines if it is split at line feeds into them and an empty rest. Texts that are
each ended by a line feed make up such a text; its lines are theirs, and so the texts themselves if
no line feed stands in them.

A line is read from its end: the last occurrence of a character divides it in one way, and a number
is told by its digits.
-/

namespace LayerGuard.Text

/-- A text made of the given lines, each ended by a line feed. -/
def HasLines (s : String) (lines : List String) : Prop := split '\n' s = lines ++ [""]

/-- Texts, each ended by a line feed. -/
def endLines (items : List String) : String := String.join (items.map (· ++ "\n"))

theorem HasLines.unique {s : String} {lines others : List String} (has : HasLines s lines)
    (hasToo : HasLines s others) : lines = others :=
  List.append_cancel_right (has.symm.trans hasToo)

theorem hasLines_endLines (items : List String) :
    HasLines (endLines items) (items.flatMap (split '\n')) := by
  induction items with
  | nil => rfl
  | cons item items ih =>
    have front : endLines (item :: items) = item ++ '\n'.toString ++ endLines items := by
      rw [endLines, List.map_cons, String.join_cons]
      rfl
    rw [HasLines, front, split_append, ih, List.flatMap_cons, List.append_assoc]

theorem flatMap_split_of_free {separator : Char} {items : List String}
    (free : ∀ item ∈ items, separator ∉ item.toList) : items.flatMap (split separator) = items := by
  induction items with
  | nil => rfl
  | cons item items ih =>
    have here := split_of_not_mem (free item (List.mem_cons_self ..))
    have rest := ih fun other member => free other (List.mem_cons_of_mem _ member)
    rw [List.flatMap_cons, here, rest, List.singleton_append]

/-- A text has one piece more than separators. -/
theorem length_split (separator : Char) (s : String) :
    (split separator s).length = 1 + s.toList.count separator := by
  rw [split, List.length_map]
  induction s.toList with
  | nil => rfl
  | cons c cs ih =>
    by_cases same : c = separator
    · subst c
      rw [splitChars, if_pos (beq_self_eq_true _), List.length_cons, ih, List.count_cons_self]
      omega
    · obtain ⟨piece, pieces, split, here⟩ := splitChars_cons_of_ne same cs
      rw [split] at ih
      rw [here, List.count_cons_of_ne same]
      exact ih

/-! ## Lines read from their end -/

/-- The last occurrence of a character divides a text in one way. -/
theorem append_cons_inj_of_not_mem {c : Char} {front front' behind behind' : List Char}
    (free : c ∉ behind) (free' : c ∉ behind')
    (same : front ++ c :: behind = front' ++ c :: behind') : front = front' ∧ behind = behind' := by
  rcases List.append_eq_append_iff.mp same with ⟨gap, fronts, rest⟩ | ⟨gap, fronts, rest⟩
  · cases gap with
    | nil =>
      rw [List.append_nil] at fronts
      exact ⟨fronts.symm, (List.cons.inj rest).2⟩
    | cons d gap =>
      refine absurd ?_ free
      rw [(List.cons.inj rest).2]
      exact List.mem_append_right _ (List.mem_cons_self ..)
  · cases gap with
    | nil =>
      rw [List.append_nil] at fronts
      exact ⟨fronts, (List.cons.inj rest).2.symm⟩
    | cons d gap =>
      refine absurd ?_ free'
      rw [(List.cons.inj rest).2]
      exact List.mem_append_right _ (List.mem_cons_self ..)

/-- Only digits stand in a number. -/
theorem not_mem_toString {c : Char} (other : c.isDigit = false) (n : Nat) :
    c ∉ (toString n).toList := by
  rw [Nat.toString_eq_ofList_toDigits, String.toList_ofList]
  intro member
  rw [Nat.isDigit_of_mem_toDigits (by decide) (by decide) member] at other
  contradiction

theorem toString_inj {m n : Nat} (same : (toString m).toList = (toString n).toList) : m = n := by
  rw [Nat.toString_eq_ofList_toDigits, Nat.toString_eq_ofList_toDigits, String.toList_ofList,
    String.toList_ofList] at same
  have values := congrArg (Nat.ofDigitChars 10 · 0) same
  rwa [Nat.ofDigitChars_ten_toDigits, Nat.ofDigitChars_ten_toDigits] at values

end LayerGuard.Text
