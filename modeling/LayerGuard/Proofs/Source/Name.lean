import LayerGuard.Source.Lexeme

/-! # Names as labels

The scanner reads a name byte by byte. Here a name is what its grammar says: labels with a
separator between each two. `nameBytes` stops exactly where that grammar stops: it takes all of a
written name, takes nothing else, and what follows cannot continue the name.
-/

namespace LayerGuard.Source

/-- A label: a byte that may begin one, then bytes that may stand inside one. -/
structure Label where
  first : UInt8
  more : List UInt8
  starts : isLabelStart first = true
  continues : ∀ b ∈ more, isLabelByte b = true
  deriving DecidableEq, Repr

namespace Label

def bytes (l : Label) : List UInt8 := l.first :: l.more

/-- Whether a label is the word `namespace` in some letter case. -/
def isKeyword (l : Label) : Bool := isNamespaceWord l.bytes

end Label

/-- The bytes of a name that begins with the first label. -/
def joinLabels (first : Label) (more : List Label) : List UInt8 :=
  first.bytes ++ more.flatMap fun l => separator :: l.bytes

theorem joinLabels_nil (first : Label) : joinLabels first [] = first.bytes :=
  List.append_nil _

/-! ## The byte classes -/

/-- A byte of a class is none of the bytes outside it. -/
theorem beq_eq_false_of_class {inClass : UInt8 → Bool} {b c : UInt8} (inside : inClass b = true)
    (outside : inClass c = false) : (b == c) = false := by
  rw [beq_eq_false_iff_ne]
  rintro rfl
  rw [inside] at outside
  contradiction

theorem isLabelByte_of_start {b : UInt8} (starts : isLabelStart b = true) :
    isLabelByte b = true := by
  simp [isLabelByte, starts]

theorem isLabelByte_separator : isLabelByte separator = false := by decide

theorem Label.isLabelByte_of_mem (l : Label) {b : UInt8} (member : b ∈ l.bytes) :
    isLabelByte b = true := by
  rcases List.mem_cons.mp member with rfl | inside
  · exact isLabelByte_of_start l.starts
  · exact l.continues b inside

@[simp] theorem nextIs_nil (inClass : UInt8 → Bool) : nextIs inClass [] = false := rfl

@[simp] theorem nextIs_cons (inClass : UInt8 → Bool) (b : UInt8) (rest : List UInt8) :
    nextIs inClass (b :: rest) = inClass b := rfl

theorem exists_cons_of_nextIs {b : UInt8} {text : List UInt8} (next : nextIs (· == b) text = true) :
    ∃ behind, text = b :: behind := by
  cases text with
  | nil => simp at next
  | cons c text => exact ⟨text, by rw [← beq_iff_eq.mp next]⟩

/-! ## Where a name stops -/

/-- Nothing of a text can continue a name that ends in front of it. -/
theorem nameBytes_eq_nil_iff (text : List UInt8) :
    nameBytes text = [] ↔
      nextIs isLabelByte text = false ∧
        (nextIs (· == separator) text && nextIs isLabelStart text.tail) = false := by
  cases text with
  | nil => simp [nameBytes]
  | cons b rest => simp [nameBytes]

theorem nameBytes_append_of_labelBytes (run rest : List UInt8)
    (inside : ∀ b ∈ run, isLabelByte b = true) :
    nameBytes (run ++ rest) = run ++ nameBytes rest := by
  induction run with
  | nil => rfl
  | cons b run ih =>
    have here : isLabelByte b = true := inside b (List.mem_cons_self ..)
    have tail := ih fun c member => inside c (List.mem_cons_of_mem _ member)
    simp only [List.cons_append, nameBytes, here, Bool.true_or, ↓reduceIte, tail]

theorem nameBytes_separator_label (l : Label) (rest : List UInt8) :
    nameBytes (separator :: (l.bytes ++ rest)) = separator :: (l.bytes ++ nameBytes rest) := by
  have label := nameBytes_append_of_labelBytes l.bytes rest fun _ => l.isLabelByte_of_mem
  have next : nextIs isLabelStart (l.bytes ++ rest) = true := l.starts
  rw [nameBytes, label, next]
  simp

/-- A written name is read to its end, whatever stands behind it. -/
theorem nameBytes_joinLabels (first : Label) (more : List Label) (rest : List UInt8) :
    nameBytes (joinLabels first more ++ rest) = joinLabels first more ++ nameBytes rest := by
  have labels : nameBytes ((more.flatMap fun l => separator :: l.bytes) ++ rest) =
      (more.flatMap fun l => separator :: l.bytes) ++ nameBytes rest := by
    induction more with
    | nil => rfl
    | cons l more ih =>
      simp only [List.flatMap_cons, List.cons_append, List.append_assoc]
      rw [nameBytes_separator_label, ih]
  simp only [joinLabels, List.append_assoc]
  rw [nameBytes_append_of_labelBytes _ _ fun _ => first.isLabelByte_of_mem, labels]

theorem nextIs_labelByte_of_labels (more : List Label) {rest : List UInt8}
    (ends : nextIs isLabelByte rest = false) :
    nextIs isLabelByte ((more.flatMap fun l => separator :: l.bytes) ++ rest) = false := by
  cases more with
  | nil => exact ends
  | cons l more => exact isLabelByte_separator

/-- The first label of a written name. -/
theorem firstLabel_joinLabels (first : Label) (more : List Label) {rest : List UInt8}
    (ends : nextIs isLabelByte rest = false) :
    firstLabel (joinLabels first more ++ rest) = first.bytes := by
  have boundary := nextIs_labelByte_of_labels more ends
  simp only [firstLabel, joinLabels, List.append_assoc]
  rw [List.takeWhile_append_of_pos fun _ => first.isLabelByte_of_mem]
  generalize (more.flatMap fun l => separator :: l.bytes) ++ rest = behind at boundary
  cases behind with
  | nil => simp
  | cons b behind =>
    rw [nextIs_cons] at boundary
    simp [boundary]

/-- A name is longer than its first label exactly if it has another one. -/
theorem length_lt_joinLabels_iff (first : Label) (more : List Label) :
    first.bytes.length < (joinLabels first more).length ↔ more ≠ [] := by
  cases more with
  | nil => simp [joinLabels]
  | cons l more => simp [joinLabels]

/-! ## What is read is a name -/

theorem nameBytes_isPrefix (text : List UInt8) : nameBytes text <+: text := by
  induction text with
  | nil => exact List.prefix_refl _
  | cons b rest ih =>
    rw [nameBytes]
    split
    · exact List.cons_prefix_cons.mpr ⟨rfl, ih⟩
    · exact List.nil_prefix

theorem take_nameBytes (text : List UInt8) : text.take (nameBytes text).length = nameBytes text :=
  (List.prefix_iff_eq_take.mp (nameBytes_isPrefix text)).symm

theorem nameBytes_append_drop (text : List UInt8) :
    nameBytes text ++ text.drop (nameBytes text).length = text := by
  have split := List.take_append_drop (nameBytes text).length text
  rwa [take_nameBytes] at split

/-- A name is read as far as it goes. -/
theorem nameBytes_drop_length (text : List UInt8) :
    nameBytes (text.drop (nameBytes text).length) = [] := by
  induction text with
  | nil => rfl
  | cons b rest ih =>
    by_cases taken : (isLabelByte b || (b == separator && nextIs isLabelStart rest)) = true
    · rw [nameBytes, if_pos taken]
      exact ih
    · rw [nameBytes, if_neg taken]
      simp [nameBytes, taken]

/-- The bytes read are label bytes and then labels, each behind a separator. -/
theorem exists_labels_nameBytes (text : List UInt8) :
    ∃ labels : List Label, nameBytes text =
      firstLabel text ++ labels.flatMap fun l => separator :: l.bytes := by
  induction text with
  | nil => exact ⟨[], rfl⟩
  | cons b rest ih =>
    obtain ⟨labels, read⟩ := ih
    by_cases inside : isLabelByte b = true
    · refine ⟨labels, ?_⟩
      simp [nameBytes, firstLabel, inside, read]
    · by_cases another : b = separator ∧ nextIs isLabelStart rest = true
      · obtain ⟨rfl, next⟩ := another
        cases rest with
        | nil => simp at next
        | cons c rest =>
          rw [nextIs_cons] at next
          -- The bytes behind the separator up to the next one make up one label.
          let label : Label :=
            ⟨c, firstLabel rest, next, fun _ member =>
              List.all_eq_true.mp List.all_takeWhile _ member⟩
          refine ⟨label :: labels, ?_⟩
          rw [nameBytes, read]
          simp [firstLabel, isLabelByte_separator, isLabelByte_of_start next, next, label,
            Label.bytes]
      · have stops : ¬ (isLabelByte b || (b == separator && nextIs isLabelStart rest)) = true := by
          simpa [inside] using another
        refine ⟨[], ?_⟩
        rw [nameBytes, if_neg stops]
        simp [firstLabel, inside]

/-- What is read where a label begins is a name, and its first label is the first one read. -/
theorem exists_joinLabels_of_start {b : UInt8} (rest : List UInt8) (starts : isLabelStart b = true) :
    ∃ first more, nameBytes (b :: rest) = joinLabels first more ∧
      firstLabel (b :: rest) = first.bytes := by
  obtain ⟨labels, read⟩ := exists_labels_nameBytes (b :: rest)
  have front : firstLabel (b :: rest) = b :: firstLabel rest := by
    simp [firstLabel, isLabelByte_of_start starts]
  refine ⟨⟨b, firstLabel rest, starts, fun _ member =>
    List.all_eq_true.mp List.all_takeWhile _ member⟩, labels, ?_, front⟩
  rw [read, front]
  rfl

end LayerGuard.Source
