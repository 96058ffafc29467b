import LayerGuard.Json.Printer

/-! # The characters of written values

Whatever texts a value holds, it is written without control characters: in quoted texts they are
written in letters and digits, and numbers and punctuation have none. Only the layout can add some,
and the one with an item a line adds line feeds.
-/

namespace LayerGuard.Json

/-- Whether a character is no control character. -/
def isShown (c : Char) : Bool := 32 ≤ c.toNat

/-! ## Texts and numbers -/

theorem isShown_of_mem_toDigits {n : Nat} {d : Char} (member : d ∈ Nat.toDigits 10 n) :
    isShown d = true := by
  have zero : '0'.toNat = 48 := rfl
  have digit := Nat.isDigit_of_mem_toDigits (by decide) (by decide) member
  rw [Char.isDigit_iff_toNat] at digit
  rw [isShown, decide_eq_true_eq]
  omega

theorem isShown_of_mem_escapeChar {c d : Char} (member : d ∈ escapeChar c) :
    isShown d = true := by
  have fixed {cs : List Char} (shown : cs.all isShown = true) (listed : d ∈ cs) :
      isShown d = true := List.all_eq_true.mp shown d listed
  have hex : ∀ n < 16, isShown (hexDigit n) = true := by decide
  rw [escapeChar] at member
  split at member
  · exact fixed rfl member
  split at member
  · exact fixed rfl member
  split at member
  · exact fixed rfl member
  split at member
  · exact fixed rfl member
  split at member
  · exact fixed rfl member
  split at member
  · exact fixed rfl member
  split at member
  · exact fixed rfl member
  split at member
  · next low =>
    have first := hex (c.toNat / 16) (by omega)
    have second := hex (c.toNat % 16) (by omega)
    refine fixed ?_ member
    simp only [List.all_cons, first, second]
    rfl
  · next high =>
    rw [List.mem_singleton.mp member, isShown, decide_eq_true_eq]
    omega

/-- A quoted text has no control character, whatever it quotes. -/
theorem isShown_of_mem_quote {s : String} {d : Char} (member : d ∈ quote s) :
    isShown d = true := by
  rw [quote, List.mem_append, List.mem_cons, List.mem_flatMap, List.mem_singleton] at member
  rcases member with (rfl | ⟨c, _, escaped⟩) | rfl
  · rfl
  · exact isShown_of_mem_escapeChar escaped
  · rfl

theorem isShown_of_mem_writeNumber {n : Decimal} {d : Char} (member : d ∈ writeNumber n) :
    isShown d = true := by
  have sign {negative : Prop} [Decidable negative] (member : d ∈ if negative then ['-'] else []) :
      isShown d = true := by
    split at member
    · rw [List.mem_singleton.mp member]
      rfl
    · cases member
  simp only [writeNumber, List.mem_append] at member
  rcases member with ((negative | whole) | fraction) | exponent
  · exact sign negative
  · exact isShown_of_mem_toDigits whole
  · split at fraction
    · cases fraction
    · rcases List.mem_cons.mp fraction with rfl | later
      · rfl
      · obtain ⟨digit, _, rfl⟩ := List.mem_map.mp later
        have code := Nat.toNat_digitChar_of_lt_ten digit.isLt
        rw [isShown, decide_eq_true_eq]
        omega
  · cases given : n.exponent with
    | none =>
      rw [given] at exponent
      cases exponent
    | some e =>
      rw [given] at exponent
      rcases List.mem_append.mp exponent with front | digits
      · rcases List.mem_cons.mp front with rfl | negative
        · rfl
        · exact sign negative
      · exact isShown_of_mem_toDigits digits

/-! ## Values -/

/-- The characters that values are written with: shown ones, and those of the layout. -/
inductive Layout.Uses (layout : Layout) (c : Char) : Prop
  | shown (isShown : isShown c = true)
  | atBreak (depth : Nat) (member : c ∈ layout.breakAt depth)
  | atColon (member : c ∈ layout.afterColon)

variable {layout : Layout}

theorem Layout.uses_of_mem_quote {s : String} : ∀ c ∈ quote s, layout.Uses c :=
  fun _ member => .shown (isShown_of_mem_quote member)

mutual

theorem uses_of_mem_write : (value : Json) → (depth : Nat) →
    ∀ c ∈ value.write layout depth, layout.Uses c
  | .null, _ => fun c member => .shown (List.all_eq_true.mp rfl c member)
  | .bool true, _ => fun c member => .shown (List.all_eq_true.mp rfl c member)
  | .bool false, _ => fun c member => .shown (List.all_eq_true.mp rfl c member)
  | .number n, _ => by
    rw [write]
    exact fun c member => .shown (isShown_of_mem_writeNumber member)
  | .string s, _ => by
    rw [write]
    exact Layout.uses_of_mem_quote
  | .array [], _ => fun c member => .shown (List.all_eq_true.mp rfl c member)
  | .array (item :: items), depth => by
    rw [write]
    simp only [List.forall_mem_append, List.forall_mem_cons]
    exact ⟨⟨⟨⟨⟨.shown rfl, fun _ => .atBreak _⟩, uses_of_mem_write item _⟩,
      uses_of_mem_writeItems items _⟩, fun _ => .atBreak _⟩, .shown rfl, List.forall_mem_nil _⟩
  | .object [], _ => fun c member => .shown (List.all_eq_true.mp rfl c member)
  | .object ((key, value) :: fields), depth => by
    rw [write]
    simp only [List.forall_mem_append, List.forall_mem_cons]
    exact ⟨⟨⟨⟨⟨⟨⟨.shown rfl, fun _ => .atBreak _⟩, Layout.uses_of_mem_quote⟩,
      .shown rfl, fun _ => .atColon⟩, uses_of_mem_write value _⟩,
      uses_of_mem_writeFields fields _⟩, fun _ => .atBreak _⟩, .shown rfl, List.forall_mem_nil _⟩

theorem uses_of_mem_writeItems : (items : List Json) → (depth : Nat) →
    ∀ c ∈ writeItems layout depth items, layout.Uses c
  | [], _ => by
    rw [writeItems]
    exact List.forall_mem_nil _
  | item :: items, depth => by
    rw [writeItems]
    simp only [List.forall_mem_append, List.forall_mem_cons]
    exact ⟨⟨⟨.shown rfl, fun _ => .atBreak _⟩, uses_of_mem_write item _⟩,
      uses_of_mem_writeItems items _⟩

theorem uses_of_mem_writeFields : (fields : List (String × Json)) → (depth : Nat) →
    ∀ c ∈ writeFields layout depth fields, layout.Uses c
  | [], _ => by
    rw [writeFields]
    exact List.forall_mem_nil _
  | (key, value) :: fields, depth => by
    rw [writeFields]
    simp only [List.forall_mem_append, List.forall_mem_cons]
    exact ⟨⟨⟨⟨⟨.shown rfl, fun _ => .atBreak _⟩, Layout.uses_of_mem_quote⟩,
      .shown rfl, fun _ => .atColon⟩, uses_of_mem_write value _⟩,
      uses_of_mem_writeFields fields _⟩

end

/-- A value with one item a line has no control character but line feeds. -/
theorem isShown_of_mem_indented {value : Json} {c : Char} (member : c ∈ value.indented.toList) :
    isShown c = true ∨ c = '\n' := by
  rw [indented, String.toList_ofList] at member
  cases uses_of_mem_write value 0 c member with
  | shown shown => exact .inl shown
  | atBreak depth listed =>
    rcases List.mem_cons.mp listed with rfl | blank
    · exact .inr rfl
    · rw [List.eq_of_mem_replicate blank]
      exact .inl rfl
  | atColon listed =>
    rw [List.mem_singleton.mp listed]
    exact .inl rfl

end LayerGuard.Json
