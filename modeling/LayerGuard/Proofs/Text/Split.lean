import LayerGuard.Text.Split

/-! # Laws of beginnings and pieces

Beginnings and ends are prefixes and suffixes of character lists, a list with its repetitions left
out has the same members in the order of their first places, and pieces without a separator in them
come back when a text joined of them is split, and the pieces of a text make it up again.
-/

namespace LayerGuard.Text

theorem beginsWith_iff (s start : String) : beginsWith s start = true ↔ start.toList <+: s.toList :=
  List.isPrefixOf_iff_prefix

theorem endsWith_iff (s tail : String) : endsWith s tail = true ↔ tail.toList <:+ s.toList :=
  List.isSuffixOf_iff_suffix

/-- What is written behind a text does not change how it begins. -/
theorem beginsWith_append {s : String} (filled : s ≠ "") (c : Char) (behind : String) :
    beginsWith (s ++ behind) c.toString = beginsWith s c.toString := by
  have nonempty : s.toList ≠ [] := fun none => filled (String.toList_eq_nil_iff.mp none)
  obtain ⟨first, rest, chars⟩ := List.exists_cons_of_ne_nil nonempty
  simp [beginsWith, chars, List.isPrefixOf]

/-- Two beginnings of one text are comparable. -/
theorem beginsWith_or_beginsWith {s first second : String} (one : beginsWith s first = true)
    (other : beginsWith s second = true) :
    beginsWith first second = true ∨ beginsWith second first = true := by
  simp only [beginsWith_iff] at one other ⊢
  exact List.prefix_or_prefix_of_prefix other one

/-- The rest behind a beginning is what has to be written behind it. -/
theorem behind?_eq_some_iff {start s rest : String} :
    behind? start s = some rest ↔ s = start ++ rest := by
  rw [behind?]
  constructor
  · intro found
    split at found
    · next begins =>
      obtain ⟨chars, written⟩ := (beginsWith_iff s start).mp begins
      cases found
      rw [← String.toList_inj, ← written, ← String.length_toList]
      simp
    · cases found
  · rintro rfl
    have begins : beginsWith (start ++ rest) start = true := by
      rw [beginsWith_iff, String.toList_append]
      exact List.prefix_append _ _
    rw [if_pos begins, ← String.length_toList]
    simp

/-! ## Lists without repetitions -/

/-- The members of a list, each once and in the order of their first places. -/
structure FirstPlaces [BEq α] (xs ys : List α) : Prop where
  members : ∀ x, x ∈ ys ↔ x ∈ xs
  ordered : ys.Pairwise fun a b => xs.idxOf a < xs.idxOf b

section FirstPlaces

variable [BEq α] [LawfulBEq α]

/-- Further elements leave the first places as they are. -/
theorem FirstPlaces.ordered_append {xs ys : List α} (places : FirstPlaces xs ys) (more : List α) :
    ys.Pairwise fun a b => (xs ++ more).idxOf a < (xs ++ more).idxOf b := by
  refine places.ordered.imp_of_mem ?_
  intro a b first second before
  rw [places.members] at first second
  rwa [List.idxOf_append, List.idxOf_append, if_pos first, if_pos second]

theorem FirstPlaces.append_known {xs ys : List α} (places : FirstPlaces xs ys) {x : α}
    (known : x ∈ ys) : FirstPlaces (xs ++ [x]) ys := by
  refine ⟨fun y => ?_, places.ordered_append [x]⟩
  rw [List.mem_append, List.mem_singleton, ← places.members]
  exact ⟨.inl, fun member => member.elim id fun same => same ▸ known⟩

/-- A further element that is new has its place behind all others. -/
theorem FirstPlaces.append_new {xs ys : List α} (places : FirstPlaces xs ys) {x : α}
    (new : x ∉ ys) : FirstPlaces (xs ++ [x]) (ys ++ [x]) := by
  refine ⟨fun y => by rw [List.mem_append, List.mem_append, places.members], ?_⟩
  rw [List.pairwise_append]
  refine ⟨places.ordered_append [x], List.pairwise_singleton _ _, ?_⟩
  intro a first b last
  rw [List.mem_singleton.mp last]
  rw [places.members] at first new
  rw [List.idxOf_append, List.idxOf_append, if_pos first, if_neg new]
  exact Nat.lt_of_lt_of_le (List.idxOf_lt_length_iff.mpr first) (Nat.le_add_left ..)

/-- Every element is kept at its first place only. -/
theorem firstPlaces_distinct (xs : List α) : FirstPlaces xs (distinct xs) := by
  have onto (passed seen : List α) (places : FirstPlaces passed seen) : FirstPlaces (passed ++ xs)
      (xs.foldl (fun seen x => if seen.contains x then seen else seen ++ [x]) seen) := by
    induction xs generalizing passed seen with
    | nil => rwa [List.append_nil]
    | cons x xs ih =>
      rw [List.append_cons, List.foldl_cons]
      apply ih
      split
      · next known => exact places.append_known (List.contains_iff_mem.mp known)
      · next new => exact places.append_new fun member => new (List.contains_iff_mem.mpr member)
  exact onto [] [] ⟨fun _ => .rfl, .nil⟩

theorem mem_distinct {x : α} {xs : List α} : x ∈ distinct xs ↔ x ∈ xs :=
  (firstPlaces_distinct xs).members x

end FirstPlaces

/-! ## Splitting and joining -/

theorem splitChars_ne_nil (separator : Char) (cs : List Char) : splitChars separator cs ≠ [] := by
  cases cs with
  | nil => simp [splitChars]
  | cons c cs =>
    rw [splitChars]
    split
    · simp
    · split <;> simp

theorem splitChars_cons_of_ne {separator c : Char} (other : c ≠ separator) (cs : List Char) :
    ∃ piece pieces, splitChars separator cs = piece :: pieces ∧
      splitChars separator (c :: cs) = (c :: piece) :: pieces := by
  obtain ⟨piece, pieces, split⟩ := List.exists_cons_of_ne_nil (splitChars_ne_nil separator cs)
  refine ⟨piece, pieces, split, ?_⟩
  rw [splitChars, if_neg (by simpa using other), split]

/-- A separator ends the pieces before it and starts those behind it. -/
theorem splitChars_append (separator : Char) (front behind : List Char) :
    splitChars separator (front ++ separator :: behind) =
      splitChars separator front ++ splitChars separator behind := by
  induction front with
  | nil => simp [splitChars]
  | cons c front ih =>
    by_cases same : c = separator
    · subst c
      simp [splitChars, ih]
    · obtain ⟨piece, pieces, split, here⟩ := splitChars_cons_of_ne same front
      obtain ⟨piece', pieces', split', here'⟩ :=
        splitChars_cons_of_ne same (front ++ separator :: behind)
      rw [ih, split, List.cons_append] at split'
      injection split' with samePiece samePieces
      rw [List.cons_append, here', here, ← samePiece, ← samePieces, List.cons_append]

theorem splitChars_of_not_mem {separator : Char} {cs : List Char} (free : separator ∉ cs) :
    splitChars separator cs = [cs] := by
  induction cs with
  | nil => rfl
  | cons c cs ih =>
    have other : c ≠ separator := fun same => free (same ▸ List.mem_cons_self ..)
    obtain ⟨piece, pieces, split, here⟩ := splitChars_cons_of_ne other cs
    rw [ih fun member => free (List.mem_cons_of_mem _ member)] at split
    injection split with samePiece samePieces
    rw [here, ← samePiece, ← samePieces]

theorem mem_of_mem_splitChars {separator : Char} {cs piece : List Char}
    (listed : piece ∈ splitChars separator cs) {c : Char} (member : c ∈ piece) : c ∈ cs := by
  induction cs generalizing piece with
  | nil =>
    rw [splitChars, List.mem_singleton] at listed
    rwa [listed] at member
  | cons d cs ih =>
    by_cases same : d = separator
    · rw [splitChars, if_pos (beq_iff_eq.mpr same)] at listed
      rcases List.mem_cons.mp listed with rfl | later
      · cases member
      · exact List.mem_cons_of_mem _ (ih later member)
    · obtain ⟨first, others, split, here⟩ := splitChars_cons_of_ne same cs
      rw [here] at listed
      rw [split] at ih
      rcases List.mem_cons.mp listed with rfl | later
      · rcases List.mem_cons.mp member with rfl | inside
        · exact List.mem_cons_self ..
        · exact List.mem_cons_of_mem _ (ih (List.mem_cons_self ..) inside)
      · exact List.mem_cons_of_mem _ (ih (List.mem_cons_of_mem _ later) member)

/-- A text is split at a separator in it as its two sides are. -/
theorem split_append (separator : Char) (front behind : String) :
    split separator (front ++ separator.toString ++ behind) =
      split separator front ++ split separator behind := by
  have chars : (front ++ separator.toString ++ behind).toList =
      front.toList ++ separator :: behind.toList := by
    simp
  rw [split, chars, splitChars_append, List.map_append]
  rfl

theorem head?_split_of_beginsWith {separator : Char} {s : String}
    (begins : beginsWith s separator.toString = true) : (split separator s).head? = some "" := by
  obtain ⟨rest, written⟩ := (beginsWith_iff _ _).mp begins
  have chars : s.toList = separator :: rest := by
    rw [← written]
    simp
  simp [split, chars, splitChars]

theorem split_of_not_mem {separator : Char} {s : String} (free : separator ∉ s.toList) :
    split separator s = [s] := by
  rw [split, splitChars_of_not_mem free]
  simp

/-- A piece is made of characters of the text. -/
theorem mem_of_mem_split {separator : Char} {s piece : String}
    (listed : piece ∈ split separator s) {c : Char} (member : c ∈ piece.toList) : c ∈ s.toList := by
  obtain ⟨chars, part, rfl⟩ := List.mem_map.mp listed
  rw [String.toList_ofList] at member
  exact mem_of_mem_splitChars part member

/-- Pieces without a separator in them come back when a text joined of them is split. -/
theorem split_join {separator : Char} {pieces : List String} (nonempty : pieces ≠ [])
    (free : ∀ piece ∈ pieces, separator ∉ piece.toList) :
    split separator (join separator.toString pieces) = pieces := by
  induction pieces with
  | nil => contradiction
  | cons piece pieces ih =>
    have here := free piece (List.mem_cons_self ..)
    have rest := fun other member => free other (List.mem_cons_of_mem _ member)
    cases pieces with
    | nil =>
      rw [join, String.intercalate_singleton]
      exact split_of_not_mem here
    | cons next pieces =>
      have inner := ih (List.cons_ne_nil _ _) rest
      rw [join] at inner ⊢
      rw [String.intercalate_cons_cons, split_append, split_of_not_mem here, inner]
      rfl

/-- There is no separator in a piece. -/
theorem not_mem_of_mem_splitChars {separator : Char} {cs piece : List Char}
    (listed : piece ∈ splitChars separator cs) : separator ∉ piece := by
  induction cs generalizing piece with
  | nil =>
    rw [splitChars, List.mem_singleton] at listed
    rw [listed]
    exact List.not_mem_nil
  | cons c cs ih =>
    by_cases same : c = separator
    · rw [splitChars, if_pos (beq_iff_eq.mpr same)] at listed
      rcases List.mem_cons.mp listed with rfl | later
      · exact List.not_mem_nil
      · exact ih later
    · obtain ⟨first, others, split, here⟩ := splitChars_cons_of_ne same cs
      rw [here] at listed
      rw [split] at ih
      rcases List.mem_cons.mp listed with rfl | later
      · rw [List.mem_cons, not_or]
        exact ⟨Ne.symm same, ih (List.mem_cons_self ..)⟩
      · exact ih (List.mem_cons_of_mem _ later)

theorem not_mem_of_mem_split {separator : Char} {s piece : String}
    (listed : piece ∈ split separator s) : separator ∉ piece.toList := by
  obtain ⟨chars, part, rfl⟩ := List.mem_map.mp listed
  rw [String.toList_ofList]
  exact not_mem_of_mem_splitChars part

theorem split_ne_nil (separator : Char) (s : String) : split separator s ≠ [] := by
  rw [split, ne_eq, List.map_eq_nil_iff]
  exact splitChars_ne_nil separator s.toList

/-- The pieces of a text make it up again. -/
theorem join_split (separator : Char) (s : String) :
    join separator.toString (split separator s) = s := by
  have chars (cs : List Char) :
      List.intercalate [separator] (splitChars separator cs) = cs := by
    induction cs with
    | nil => rfl
    | cons c cs ih =>
      by_cases same : c = separator
      · obtain ⟨piece, pieces, split⟩ :=
          List.exists_cons_of_ne_nil (splitChars_ne_nil separator cs)
        rw [splitChars, if_pos (beq_iff_eq.mpr same), split, List.intercalate_cons_cons, ← split,
          ih, same]
        rfl
      · obtain ⟨piece, pieces, split, here⟩ := splitChars_cons_of_ne same cs
        rw [split] at ih
        rw [here, ← ih]
        cases pieces with
        | nil => rfl
        | cons next pieces => rw [List.intercalate_cons_cons, List.intercalate_cons_cons]; rfl
  have pieces : (split separator s).map String.toList = splitChars separator s.toList := by
    simp [split]
  have between : separator.toString.toList = [separator] := by simp
  rw [← String.toList_inj, join, String.toList_intercalate, pieces, between, chars]

end LayerGuard.Text
