import LayerGuard.Text.Utf8

/-! # Laws of reading and writing bytes

The tolerant reading keeps ASCII bytes as they are and turns bytes outside ASCII into characters
outside ASCII, well-formed or not. So when what was read is written again, a byte of either kind
has become bytes of its kind. What was written is read as it was. The bytes of a character tell
where it begins: no byte behind the first one can begin a character, so a text can be cut in front
of every byte that continues none.
-/

namespace LayerGuard.Text

/-! ## Bytes outside ASCII -/

theorem isContinuation_iff (b : UInt8) :
    isContinuation b = true ↔ 128 ≤ b.toNat ∧ b.toNat < 192 := by
  simp only [isContinuation, Bool.and_eq_true, decide_eq_true_eq, UInt8.le_iff_toNat_le,
    UInt8.reduceToNat]
  omega

theorem secondFits_iff (lead b : UInt8) :
    secondFits lead b = true ↔ 128 ≤ b.toNat ∧ b.toNat < 192 ∧
      (lead.toNat = 0xE0 → 0xA0 ≤ b.toNat) ∧ (lead.toNat = 0xED → b.toNat < 0xA0) ∧
      (lead.toNat = 0xF0 → 0x90 ≤ b.toNat) ∧ (lead.toNat = 0xF4 → b.toNat < 0x90) := by
  simp only [secondFits, beq_iff_eq, isContinuation, ← UInt8.toNat_inj, UInt8.reduceToNat]
  split
  · simp [UInt8.le_iff_toNat_le]
    omega
  split
  · simp [UInt8.le_iff_toNat_le]
    omega
  split
  · simp [UInt8.le_iff_toNat_le]
    omega
  split
  · simp [UInt8.le_iff_toNat_le]
    omega
  · simp [UInt8.le_iff_toNat_le]
    omega

theorem toNat_ofNat {n : Nat} (valid : n < 0xD800 ∨ 0xDFFF < n ∧ n < 0x110000) :
    (Char.ofNat n).toNat = n := by
  rw [Char.ofNat, dif_pos valid]
  rfl

/-- What begins outside ASCII is no ASCII character. -/
theorem high_of_piece {lead : UInt8} (high : 128 ≤ lead.toNat) (rest : List UInt8) {c : Char}
    (read : (piece lead rest).char? = some c) : 128 ≤ c.toNat := by
  revert read
  fun_cases piece lead rest
  all_goals simp only [UInt8.lt_iff_toNat_lt, UInt8.le_iff_toNat_le, Bool.and_eq_true,
    decide_eq_true_eq, Bool.not_eq_true', Bool.not_eq_false, reduceCtorEq, false_imp_iff,
    Option.some.injEq, payload, secondFits_iff, isContinuation_iff, UInt8.reduceToNat] at *
  all_goals
    rintro rfl
    rw [toNat_ofNat]
    all_goals omega

theorem utf8EncodeChar_ascii {c : Char} (low : c.toNat < 128) :
    String.utf8EncodeChar c = [UInt8.ofNat c.toNat] := by
  have small : c.val.toNat ≤ 127 := Nat.le_of_lt_succ low
  rw [String.utf8EncodeChar, if_pos small]
  rfl

theorem utf8EncodeChar_high {c : Char} (high : 128 ≤ c.toNat) :
    String.utf8EncodeChar c ≠ [] ∧ ∀ b ∈ String.utf8EncodeChar c, 128 ≤ b.toNat := by
  have large : ¬ c.val.toNat ≤ 127 := Nat.not_le_of_lt high
  rw [String.utf8EncodeChar, if_neg large]
  split
  · simp
    omega
  split
  · simp
    omega
  · simp
    omega

theorem piece_ascii {lead : UInt8} (low : lead.toNat < 128) (rest : List UInt8) :
    piece lead rest = ⟨some (Char.ofNat lead.toNat), 0⟩ := by
  unfold piece
  exact if_pos (UInt8.lt_iff_toNat_lt.mpr low)

theorem bytesOf_append (first second : String) :
    bytesOf (first ++ second) = bytesOf first ++ bytesOf second := by
  simp [bytesOf, utf8Bytes]

/-! ## Reading and writing again -/

theorem piecesOnto_eq (found : List (Option Char)) (bytes : List UInt8) :
    piecesOnto found bytes = found.reverse ++ pieces bytes := by
  have onto (found : List (Option Char)) (bytes : List UInt8) (more : List (Option Char)) :
      piecesOnto (found ++ more) bytes = more.reverse ++ piecesOnto found bytes := by
    fun_induction piecesOnto found bytes with
    | case1 => simp [piecesOnto]
    | case2 found lead rest front ih =>
      rw [piecesOnto]
      exact ih
  rw [pieces, ← onto, List.nil_append]

theorem pieces_cons (lead : UInt8) (rest : List UInt8) :
    pieces (lead :: rest) =
      (piece lead rest).char? :: pieces (rest.drop (piece lead rest).more) := by
  rw [pieces, piecesOnto, piecesOnto_eq]
  rfl

theorem bytesOf_decodeLossy_nil : bytesOf (decodeLossy []) = [] := by
  simp [bytesOf, utf8Bytes, decodeLossy, pieces, piecesOnto]

theorem bytesOf_decodeLossy_cons (lead : UInt8) (rest : List UInt8) :
    bytesOf (decodeLossy (lead :: rest)) =
      String.utf8EncodeChar ((piece lead rest).char?.getD '\uFFFD') ++
        bytesOf (decodeLossy (rest.drop (piece lead rest).more)) := by
  simp [bytesOf, utf8Bytes, decodeLossy, pieces_cons]

/-- An ASCII byte that is read and written again is the same byte. -/
theorem bytesOf_decodeLossy_ascii {lead : UInt8} (low : lead.toNat < 128) (rest : List UInt8) :
    bytesOf (decodeLossy (lead :: rest)) = lead :: bytesOf (decodeLossy rest) := by
  have value : (Char.ofNat lead.toNat).toNat = lead.toNat := toNat_ofNat (by omega)
  rw [bytesOf_decodeLossy_cons, piece_ascii low, Option.getD_some, utf8EncodeChar_ascii (by omega),
    value]
  simp

/-- A byte outside ASCII is read and written again as bytes outside ASCII, perhaps together with
bytes behind it. -/
theorem bytesOf_decodeLossy_high {lead : UInt8} (high : 128 ≤ lead.toNat) (rest : List UInt8) :
    ∃ run more, run ≠ [] ∧ (∀ b ∈ run, 128 ≤ b.toNat) ∧
      bytesOf (decodeLossy (lead :: rest)) = run ++ bytesOf (decodeLossy (rest.drop more)) := by
  have char : 128 ≤ ((piece lead rest).char?.getD '\uFFFD').toNat := by
    cases read : (piece lead rest).char? with
    | none => decide
    | some c => exact high_of_piece high rest read
  obtain ⟨filled, outside⟩ := utf8EncodeChar_high char
  exact ⟨_, _, filled, outside, bytesOf_decodeLossy_cons lead rest⟩

/-! ## How characters are written -/

theorem piece_two {lead b : UInt8} (long : 0xC2 ≤ lead.toNat ∧ lead.toNat ≤ 0xDF)
    (second : isContinuation b = true) (rest : List UInt8) :
    piece lead (b :: rest) = ⟨some (Char.ofNat (lead.toNat % 32 * 64 + payload b)), 1⟩ := by
  have high : ¬ lead < 0x80 := by simp only [UInt8.lt_iff_toNat_lt, UInt8.reduceToNat]; omega
  have range : (0xC2 ≤ lead && lead ≤ 0xDF) = true := by
    simpa [UInt8.le_iff_toNat_le] using long
  simp only [piece, high, range, second, ↓reduceIte]

theorem piece_three {lead b d : UInt8} (long : 0xE0 ≤ lead.toNat ∧ lead.toNat ≤ 0xEF)
    (second : secondFits lead b = true) (third : isContinuation d = true) (rest : List UInt8) :
    piece lead (b :: d :: rest) =
      ⟨some (Char.ofNat (lead.toNat % 16 * 4096 + payload b * 64 + payload d)), 2⟩ := by
  have high : ¬ lead < 0x80 := by simp only [UInt8.lt_iff_toNat_lt, UInt8.reduceToNat]; omega
  have longer : ¬ (0xC2 ≤ lead && lead ≤ 0xDF) = true := by
    simp only [Bool.and_eq_true, decide_eq_true_eq, UInt8.le_iff_toNat_le, UInt8.reduceToNat]
    omega
  have range : (0xE0 ≤ lead && lead ≤ 0xEF) = true := by
    simpa [UInt8.le_iff_toNat_le] using long
  simp only [piece, high, longer, range, second, third, ↓reduceIte, Bool.not_true,
    Bool.false_eq_true]

theorem piece_four {lead b d e : UInt8} (long : 0xF0 ≤ lead.toNat ∧ lead.toNat ≤ 0xF4)
    (second : secondFits lead b = true) (third : isContinuation d = true)
    (fourth : isContinuation e = true) (rest : List UInt8) :
    piece lead (b :: d :: e :: rest) =
      ⟨some (Char.ofNat
        (lead.toNat % 8 * 262144 + payload b * 4096 + payload d * 64 + payload e)), 3⟩ := by
  have high : ¬ lead < 0x80 := by simp only [UInt8.lt_iff_toNat_lt, UInt8.reduceToNat]; omega
  have longer : ¬ (0xC2 ≤ lead && lead ≤ 0xDF) = true ∧ ¬ (0xE0 ≤ lead && lead ≤ 0xEF) = true := by
    simp only [Bool.and_eq_true, decide_eq_true_eq, UInt8.le_iff_toNat_le, UInt8.reduceToNat]
    omega
  have range : (0xF0 ≤ lead && lead ≤ 0xF4) = true := by
    simpa [UInt8.le_iff_toNat_le] using long
  simp only [piece, high, longer, range, second, third, fourth, ↓reduceIte, Bool.not_true,
    Bool.false_eq_true]

/-- How a character is written: a byte that continues none, then bytes that do, and read as one
piece. -/
structure WritesAs (c : Char) (lead : UInt8) (more : List UInt8) : Prop where
  written : String.utf8EncodeChar c = lead :: more
  leads : isContinuation lead = false
  continues : ∀ b ∈ more, isContinuation b = true
  read : ∀ rest, piece lead (more ++ rest) = ⟨some c, more.length⟩

theorem toNat_byte {n : Nat} (small : n < 256) : (UInt8.ofNat n).toNat = n :=
  UInt8.toNat_ofNat_of_lt' small

theorem isContinuation_ofNat_eq_false {n : Nat} (small : n < 256) (outside : n < 128 ∨ 192 ≤ n) :
    isContinuation (UInt8.ofNat n) = false := by
  rw [← Bool.not_eq_true, isContinuation_iff, toNat_byte small]
  omega

theorem isContinuation_ofNat (n : Nat) : isContinuation (UInt8.ofNat (n % 64 + 128)) = true := by
  rw [isContinuation_iff, toNat_byte (by omega)]
  omega

theorem payload_ofNat (n : Nat) : payload (UInt8.ofNat (n % 64 + 128)) = n % 64 := by
  rw [payload, toNat_byte (by omega)]
  omega

section Lengths

variable {c : Char}

theorem writesAs_one (short : c.toNat < 0x80) : WritesAs c (UInt8.ofNat c.toNat) [] where
  written := utf8EncodeChar_ascii short
  leads := isContinuation_ofNat_eq_false (by omega) (.inl short)
  continues := nofun
  read rest := by
    have value : (UInt8.ofNat c.toNat).toNat = c.toNat := toNat_byte (by omega)
    have low : UInt8.ofNat c.toNat < 0x80 := by
      rw [UInt8.lt_iff_toNat_lt, value]
      exact short
    simp only [piece, low, ↓reduceIte, value, Char.ofNat_toNat, List.length_nil]

theorem writesAs_two (long : 0x80 ≤ c.toNat) (short : c.toNat < 0x800) :
    WritesAs c (UInt8.ofNat (c.toNat / 64 % 32 + 192)) [UInt8.ofNat (c.toNat % 64 + 128)] where
  written := by
    have sizes : ¬ c.val.toNat ≤ 127 ∧ c.val.toNat ≤ 2047 :=
      ⟨Nat.not_le_of_lt long, Nat.le_of_lt_succ short⟩
    rw [String.utf8EncodeChar, if_neg sizes.1, if_pos sizes.2]
    rfl
  leads := isContinuation_ofNat_eq_false (by omega) (by omega)
  continues := List.forall_mem_singleton.mpr (isContinuation_ofNat _)
  read rest := by
    have lead : (UInt8.ofNat (c.toNat / 64 % 32 + 192)).toNat = c.toNat / 64 + 192 := by
      rw [toNat_byte (by omega)]
      omega
    have value : (c.toNat / 64 + 192) % 32 * 64 + c.toNat % 64 = c.toNat := by omega
    refine (piece_two (by omega) (isContinuation_ofNat _) rest).trans ?_
    rw [lead, payload_ofNat, value, Char.ofNat_toNat]
    rfl

theorem writesAs_three (long : 0x800 ≤ c.toNat) (short : c.toNat < 0x10000) :
    WritesAs c (UInt8.ofNat (c.toNat / 4096 % 16 + 224))
      [UInt8.ofNat (c.toNat / 64 % 64 + 128), UInt8.ofNat (c.toNat % 64 + 128)] where
  written := by
    have sizes : ¬ c.val.toNat ≤ 127 ∧ ¬ c.val.toNat ≤ 2047 ∧ c.val.toNat ≤ 65535 := by
      change ¬ c.toNat ≤ 127 ∧ ¬ c.toNat ≤ 2047 ∧ c.toNat ≤ 65535
      omega
    rw [String.utf8EncodeChar, if_neg sizes.1, if_neg sizes.2.1, if_pos sizes.2.2]
    rfl
  leads := isContinuation_ofNat_eq_false (by omega) (by omega)
  continues := List.forall_mem_cons.mpr
    ⟨isContinuation_ofNat _, List.forall_mem_singleton.mpr (isContinuation_ofNat _)⟩
  read rest := by
    have valid : c.toNat < 0xD800 ∨ 0xDFFF < c.toNat ∧ c.toNat < 0x110000 := c.valid
    have lead : (UInt8.ofNat (c.toNat / 4096 % 16 + 224)).toNat = c.toNat / 4096 + 224 := by
      rw [toNat_byte (by omega)]
      omega
    -- Neither a longer form than needed nor half of a pair.
    have second : secondFits (UInt8.ofNat (c.toNat / 4096 % 16 + 224))
        (UInt8.ofNat (c.toNat / 64 % 64 + 128)) = true := by
      rw [secondFits_iff, lead, toNat_byte (by omega)]
      omega
    have value : (c.toNat / 4096 + 224) % 16 * 4096 + c.toNat / 64 % 64 * 64 + c.toNat % 64 =
        c.toNat := by omega
    refine (piece_three (by omega) second (isContinuation_ofNat _) rest).trans ?_
    rw [lead, payload_ofNat, payload_ofNat, value, Char.ofNat_toNat]
    rfl

theorem writesAs_four (long : 0x10000 ≤ c.toNat) :
    WritesAs c (UInt8.ofNat (c.toNat / 262144 % 8 + 240))
      [UInt8.ofNat (c.toNat / 4096 % 64 + 128), UInt8.ofNat (c.toNat / 64 % 64 + 128),
        UInt8.ofNat (c.toNat % 64 + 128)] where
  written := by
    have sizes : ¬ c.val.toNat ≤ 127 ∧ ¬ c.val.toNat ≤ 2047 ∧ ¬ c.val.toNat ≤ 65535 := by
      change ¬ c.toNat ≤ 127 ∧ ¬ c.toNat ≤ 2047 ∧ ¬ c.toNat ≤ 65535
      omega
    rw [String.utf8EncodeChar, if_neg sizes.1, if_neg sizes.2.1, if_neg sizes.2.2]
    rfl
  leads := isContinuation_ofNat_eq_false (by omega) (by omega)
  continues := List.forall_mem_cons.mpr ⟨isContinuation_ofNat _, List.forall_mem_cons.mpr
    ⟨isContinuation_ofNat _, List.forall_mem_singleton.mpr (isContinuation_ofNat _)⟩⟩
  read rest := by
    have valid : c.toNat < 0xD800 ∨ 0xDFFF < c.toNat ∧ c.toNat < 0x110000 := c.valid
    have lead : (UInt8.ofNat (c.toNat / 262144 % 8 + 240)).toNat = c.toNat / 262144 + 240 := by
      rw [toNat_byte (by omega)]
      omega
    have second : secondFits (UInt8.ofNat (c.toNat / 262144 % 8 + 240))
        (UInt8.ofNat (c.toNat / 4096 % 64 + 128)) = true := by
      rw [secondFits_iff, lead, toNat_byte (by omega)]
      omega
    have value : (c.toNat / 262144 + 240) % 8 * 262144 + c.toNat / 4096 % 64 * 4096 +
        c.toNat / 64 % 64 * 64 + c.toNat % 64 = c.toNat := by omega
    have continues := isContinuation_ofNat
    refine (piece_four (by omega) second (continues _) (continues _) rest).trans ?_
    rw [lead, payload_ofNat, payload_ofNat, payload_ofNat, value, Char.ofNat_toNat]
    rfl

end Lengths

theorem exists_writesAs (c : Char) : ∃ lead more, WritesAs c lead more := by
  rcases Nat.lt_or_ge c.toNat 0x80 with short | long
  · exact ⟨_, _, writesAs_one short⟩
  rcases Nat.lt_or_ge c.toNat 0x800 with short | long
  · exact ⟨_, _, writesAs_two ‹_› short⟩
  rcases Nat.lt_or_ge c.toNat 0x10000 with short | long
  · exact ⟨_, _, writesAs_three ‹_› short⟩
  · exact ⟨_, _, writesAs_four long⟩

theorem WritesAs.utf8Bytes_cons {c : Char} {lead : UInt8} {more : List UInt8}
    (writes : WritesAs c lead more) (cs : List Char) :
    utf8Bytes (c :: cs) = lead :: (more ++ utf8Bytes cs) := by
  rw [utf8Bytes, List.flatMap_cons, writes.written]
  rfl

/-! ## Written texts are read as they were -/

theorem pieces_utf8Bytes (cs : List Char) : pieces (utf8Bytes cs) = cs.map some := by
  induction cs with
  | nil =>
    rw [utf8Bytes, List.flatMap_nil, pieces, piecesOnto]
    rfl
  | cons c cs ih =>
    obtain ⟨lead, more, writes⟩ := exists_writesAs c
    rw [writes.utf8Bytes_cons, pieces_cons, writes.read, List.drop_left, ih]
    rfl

/-- What was written is read strictly, and without any change. -/
theorem decode?_bytesOf (s : String) : decode? (bytesOf s) = some s := by
  have all : (s.toList.map some).mapM id = some s.toList := by
    induction s.toList with
    | nil => rfl
    | cons c cs ih => simp [ih]
  rw [decode?, bytesOf, pieces_utf8Bytes, all, Option.map_some, String.ofList_toList]

theorem decodeLossy_bytesOf (s : String) : decodeLossy (bytesOf s) = s := by
  rw [decodeLossy, bytesOf, pieces_utf8Bytes, List.map_map]
  exact (congrArg String.ofList (List.map_id s.toList)).trans String.ofList_toList

theorem bytesOf_injective {s t : String} (same : bytesOf s = bytesOf t) : s = t := by
  rw [← decodeLossy_bytesOf s, same, decodeLossy_bytesOf]

/-! ## Between characters -/

/-- No character goes on where the next byte does not continue one, so the characters of a text are
parted there. -/
theorem exists_split_of_head {cs : List Char} {front rest : List UInt8}
    (whole : utf8Bytes cs = front ++ rest) (fresh : rest.head?.any isContinuation = false) :
    ∃ before behind, cs = before ++ behind ∧ utf8Bytes before = front ∧
      utf8Bytes behind = rest := by
  induction cs generalizing front with
  | nil =>
    obtain ⟨rfl, rfl⟩ := List.append_eq_nil_iff.mp whole.symm
    exact ⟨[], [], rfl, rfl, rfl⟩
  | cons c cs ih =>
    obtain ⟨lead, more, writes⟩ := exists_writesAs c
    cases front with
    | nil => exact ⟨[], c :: cs, rfl, rfl, whole⟩
    | cons b front =>
      rw [writes.utf8Bytes_cons, List.cons_append] at whole
      injection whole with same whole
      subst same
      rcases List.append_eq_append_iff.mp whole with ⟨left, rfl, tail⟩ | ⟨left, rfl, tail⟩
      · obtain ⟨before, behind, rfl, rfl, rest⟩ := ih tail
        exact ⟨c :: before, behind, rfl, writes.utf8Bytes_cons before, rest⟩
      · cases left with
        | nil =>
          refine ⟨[c], cs, rfl, ?_, tail.symm⟩
          rw [writes.utf8Bytes_cons, List.append_assoc]
          simp [utf8Bytes]
        | cons d left =>
          -- The place would lie inside the character, where a byte continues it.
          have inside := writes.continues d (by simp)
          rw [tail, List.cons_append, List.head?_cons, Option.any_some, inside] at fresh
          contradiction

theorem head_utf8Bytes (cs : List Char) : (utf8Bytes cs).head?.any isContinuation = false := by
  cases cs with
  | nil => rfl
  | cons c cs =>
    obtain ⟨lead, more, writes⟩ := exists_writesAs c
    rw [writes.utf8Bytes_cons]
    exact writes.leads

/-- Behind an ASCII byte no character goes on. -/
theorem head_of_ascii {cs : List Char} {front rest : List UInt8} {b : UInt8}
    (whole : utf8Bytes cs = front ++ b :: rest) (low : b.toNat < 128) :
    rest.head?.any isContinuation = false := by
  have fresh : (b :: rest).head?.any isContinuation = false := by
    rw [List.head?_cons, Option.any_some, ← Bool.not_eq_true, isContinuation_iff]
    omega
  obtain ⟨before, behind, rfl, rfl, written⟩ := exists_split_of_head whole fresh
  cases behind with
  | nil => cases written
  | cons c behind =>
    obtain ⟨lead, more, writes⟩ := exists_writesAs c
    rw [writes.utf8Bytes_cons] at written
    injection written with same written
    have alone := (piece_ascii low (more ++ [])).symm.trans (same ▸ writes.read [])
    obtain rfl := List.eq_nil_of_length_eq_zero (congrArg Piece.more alone).symm
    rw [← written]
    exact head_utf8Bytes behind

end LayerGuard.Text
