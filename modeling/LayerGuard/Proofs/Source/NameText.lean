import LayerGuard.Proofs.Source.Occurrence
import LayerGuard.Proofs.Text.Utf8

/-! # Names as texts

A recorded name is the tolerant reading of the bytes of a name. That text has the form of a name
too: every byte outside ASCII may stand in a label, so it does not matter to the form which
characters such bytes are read as. Hence a recorded name has no blank, colon or line feed in it.
-/

namespace LayerGuard.Source

/-- A text whose bytes are labels with a separator between each two. -/
def IsName (name : String) : Prop :=
  ∃ first more, Text.bytesOf name = joinLabels first more

/-! ## Characters of a name -/

theorem isLabelByte_or_separator_of_mem {first : Label} {more : List Label} {b : UInt8}
    (member : b ∈ joinLabels first more) : isLabelByte b = true ∨ b = separator := by
  rw [joinLabels, List.mem_append, List.mem_flatMap] at member
  rcases member with inside | ⟨l, _, inside⟩
  · exact .inl (first.isLabelByte_of_mem inside)
  · rcases List.mem_cons.mp inside with rfl | inside
    · exact .inr rfl
    · exact .inl (l.isLabelByte_of_mem inside)

/-- No ASCII character stands in a name that may not stand in a label and is no separator. -/
theorem IsName.not_mem {name : String} (isName : IsName name) {c : Char} (low : c.toNat < 128)
    (outside : isLabelByte (UInt8.ofNat c.toNat) = false)
    (other : UInt8.ofNat c.toNat ≠ separator) : c ∉ name.toList := by
  intro member
  obtain ⟨first, more, bytes⟩ := isName
  have written : UInt8.ofNat c.toNat ∈ Text.bytesOf name := by
    refine List.mem_flatMap.mpr ⟨c, member, ?_⟩
    rw [Text.utf8EncodeChar_ascii low]
    exact List.mem_singleton_self _
  rw [bytes] at written
  rcases isLabelByte_or_separator_of_mem written with inside | same
  · rw [inside] at outside
    contradiction
  · exact other same

theorem IsName.newline_not_mem {name : String} (isName : IsName name) : '\n' ∉ name.toList :=
  isName.not_mem (by decide) (by decide) (by decide)

theorem IsName.space_not_mem {name : String} (isName : IsName name) : ' ' ∉ name.toList :=
  isName.not_mem (by decide) (by decide) (by decide)

/-! ## Names that are read and written again -/

theorem isLabelStart_of_high {b : UInt8} (high : 128 ≤ b.toNat) : isLabelStart b = true := by
  have large : (0x80 : UInt8) ≤ b := UInt8.le_iff_toNat_le.mpr high
  simp [isLabelStart, large]

theorem nameBytes_cons_eq_self_iff (b : UInt8) (rest : List UInt8) :
    nameBytes (b :: rest) = b :: rest ↔
      (isLabelByte b || (b == separator && nextIs isLabelStart rest)) = true ∧
        nameBytes rest = rest := by
  rw [nameBytes]
  split
  · next taken => simp [taken]
  · next stopped => simp [stopped]

theorem nameBytes_drop_eq_self {bytes : List UInt8} (whole : nameBytes bytes = bytes) (n : Nat) :
    nameBytes (bytes.drop n) = bytes.drop n := by
  induction n generalizing bytes with
  | zero => exact whole
  | succ n ih =>
    cases bytes with
    | nil => rfl
    | cons b rest => exact ih ((nameBytes_cons_eq_self_iff b rest).mp whole).2

/-- Bytes that are all of a name are so again when they are read and written, and a label begins
them again if one began them. -/
theorem nameBytes_reread {bytes : List UInt8} (whole : nameBytes bytes = bytes) :
    nameBytes (Text.bytesOf (Text.decodeLossy bytes)) = Text.bytesOf (Text.decodeLossy bytes) ∧
      (nextIs isLabelStart bytes = true →
        nextIs isLabelStart (Text.bytesOf (Text.decodeLossy bytes)) = true) := by
  induction length : bytes.length using Nat.strongRecOn generalizing bytes with
  | _ length ih =>
    subst length
    cases bytes with
    | nil =>
      rw [Text.bytesOf_decodeLossy_nil]
      exact ⟨rfl, id⟩
    | cons b rest =>
      obtain ⟨here, tail⟩ := (nameBytes_cons_eq_self_iff b rest).mp whole
      by_cases low : b.toNat < 128
      · obtain ⟨again, starts⟩ := ih rest.length (by simp) tail rfl
        rw [Text.bytesOf_decodeLossy_ascii low, nameBytes_cons_eq_self_iff]
        refine ⟨⟨?_, again⟩, id⟩
        rw [Bool.or_eq_true, Bool.and_eq_true] at here ⊢
        exact here.imp_right (And.imp_right starts)
      · obtain ⟨run, more, filled, outside, written⟩ :=
          Text.bytesOf_decodeLossy_high (Nat.le_of_not_lt low) rest
        have shorter : (rest.drop more).length < (b :: rest).length := by
          simp only [List.length_drop, List.length_cons]
          omega
        obtain ⟨again, -⟩ := ih _ shorter (nameBytes_drop_eq_self tail more) rfl
        have labelBytes : ∀ b ∈ run, isLabelByte b = true := fun b member =>
          isLabelByte_of_start (isLabelStart_of_high (outside b member))
        rw [written, nameBytes_append_of_labelBytes _ _ labelBytes, again]
        refine ⟨rfl, fun _ => ?_⟩
        obtain ⟨front, run, rfl⟩ := List.exists_cons_of_ne_nil filled
        exact isLabelStart_of_high (outside front (List.mem_cons_self ..))

/-- Every name that is recorded in a source has the form of a name. -/
theorem isName_of_mem_references {source : String} {r : Reference}
    (member : r ∈ references source) : IsName r.name := by
  obtain ⟨o, found, rfl⟩ := List.mem_map.mp member
  have sound := Cursor.sound_run (Text.bytesOf source)
  obtain ⟨_, _, _, _, _, _, _, first, more, name, _⟩ :=
    (sound.stands o (List.mem_reverse.mp found)).1
  have whole : nameBytes o.name = o.name := by
    rw [name, ← List.append_nil (joinLabels first more), nameBytes_joinLabels]
    rfl
  have starts : nextIs isLabelStart o.name = true := by
    rw [name]
    exact first.starts
  obtain ⟨again, begins⟩ := nameBytes_reread whole
  have begins := begins starts
  rw [IsName, Occurrence.toReference]
  generalize Text.bytesOf (Text.decodeLossy o.name) = bytes at again begins
  cases bytes with
  | nil => simp at begins
  | cons b rest =>
    obtain ⟨first, more, read, -⟩ := exists_joinLabels_of_start rest begins
    exact ⟨first, more, again ▸ read⟩

end LayerGuard.Source
