import LayerGuard.Path
import LayerGuard.Proofs.Text.Utf8

/-! # The order of paths

Paths are ordered component by component, and names by their bytes. The comparison itself looks at
characters, but these are written in their order: of two characters the smaller one has the smaller
byte where what is written for them first differs. A path that continues another comes behind it,
and the slashes between names are not compared.
-/

namespace LayerGuard

namespace Text

/-- The order of byte sequences: the smaller byte decides where they first differ, and what has
ended comes before what goes on. -/
def BytesBefore (first second : List UInt8) : Prop :=
  List.Lex (fun a b => a.toNat < b.toNat) first second

theorem bytesBefore_cons {a b : UInt8} {first second : List UInt8} :
    BytesBefore (a :: first) (b :: second) ↔
      a.toNat < b.toNat ∨ a.toNat = b.toNat ∧ BytesBefore first second := by
  rw [UInt8.toNat_inj]
  exact List.cons_lex_cons_iff

theorem BytesBefore.append_left {first second : List UInt8} (before : BytesBefore first second)
    (common : List UInt8) : BytesBefore (common ++ first) (common ++ second) := by
  induction common with
  | nil => exact before
  | cons b common ih => exact .cons ih

/-! ## Characters are written in their order -/

/-- The first byte of a character tells how many there are: the more, the greater it is. -/
theorem exists_lead (c : Char) : ∃ lead more, String.utf8EncodeChar c = lead :: more ∧
    (c.toNat < 0x80 → lead.toNat < 0x80) ∧ (c.toNat < 0x800 → lead.toNat < 0xE0) ∧
    (c.toNat < 0x10000 → lead.toNat < 0xF0) ∧ (0x80 ≤ c.toNat → 0xC0 ≤ lead.toNat) ∧
    (0x800 ≤ c.toNat → 0xE0 ≤ lead.toNat) ∧ (0x10000 ≤ c.toNat → 0xF0 ≤ lead.toNat) := by
  rcases Nat.lt_or_ge c.toNat 0x80 with short | long
  · exact ⟨_, _, (writesAs_one short).written, by rw [UInt8.toNat_ofNat']; omega⟩
  rcases Nat.lt_or_ge c.toNat 0x800 with short | long
  · exact ⟨_, _, (writesAs_two ‹_› short).written, by rw [UInt8.toNat_ofNat']; omega⟩
  rcases Nat.lt_or_ge c.toNat 0x10000 with short | long
  · exact ⟨_, _, (writesAs_three ‹_› short).written, by rw [UInt8.toNat_ofNat']; omega⟩
  · exact ⟨_, _, (writesAs_four long).written, by rw [UInt8.toNat_ofNat']; omega⟩

section Characters

variable {c d : Char} (first second : List UInt8)

/-- Of two characters that need different numbers of bytes the shorter one comes first. -/
theorem bytesBefore_of_shorter {limit : Nat}
    (limits : limit = 0x80 ∨ limit = 0x800 ∨ limit = 0x10000) (short : c.toNat < limit)
    (long : limit ≤ d.toNat) :
    BytesBefore (String.utf8EncodeChar c ++ first) (String.utf8EncodeChar d ++ second) := by
  obtain ⟨lead, more, written, bounds⟩ := exists_lead c
  obtain ⟨lead', more', written', bounds'⟩ := exists_lead d
  rw [written, written']
  apply List.Lex.rel
  omega

/-- Of two characters the smaller one comes first, whatever follows them. -/
theorem bytesBefore_of_lt (less : c.toNat < d.toNat) :
    BytesBefore (String.utf8EncodeChar c ++ first) (String.utf8EncodeChar d ++ second) := by
  have valid : d.toNat < 0xD800 ∨ 0xDFFF < d.toNat ∧ d.toNat < 0x110000 := d.valid
  rcases Nat.lt_or_ge c.toNat 0x80 with short | long
  · rcases Nat.lt_or_ge d.toNat 0x80 with short' | long'
    · rw [(writesAs_one short).written, (writesAs_one short').written]
      simp only [List.cons_append, bytesBefore_cons, UInt8.toNat_ofNat']
      omega
    · exact bytesBefore_of_shorter first second (by omega) short long'
  rcases Nat.lt_or_ge c.toNat 0x800 with short | long
  · rcases Nat.lt_or_ge d.toNat 0x800 with short' | long'
    · rw [(writesAs_two ‹_› short).written, (writesAs_two (by omega) short').written]
      simp only [List.cons_append, bytesBefore_cons, UInt8.toNat_ofNat']
      omega
    · exact bytesBefore_of_shorter first second (by omega) short long'
  rcases Nat.lt_or_ge c.toNat 0x10000 with short | long
  · rcases Nat.lt_or_ge d.toNat 0x10000 with short' | long'
    · rw [(writesAs_three ‹_› short).written, (writesAs_three (by omega) short').written]
      simp only [List.cons_append, bytesBefore_cons, UInt8.toNat_ofNat']
      omega
    · exact bytesBefore_of_shorter first second (by omega) short long'
  · rw [(writesAs_four long).written, (writesAs_four (by omega)).written]
    simp only [List.cons_append, bytesBefore_cons, UInt8.toNat_ofNat']
    -- The bytes of a character are the remainders of one chain of divisions by 64.
    have sixties (n : Nat) : n / 4096 = n / 64 / 64 ∧ n / 262144 = n / 64 / 64 / 64 := by omega
    rw [(sixties c.toNat).1, (sixties c.toNat).2, (sixties d.toNat).1, (sixties d.toNat).2]
    omega

end Characters

/-- Texts are compared as their bytes are. -/
theorem bytesBefore_of_text_lt {s t : String} (less : s < t) :
    BytesBefore (bytesOf s) (bytesOf t) := by
  have chars : List.Lex (· < ·) s.toList t.toList := less
  rw [bytesOf, bytesOf]
  generalize s.toList = cs, t.toList = ds at chars
  induction chars with
  | nil =>
    obtain ⟨lead, more, writes⟩ := exists_writesAs _
    rw [writes.utf8Bytes_cons]
    exact .nil
  | rel smaller => exact bytesBefore_of_lt _ _ smaller
  | cons _ ih => exact ih.append_left _

end Text

/-! ## Components and paths -/

/-- The order of components: the root, a dot in front, two dots and names, and names by their
bytes. -/
def Component.Before (a b : Component) : Prop :=
  a.rank < b.rank ∨ a.rank = b.rank ∧ Text.BytesBefore (Text.bytesOf a.text) (Text.bytesOf b.text)

/-- The order of paths: components decide where they first differ, and what has ended comes before
what goes on. -/
def Path.Before (p q : Path) : Prop := List.Lex Component.Before p.components q.components

namespace Component

theorem before_of_cmp {a b : Component} (less : cmp a b = .lt) : Before a b := by
  rcases Ordering.then_eq_lt.mp less with kind | ⟨kind, texts⟩
  · exact .inl (Std.compare_eq_lt.mp kind)
  · exact .inr ⟨Std.LawfulEqOrd.eq_of_compare kind,
      Text.bytesBefore_of_text_lt (compareOfLessAndEq_eq_lt.mp texts)⟩

theorem eq_of_cmp {a b : Component} (same : cmp a b = .eq) : a = b := by
  obtain ⟨kind, texts⟩ := Ordering.then_eq_eq.mp same
  have kind : a.rank = b.rank := Std.LawfulEqOrd.eq_of_compare kind
  have texts : a.text = b.text := Std.LawfulEqOrd.eq_of_compare texts
  cases a <;> cases b <;> simp_all [rank, text]

instance : Std.TransCmp cmp :=
  inferInstanceAs (Std.TransCmp (compareLex (compareOn rank) (compareOn text)))

instance : Std.LawfulEqCmp cmp where
  eq_of_compare := eq_of_cmp

end Component

namespace Path

theorem before_of_cmp {p q : Path} (less : cmp p q = .lt) : p.Before q := by
  rw [cmp] at less
  rw [Before]
  generalize p.components = as, q.components = bs at less
  induction as generalizing bs with
  | nil =>
    cases bs with
    | nil => cases less
    | cons b bs => exact .nil
  | cons a as ih =>
    cases bs with
    | nil => cases less
    | cons b bs =>
      rw [List.compareLex_cons_cons] at less
      rcases Ordering.then_eq_lt.mp less with here | ⟨here, later⟩
      · exact .rel (Component.before_of_cmp here)
      · rw [Component.eq_of_cmp here]
        exact .cons (ih bs later)

theorem components_eq_of_cmp {p q : Path} (same : cmp p q = .eq) : p.components = q.components :=
  (inferInstance : Std.LawfulEqCmp (List.compareLex Component.cmp)).eq_of_compare same

instance : Std.TransCmp cmp where
  eq_swap := (inferInstance : Std.OrientedCmp (List.compareLex Component.cmp)).eq_swap
  isLE_trans := (inferInstance : Std.TransCmp (List.compareLex Component.cmp)).isLE_trans

theorem le_trans {p q r : Path} (first : le p q = true) (second : le q r = true) :
    le p r = true :=
  Std.TransCmp.isLE_trans first second

theorem cmp_swap (p q : Path) : cmp p q = (cmp q p).swap := Std.OrientedCmp.eq_swap

theorem le_total (p q : Path) : (le p q || le q p) = true := by
  rw [le, le, cmp_swap q p]
  cases cmp p q <;> rfl

/-- Of paths with different components one comes first. -/
theorem cmp_of_le_of_ne {p q : Path} (ordered : le p q = true)
    (apart : p.components ≠ q.components) : cmp p q = .lt :=
  (Ordering.isLE_iff_eq_lt_or_eq_eq.mp ordered).resolve_right fun same =>
    apart (components_eq_of_cmp same)

theorem not_cmp_of_cmp {p q : Path} (less : cmp p q = .lt) : cmp q p ≠ .lt := by
  rw [cmp_swap, less]
  decide

theorem ne_of_cmp {p q : Path} (less : cmp p q = .lt) : p ≠ q := by
  rintro rfl
  exact not_cmp_of_cmp less less

end Path
end LayerGuard
