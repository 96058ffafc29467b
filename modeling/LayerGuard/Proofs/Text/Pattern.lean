/-! # Patterns of characters

A pattern matches the front of a text in some ways, which stand in the order in which a matcher that
backtracks would come to them: a repetition takes as much as it can and gives characters back one by
one. A search takes the first way at the first place that has one. Which ways there are can be said
without their order.
-/

namespace LayerGuard.Text

/-- A pattern of characters. -/
inductive Pattern where
  | empty
  /-- One character of a class. -/
  | one (inClass : Char → Bool)
  /-- Characters of a class, one at least and as many as can be. -/
  | many (inClass : Char → Bool)
  /-- A pattern whose text is kept. -/
  | group (inner : Pattern)
  | seq (first second : Pattern)

/-- A way to match the front of a text: what is taken of it, what the last group in it keeps, and
what is left. -/
structure Way where
  taken : List Char
  kept? : Option (List Char)
  rest : List Char
  deriving DecidableEq, Repr

/-- A way and then another one in what it leaves. -/
def Way.followedBy (first second : Way) : Way where
  taken := first.taken ++ second.taken
  kept? := second.kept?.or first.kept?
  rest := second.rest

namespace Pattern

def word : List Char → Pattern
  | [] => empty
  | c :: cs => seq (one (· == c)) (word cs)

/-- The splits of a text behind some characters of a class, one at least, the longest first. -/
def repetitions (inClass : Char → Bool) : List Char → List (List Char × List Char)
  | [] => []
  | c :: cs =>
    if inClass c then
      (repetitions inClass cs).map (fun (taken, rest) => (c :: taken, rest)) ++ [([c], cs)]
    else []

/-- The ways to match the front of a text, the preferred ones first. -/
def ways : Pattern → List Char → List Way
  | empty, cs => [⟨[], none, cs⟩]
  | one _, [] => []
  | one inClass, c :: cs => if inClass c then [⟨[c], none, cs⟩] else []
  | many inClass, cs => (repetitions inClass cs).map fun (taken, rest) => ⟨taken, none, rest⟩
  | group inner, cs => (inner.ways cs).map fun way => { way with kept? := some way.taken }
  | seq first second, cs =>
    (first.ways cs).flatMap fun way => (second.ways way.rest).map way.followedBy

/-- The first way at the first place that has one. -/
def search? (p : Pattern) : List Char → Option Way
  | [] => (p.ways []).head?
  | c :: cs => (p.ways (c :: cs)).head?.or (p.search? cs)

/-! ## Which ways there are -/

theorem mem_repetitions {inClass : Char → Bool} {cs taken rest : List Char} :
    (taken, rest) ∈ repetitions inClass cs ↔
      cs = taken ++ rest ∧ taken ≠ [] ∧ ∀ c ∈ taken, inClass c = true := by
  induction cs generalizing taken rest with
  | nil => simp +contextual [repetitions]
  | cons c cs ih =>
    rw [repetitions]
    split
    · next inside =>
      rw [List.mem_append, List.mem_map, List.mem_singleton]
      constructor
      · rintro (⟨⟨taken', rest'⟩, member, same⟩ | same)
        · obtain ⟨whole, _, all⟩ := ih.mp member
          cases same
          exact ⟨by rw [whole]; rfl, by simp, List.forall_mem_cons.mpr ⟨inside, all⟩⟩
        · cases same
          exact ⟨rfl, by simp, by simpa using inside⟩
      · rintro ⟨whole, nonempty, all⟩
        obtain ⟨d, taken, rfl⟩ := List.exists_cons_of_ne_nil nonempty
        injection whole with same whole
        subst same
        by_cases last : taken = []
        · subst last
          exact .inr (by rw [whole]; rfl)
        · exact .inl ⟨(taken, rest), ih.mpr ⟨whole, last, fun e member =>
            all e (List.mem_cons_of_mem _ member)⟩, rfl⟩
    · next outside =>
      simp only [List.not_mem_nil, false_iff]
      rintro ⟨whole, nonempty, all⟩
      obtain ⟨d, taken, rfl⟩ := List.exists_cons_of_ne_nil nonempty
      injection whole with same _
      exact outside (same ▸ all d (List.mem_cons_self ..))

theorem mem_ways_one {inClass : Char → Bool} {cs : List Char} {way : Way} :
    way ∈ (one inClass).ways cs ↔
      ∃ c rest, cs = c :: rest ∧ inClass c = true ∧ way = ⟨[c], none, rest⟩ := by
  cases cs with
  | nil => simp [ways]
  | cons c cs =>
    simp only [ways, List.mem_ite_nil_right, List.mem_singleton]
    constructor
    · intro here
      exact ⟨c, cs, rfl, here⟩
    · rintro ⟨_, _, ⟨⟩, here⟩
      exact here

theorem mem_ways_many {inClass : Char → Bool} {cs : List Char} {way : Way} :
    way ∈ (many inClass).ways cs ↔ ∃ taken rest, cs = taken ++ rest ∧ taken ≠ [] ∧
      (∀ c ∈ taken, inClass c = true) ∧ way = ⟨taken, none, rest⟩ := by
  simp only [ways, List.mem_map, Prod.exists, mem_repetitions]
  constructor
  · rintro ⟨taken, rest, ⟨whole, nonempty, all⟩, rfl⟩
    exact ⟨taken, rest, whole, nonempty, all, rfl⟩
  · rintro ⟨taken, rest, whole, nonempty, all, rfl⟩
    exact ⟨taken, rest, ⟨whole, nonempty, all⟩, rfl⟩

theorem mem_ways_group {inner : Pattern} {cs : List Char} {way : Way} :
    way ∈ (group inner).ways cs ↔
      ∃ found ∈ inner.ways cs, way = { found with kept? := some found.taken } := by
  simp only [ways, List.mem_map, eq_comm]

theorem mem_ways_seq {first second : Pattern} {cs : List Char} {way : Way} :
    way ∈ (seq first second).ways cs ↔
      ∃ a ∈ first.ways cs, ∃ b ∈ second.ways a.rest, way = a.followedBy b := by
  simp only [ways, List.mem_flatMap, List.mem_map, eq_comm]

theorem mem_ways_word {w cs : List Char} {way : Way} :
    way ∈ (word w).ways cs ↔ ∃ rest, cs = w ++ rest ∧ way = ⟨w, none, rest⟩ := by
  induction w generalizing cs way with
  | nil => simp [word, ways]
  | cons c w ih =>
    rw [word, mem_ways_seq]
    constructor
    · rintro ⟨a, here, b, behind, rfl⟩
      obtain ⟨d, rest, rfl, same, rfl⟩ := mem_ways_one.mp here
      obtain ⟨rest', rfl, rfl⟩ := ih.mp behind
      exact ⟨rest', by rw [beq_iff_eq.mp same]; rfl, by rw [beq_iff_eq.mp same]; rfl⟩
    · rintro ⟨rest, rfl, rfl⟩
      exact ⟨_, mem_ways_one.mpr ⟨c, w ++ rest, rfl, beq_self_eq_true c, rfl⟩, _,
        ih.mpr ⟨rest, rfl, rfl⟩, rfl⟩

end Pattern

end LayerGuard.Text
