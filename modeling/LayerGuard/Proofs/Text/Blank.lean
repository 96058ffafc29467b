import LayerGuard.Text.Blank

/-! # Laws of trimming

What is left of a text behind trimming is told by what was taken off: only characters of the class,
at both ends and as many as there are. There is one such text, and trimming finds it.
-/

namespace LayerGuard.Text

/-- The text `core` is what is left of `cs` when the characters of a class are taken off at both of
its ends. -/
structure TrimsTo (inClass : Char → Bool) (cs core : List Char) : Prop where
  ends : ∃ front behind, cs = front ++ (core ++ behind) ∧ (∀ c ∈ front, inClass c = true) ∧
    ∀ c ∈ behind, inClass c = true
  first : ∀ c, core.head? = some c → inClass c = false
  last : ∀ c, core.getLast? = some c → inClass c = false

variable {inClass : Char → Bool}

theorem inClass_of_mem_takeWhile {cs : List Char} {c : Char} (member : c ∈ cs.takeWhile inClass) :
    inClass c = true :=
  List.all_eq_true.mp List.all_takeWhile c member

theorem head?_dropWhile {cs : List Char} {c : Char}
    (first : (cs.dropWhile inClass).head? = some c) : inClass c = false := by
  have stops := List.head?_dropWhile_not inClass cs
  rwa [first] at stops

/-- A class stops being taken off at the first character outside it. -/
theorem dropWhile_append_of_head {front rest : List Char} (inside : ∀ c ∈ front, inClass c = true)
    (stops : ∀ c, rest.head? = some c → inClass c = false) :
    (front ++ rest).dropWhile inClass = rest := by
  rw [List.dropWhile_append_of_pos inside]
  cases rest with
  | nil => rfl
  | cons c rest => simp [stops c rfl]

theorem trimsTo_trimEnds (inClass : Char → Bool) (cs : List Char) :
    TrimsTo inClass cs (trimEnds inClass cs) where
  ends := by
    refine ⟨cs.takeWhile inClass, ((cs.dropWhile inClass).reverse.takeWhile inClass).reverse,
      ?_, fun _ => inClass_of_mem_takeWhile, fun _ member => ?_⟩
    · rw [trimEnds, ← List.reverse_append, List.takeWhile_append_dropWhile, List.reverse_reverse,
        List.takeWhile_append_dropWhile]
    · exact inClass_of_mem_takeWhile (List.mem_reverse.mp member)
  first := by
    intro c first
    -- What trimming leaves begins what is left when only the front is taken off.
    have begins : trimEnds inClass cs <+: cs.dropWhile inClass := by
      have suffix : _ <:+ (cs.dropWhile inClass).reverse := List.dropWhile_suffix inClass
      have ends := List.reverse_prefix.mpr suffix
      rwa [List.reverse_reverse] at ends
    obtain ⟨rest, whole⟩ := begins
    have head : (cs.dropWhile inClass).head? = some c := by
      rw [← whole, List.head?_append, first]
      rfl
    exact head?_dropWhile head
  last := by
    intro c last
    rw [trimEnds, List.getLast?_reverse] at last
    exact head?_dropWhile last

/-- Trimming finds the one text that is left. -/
theorem TrimsTo.eq_trimEnds {cs core : List Char} (trims : TrimsTo inClass cs core) :
    core = trimEnds inClass cs := by
  obtain ⟨⟨front, behind, rfl, inFront, inBehind⟩, first, last⟩ := trims
  by_cases none : core = []
  · subst none
    have all : ∀ c ∈ front ++ behind, inClass c = true := fun c member =>
      (List.mem_append.mp member).elim (inFront c) (inBehind c)
    have dropped : ((front ++ behind) ++ []).dropWhile inClass = [] :=
      dropWhile_append_of_head all (by simp)
    rw [List.append_nil] at dropped
    rw [trimEnds, List.nil_append, dropped]
    rfl
  · obtain ⟨c, rest, rfl⟩ := List.exists_cons_of_ne_nil none
    have stops : ∀ d, (c :: rest ++ behind).head? = some d → inClass d = false := first
    have inBehind' : ∀ d ∈ behind.reverse, inClass d = true := fun d member =>
      inBehind d (List.mem_reverse.mp member)
    have stops' : ∀ d, (c :: rest).reverse.head? = some d → inClass d = false := fun d head =>
      last d (List.head?_reverse ▸ head)
    rw [trimEnds, dropWhile_append_of_head inFront stops, List.reverse_append,
      dropWhile_append_of_head inBehind' stops', List.reverse_reverse]

end LayerGuard.Text
