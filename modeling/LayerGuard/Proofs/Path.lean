import LayerGuard.Path
import LayerGuard.Proofs.Text.Split

/-! # Parts of a path

The names in a path, its file name and the stem of that are made of characters of the path.
-/

namespace LayerGuard.Path

theorem segment_of_component {p : Path} {name : String} (counts : .name name ∈ p.components) :
    name ∈ p.segments := by
  rw [components, List.mem_append, List.mem_filterMap] at counts
  rcases counts with front | ⟨segment, listed, stands⟩
  · split at front
    · simp at front
    · split at front
      · simp at front
      · cases front
  · rw [Component.ofSegment?] at stands
    split at stands
    · cases stands
    · split at stands
      · cases stands
      · cases stands
        exact listed

theorem mem_of_mem_fileName {p : Path} {name : String} (named : p.fileName? = some name) {c : Char}
    (member : c ∈ name.toList) : c ∈ p.text.toList := by
  rw [fileName?] at named
  split at named
  · next s last =>
    cases named
    exact Text.mem_of_mem_split (segment_of_component (List.mem_of_getLast? last)) member
  · cases named

theorem mem_of_mem_cutName {name : String} {c : Char} (member : c ∈ (cutName name).1.toList) :
    c ∈ name.toList := by
  rw [cutName] at member
  split at member
  · next dot before cut =>
    split at member
    · exact member
    · have inside : c ∈ before := by simpa using member
      have later := List.mem_of_mem_drop (cut ▸ List.mem_cons_of_mem dot inside)
      simpa using later
  · exact member

end LayerGuard.Path
