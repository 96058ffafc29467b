import LayerGuard.Proofs.Path.Names

/-! # Ignored folders

A rule hits some paths themselves: those that end with its name, that are its path, or that its
pattern matches. A path made of names is excluded exactly if it or a folder on its way is hit, and
what leads to a folder leads on to everything below it. So with a folder all that it holds is
ignored, by whichever rule and whatever a pattern matches.
-/

namespace LayerGuard

namespace IgnoreRule

/-- A rule hits the path that names make up, rather than a folder on its way. -/
def Hits (names : Location) : IgnoreRule → Prop
  | .component name => names.getLast? = some name
  | .below base => base.components = names.map .name
  | .pattern fits => names ≠ [] ∧ fits (Text.join "/" names) = true

section Excludes

variable {names : Location} (clean : Path.AreNames names)

include clean

theorem component_excludes_iff (name : String) :
    (component name).excludes (.ofNames names) = true ↔ name ∈ names := by
  rw [excludes, clean.components, List.any_map, List.any_eq_true]
  constructor
  · rintro ⟨other, member, same⟩
    exact beq_iff_eq.mp same ▸ member
  · intro member
    exact ⟨name, member, beq_self_eq_true name⟩

theorem below_excludes_iff (base : Path) :
    (below base).excludes (.ofNames names) = true ↔
      ∃ above, above <+: names ∧ base.components = above.map .name := by
  rw [excludes, Path.isBelow, List.isPrefixOf_iff_prefix, clean.components, List.prefix_map_iff]

theorem pattern_excludes_iff (fits : String → Bool) :
    (pattern fits).excludes (.ofNames names) = true ↔
      ∃ above, above <+: names ∧ above ≠ [] ∧ fits (Text.join "/" above) = true := by
  have text {above : Location} (begins : above <+: names) :
      (Path.ofNames above).text ≠ "" ↔ above ≠ [] :=
    not_congr (Path.text_ofNames_eq_nil_iff fun name member =>
      clean.named name (begins.subset member))
  rw [excludes, List.any_eq_true]
  simp only [List.mem_filter, clean.mem_ancestors, bne_iff_ne]
  constructor
  · rintro ⟨_, ⟨⟨above, begins, rfl⟩, filled⟩, matched⟩
    exact ⟨above, begins, (text begins).mp filled, matched⟩
  · rintro ⟨above, begins, nonempty, matched⟩
    exact ⟨.ofNames above, ⟨⟨above, begins, rfl⟩, (text begins).mpr nonempty⟩, matched⟩

/-- A rule excludes what it hits and everything below. -/
theorem excludes_iff (rule : IgnoreRule) :
    rule.excludes (.ofNames names) = true ↔ ∃ above, above <+: names ∧ rule.Hits above := by
  cases rule with
  | component name =>
    rw [component_excludes_iff clean]
    constructor
    · intro member
      -- The folder that is hit is the one that ends with the name.
      obtain ⟨front, behind, rfl⟩ := List.append_of_mem member
      exact ⟨front ++ [name], ⟨behind, by simp⟩, List.getLast?_concat⟩
    · rintro ⟨above, begins, last⟩
      exact begins.subset (List.mem_of_getLast? last)
  | below base => exact below_excludes_iff clean base
  | pattern fits => exact pattern_excludes_iff clean fits

end Excludes
end IgnoreRule

namespace IgnoreList

/-- An entry of an ignore list hits the path that names make up. -/
def EntryHits (matcher : Matcher) (names : Location) (entry : String) : Prop :=
  ∃ rule, IgnoreRule.ofEntry? matcher entry = some rule ∧ rule.Hits names

theorem excludes_ofEntries_iff (matcher : Matcher) (entries : List String) {names : Location}
    (clean : Path.AreNames names) :
    (ofEntries entries matcher).excludes (.ofNames names) = true ↔
      ∃ above, above <+: names ∧ ∃ entry ∈ entries, EntryHits matcher above entry := by
  rw [excludes, ofEntries, List.any_eq_true]
  simp only [List.mem_filterMap, IgnoreRule.excludes_iff clean]
  constructor
  · rintro ⟨rule, ⟨entry, listed, stands⟩, above, begins, hits⟩
    exact ⟨above, begins, entry, listed, rule, stands, hits⟩
  · rintro ⟨above, begins, entry, listed, rule, stands, hits⟩
    exact ⟨rule, ⟨entry, listed, stands⟩, above, begins, hits⟩

/-- Whatever patterns match, a path made of names is excluded exactly if an entry of the ignore list
hits it or a folder on its way. So whatever continues an excluded path is excluded. -/
theorem excludes_descends (matcher : Matcher) (entries : List String) {names more : Location}
    (clean : Path.AreNames names) (further : Path.AreNames more) :
    ((ofEntries entries matcher).excludes ⟨Text.join "/" names⟩ = true ↔
        ∃ above, above <+: names ∧ ∃ entry ∈ entries, EntryHits matcher above entry) ∧
      ((ofEntries entries matcher).excludes ⟨Text.join "/" names⟩ = true →
        (ofEntries entries matcher).excludes
          ⟨Text.join "/" names ++ "/" ++ Text.join "/" more⟩ = true) := by
  have here := excludes_ofEntries_iff matcher entries clean
  have joined : Text.join "/" names ++ "/" ++ Text.join "/" more = Text.join "/" (names ++ more) :=
    (String.intercalate_append_of_ne_nil clean.nonempty further.nonempty).symm
  refine ⟨here, fun excluded => ?_⟩
  obtain ⟨above, begins, hit⟩ := here.mp excluded
  rw [joined]
  exact (excludes_ofEntries_iff matcher entries (clean.append further)).mpr
    ⟨above, begins.trans (List.prefix_append names more), hit⟩

/-- A glob that matches a folder and not what is below it, beside an entry that is no pattern. -/
theorem excludes_descends_pattern :
    let ignored := ofEntries ["[", " ./*/ca?he/ "]
    Path.AreNames ["var", "cache"] ∧ Path.AreNames ["b", "C.php"] ∧
      ignored.excludes ⟨Text.join "/" ["var", "cache"]⟩ = true ∧
      ignored.excludes ⟨Text.join "/" ["var", "cache"] ++ "/" ++ Text.join "/" ["b", "C.php"]⟩ =
        true := by
  have clean : Path.AreNames ["var", "cache"] := by decide
  have further : Path.AreNames ["b", "C.php"] := by decide
  have excluded : (ofEntries ["[", " ./*/ca?he/ "]).excludes ⟨Text.join "/" ["var", "cache"]⟩ =
      true := by decide
  exact ⟨clean, further, excluded, (excludes_descends _ _ clean further).2 excluded⟩

end IgnoreList
end LayerGuard
