import LayerGuard.Proofs.Architecture.Decision
import LayerGuard.Proofs.Architecture.Order
import LayerGuard.Proofs.Builtins
import Mathlib.Data.List.Forall2

/-! # Edits of a policy

A policy is edited by listing further children for one layer, or by naming further built-in names.
No edit changes what other layers may use. A further child other than the layer itself only opens
names to it. The layer itself as a further child makes the layer strict, and then opens nothing:
the one name that it could admit anew belongs to no other layer, because names are incomparable.
Further built-in names only open names.
-/

namespace LayerGuard

/-! ## Layers with further children -/

/-- A layer of the same name, with the added children if the name is the given one. -/
structure Layer.Gains (name : String) (added : List String) (l m : Layer) : Prop where
  name_eq : m.name = l.name
  children_iff : ∀ child, child ∈ m.children ↔ child ∈ l.children ∨ l.name = name ∧ child ∈ added

namespace Layer.Gains

variable {name : String} {added : List String} {l m : Layer}

theorem admits_iff (gains : Gains name added l m) (used : String) :
    m.admits used = true ↔
      l.admits used = true ∨
        l.name = name ∧ ∃ child ∈ added, Text.beginsWith used child = true := by
  simp only [admits, List.any_eq_true, gains.children_iff, or_and_right, exists_or, and_assoc,
    exists_and_left]

theorem isStrict_iff (gains : Gains name added l m) :
    m.isStrict = true ↔ l.isStrict = true ∨ l.name = name ∧ name ∈ added := by
  simp only [isStrict, List.contains_iff_mem, gains.children_iff, gains.name_eq]
  refine or_congr_right (and_congr_right ?_)
  rintro rfl
  rfl

/-- Another layer has the same children. -/
theorem alike (gains : Gains name added l m) (other : l.name ≠ name) : l.Alike m := by
  refine ⟨gains.name_eq.symm, fun child => ?_⟩
  simp [gains.children_iff, other]

end Layer.Gains

/-- Searches that agree on related elements find related elements. -/
theorem find?_rel {related : α → β → Prop} {xs : List α} {ys : List β}
    (pairs : List.Forall₂ related xs ys) {p : α → Bool} {q : β → Bool}
    (agree : ∀ x y, related x y → p x = q y) : Option.Rel related (xs.find? p) (ys.find? q) := by
  induction pairs with
  | nil => exact .none
  | @cons x y xs ys pair _ ih =>
    rw [List.find?_cons, List.find?_cons, agree x y pair]
    cases q y with
    | true => exact .some pair
    | false => exact ih

/-! ## Architectures of the same names -/

namespace Policy

variable {a b : Architecture}

theorem usedName_of_names (names : a.layers.map Layer.name = b.layers.map Layer.name)
    (isBuiltin : String → Bool) (name : String) :
    usedName ⟨a, isBuiltin⟩ name = usedName ⟨b, isBuiltin⟩ name := by
  have byNames (c : Architecture) : (c.owner? name).map Layer.name =
      (c.layers.map Layer.name).find? (Text.beginsWith name) := by
    rw [List.find?_map]
    rfl
  rw [usedName, usedName, byNames, byNames, names]

theorem contains_of_names (names : a.layers.map Layer.name = b.layers.map Layer.name)
    (name : String) : a.contains name = b.contains name := by
  have byNames (c : Architecture) :
      c.contains name = (c.layers.map Layer.name).any (· == name) := by
    rw [List.any_map]
    rfl
  rw [byNames, byNames, names]

def decision? (p : Policy) (layer used : String) : Option Bool :=
  (p.architecture.get? layer).map fun l => p.mayUse l used

/-- Further built-in names close nothing. -/
theorem mayUse_of_builtins {isBuiltin more : String → Bool} {l : Layer} {used : String}
    (kept : isBuiltin used = true → more used = true)
    (allowed : mayUse ⟨a, isBuiltin⟩ l used = true) : mayUse ⟨a, more⟩ l used = true := by
  rw [mayUse_iff] at allowed ⊢
  exact allowed.imp_right (Or.imp_right (And.imp_right (Or.imp_right kept)))

section Gains

variable {name : String} {added : List String} {l m : Layer} (isBuiltin : String → Bool)

/-- Other layers may use what they could use. -/
theorem mayUse_of_other (names : a.layers.map Layer.name = b.layers.map Layer.name)
    (gains : Layer.Gains name added l m) (other : l.name ≠ name) (used : String) :
    mayUse ⟨b, isBuiltin⟩ m used = mayUse ⟨a, isBuiltin⟩ l used := by
  have alike := gains.alike other
  simp only [mayUse, usedName_of_names names, contains_of_names names, alike.isStrict_eq,
    alike.admits_eq, alike.1]

/-- Further children other than the layer itself close nothing. -/
theorem mayUse_of_gains (names : a.layers.map Layer.name = b.layers.map Layer.name)
    (gains : Layer.Gains name added l m) (others : name ∉ added) {used : String}
    (allowed : mayUse ⟨a, isBuiltin⟩ l used = true) : mayUse ⟨b, isBuiltin⟩ m used = true := by
  have strict : m.isStrict = l.isStrict := by
    rw [Bool.eq_iff_iff, gains.isStrict_iff]
    simp [others]
  rw [mayUse_iff] at allowed ⊢
  rw [← usedName_of_names names, ← contains_of_names names, gains.name_eq, strict]
  refine allowed.imp_right (Or.imp_left fun admitted => ?_)
  exact (gains.admits_iff _).mpr (.inl admitted)

/-- The layer itself as a further child opens nothing to a layer that was not strict. -/
theorem mayUse_of_turningStrict (names : a.layers.map Layer.name = b.layers.map Layer.name)
    (gains : Layer.Gains l.name [l.name] l m) (member : l ∈ a.layers) (loose : l.isStrict = false)
    {used : String} (denied : mayUse ⟨a, isBuiltin⟩ l used = false) :
    mayUse ⟨b, isBuiltin⟩ m used = false := by
  rw [Bool.eq_false_iff, ne_eq, mayUse_iff] at denied ⊢
  rw [← usedName_of_names names, ← contains_of_names names, gains.name_eq, gains.admits_iff]
  generalize usedName ⟨a, isBuiltin⟩ used = judged at denied ⊢
  simp only [loose, true_or, and_true, not_or, Bool.not_eq_false] at denied
  obtain ⟨different, unadmitted, known⟩ := denied
  -- What is denied to a layer that is not strict is the name of another layer.
  obtain ⟨o, owner, rfl⟩ := (a.contains_iff judged).mp known
  have incomparable : ¬ Text.beginsWith o.name l.name = true := by
    intro begins
    exact different (congrArg Layer.name (a.eq_of_owns member owner begins o.owns_self))
  simp [different, unadmitted, known, incomparable]

end Gains

section Decisions

variable {name : String} {added : List String}
  (pairs : List.Forall₂ (Layer.Gains name added) a.layers b.layers) (isBuiltin : String → Bool)

include pairs

theorem names_of_gains : a.layers.map Layer.name = b.layers.map Layer.name := by
  rw [← List.forall₂_eq_eq_eq, List.forall₂_map_left_iff, List.forall₂_map_right_iff]
  exact pairs.imp fun _ _ pair => pair.name_eq.symm

/-- The decisions for a name before and after: there is no layer of that name, or they are those for
a layer and for what it has become. -/
theorem decision?_gains (layer used : String) :
    decision? ⟨a, isBuiltin⟩ layer used = none ∧ decision? ⟨b, isBuiltin⟩ layer used = none ∨
      ∃ l m, a.get? layer = some l ∧ Layer.Gains name added l m ∧
        decision? ⟨a, isBuiltin⟩ layer used = some (mayUse ⟨a, isBuiltin⟩ l used) ∧
        decision? ⟨b, isBuiltin⟩ layer used = some (mayUse ⟨b, isBuiltin⟩ m used) := by
  have found : Option.Rel (Layer.Gains name added) (a.get? layer) (b.get? layer) :=
    find?_rel pairs fun _ _ pair => by rw [pair.name_eq]
  simp only [decision?]
  generalize a.get? layer = before, b.get? layer = after at found ⊢
  cases found with
  | none => exact .inl ⟨rfl, rfl⟩
  | some gains => exact .inr ⟨_, _, rfl, gains, rfl, rfl⟩

theorem decision?_of_other (used layer : String) (other : layer ≠ name) :
    decision? ⟨b, isBuiltin⟩ layer used = decision? ⟨a, isBuiltin⟩ layer used := by
  obtain ⟨before, after⟩ | ⟨l, m, found, gains, before, after⟩ :=
    decision?_gains pairs isBuiltin layer used
  · rw [before, after]
  · rw [← (Architecture.get?_spec found).2] at other
    rw [before, after, mayUse_of_other isBuiltin (names_of_gains pairs) gains other]

end Decisions

end Policy

/-! ## Definitions with further children -/

namespace Architecture

/-- A definition of the same layers in which one of them has further children, in any order and
number. -/
def AddsChildren (name : String) (added : List String)
    (definition edited : List (String × List String)) : Prop :=
  List.Forall₂ (fun old new => new.1 = old.1 ∧
    ∀ child, child ∈ new.2 ↔ child ∈ old.2 ∨ old.1 = name ∧ child ∈ added) definition edited

/-- A definition with further children is accepted too. -/
theorem AddsChildren.exists_build {name : String} {added : List String}
    {definition edited : List (String × List String)}
    (adds : AddsChildren name added definition edited) {a : Architecture}
    (built : build definition = .ok a) :
    ∃ b, build edited = .ok b ∧ List.Forall₂ (Layer.Gains name added) a.layers b.layers := by
  have names : edited.map Prod.fst = definition.map Prod.fst := by
    rw [← List.forall₂_eq_eq_eq, List.forall₂_map_left_iff, List.forall₂_map_right_iff]
    exact adds.flip.imp fun _ _ pair => pair.1
  obtain ⟨b, built'⟩ := (exists_build_iff edited).mpr
    (names ▸ (exists_build_iff definition).mp ⟨a, built⟩)
  refine ⟨b, built', ?_⟩
  rw [(build_eq_ok_iff _ a).mp built, (build_eq_ok_iff _ b).mp built', layersOf, layersOf,
    List.forall₂_map_left_iff, List.forall₂_map_right_iff]
  refine adds.imp fun old new pair => ⟨pair.1, fun child => ?_⟩
  simp only [Layer.make, Text.mem_distinct, pair.2]

/-- Further children of one layer leave the decisions of all others as they are. They close nothing
to the layer unless it is one of them, and open nothing to it if it is the only one and the layer
was not strict. Further built-in names close nothing. -/
theorem edits_monotone {definition : List (String × List String)} {a : Architecture}
    (built : build definition = .ok a) (name : String) (isBuiltin : String → Bool) (used : String) :
    (∀ added edited, name ∉ added → AddsChildren name added definition edited →
      ∃ b, build edited = .ok b ∧
        (∀ layer, Policy.decision? ⟨a, isBuiltin⟩ layer used = some true →
          Policy.decision? ⟨b, isBuiltin⟩ layer used = some true) ∧
        ∀ layer, layer ≠ name →
          Policy.decision? ⟨b, isBuiltin⟩ layer used = Policy.decision? ⟨a, isBuiltin⟩ layer used) ∧
    (∀ edited, (∀ l, a.get? name = some l → l.isStrict = false) →
      AddsChildren name [name] definition edited →
      ∃ b, build edited = .ok b ∧
        (Policy.decision? ⟨a, isBuiltin⟩ name used = some false →
          Policy.decision? ⟨b, isBuiltin⟩ name used = some false) ∧
        ∀ layer, layer ≠ name →
          Policy.decision? ⟨b, isBuiltin⟩ layer used = Policy.decision? ⟨a, isBuiltin⟩ layer used) ∧
    ∀ (builtins : Builtins) (symbols more : List String),
      (∀ symbol ∈ symbols, symbol ∈ more) → ∀ layer,
      Policy.decision? ⟨a, builtins.withNames symbols⟩ layer used = some true →
        Policy.decision? ⟨a, builtins.withNames more⟩ layer used = some true := by
  refine ⟨?_, ?_, ?_⟩
  · intro added edited others adds
    obtain ⟨b, built', pairs⟩ := adds.exists_build built
    have names := Policy.names_of_gains pairs
    refine ⟨b, built', ?_, Policy.decision?_of_other pairs isBuiltin used⟩
    intro layer allowed
    obtain ⟨before, -⟩ | ⟨l, m, -, gains, before, after⟩ :=
      Policy.decision?_gains pairs isBuiltin layer used
    · rw [before] at allowed
      contradiction
    · rw [before, Option.some_inj] at allowed
      rw [after, Policy.mayUse_of_gains isBuiltin names gains others allowed]
  · intro edited loose adds
    obtain ⟨b, built', pairs⟩ := adds.exists_build built
    have names := Policy.names_of_gains pairs
    refine ⟨b, built', ?_, Policy.decision?_of_other pairs isBuiltin used⟩
    intro denied
    obtain ⟨before, -⟩ | ⟨l, m, found, gains, before, after⟩ :=
      Policy.decision?_gains pairs isBuiltin name used
    · rw [before] at denied
      contradiction
    · obtain ⟨member, rfl⟩ := get?_spec found
      rw [before, Option.some_inj] at denied
      rw [after, Policy.mayUse_of_turningStrict isBuiltin names gains member (loose l found) denied]
  · intro builtins symbols more kept layer allowed
    simp only [Policy.decision?, Option.map_eq_some_iff] at allowed ⊢
    obtain ⟨l, found, allowed⟩ := allowed
    exact ⟨l, found,
      Policy.mayUse_of_builtins (builtins.contains_withNames_mono kept used) allowed⟩

/-- A layer that may not use another one does not gain it by becoming strict, and a layer keeps what
is its own when another one gains it. -/
theorem edits_monotone_strict :
    let definition := [("A", []), ("C", ["B"])]
    let wider := [("A", []), ("C", ["A", "B", "A"])]
    let stricter := [("A", []), ("C", ["B", "C"])]
    ∃ a b c, build definition = .ok a ∧ build wider = .ok b ∧ build stricter = .ok c ∧
      AddsChildren "C" ["A"] definition wider ∧ AddsChildren "C" ["C"] definition stricter ∧
      (∀ l, a.get? "C" = some l → l.isStrict = false) ∧
      Policy.decision? ⟨a, Builtins.php⟩ "A" "A\\X" = some true ∧
      Policy.decision? ⟨a, Builtins.php⟩ "C" "A\\X" = some false ∧
      Policy.decision? ⟨b, Builtins.php⟩ "A" "A\\X" = some true ∧
      Policy.decision? ⟨c, Builtins.php⟩ "C" "A\\X" = some false := by
  intro definition wider stricter
  let a : Architecture := ⟨layersOf definition, by decide⟩
  have built : build definition = .ok a := (build_eq_ok_iff definition a).mpr rfl
  have widens : AddsChildren "C" ["A"] definition wider := by
    refine .cons ⟨rfl, ?_⟩ (.cons ⟨rfl, ?_⟩ .nil)
    · simp
    · simp [or_comm]
  have tightens : AddsChildren "C" ["C"] definition stricter := by
    refine .cons ⟨rfl, ?_⟩ (.cons ⟨rfl, ?_⟩ .nil)
    · simp
    · simp
  have loose : ∀ l, a.get? "C" = some l → l.isStrict = false := by
    intro l found
    have same : l = ⟨"C", ["B"]⟩ := (Option.some_inj.mp found).symm
    rw [same]
    rfl
  have allowed : Policy.decision? ⟨a, Builtins.php⟩ "A" "A\\X" = some true := by decide
  have denied : Policy.decision? ⟨a, Builtins.php⟩ "C" "A\\X" = some false := by decide
  obtain ⟨opens, closes, -⟩ := edits_monotone built "C" Builtins.php "A\\X"
  obtain ⟨b, built', kept, -⟩ := opens ["A"] wider (by decide) widens
  obtain ⟨c, built'', still, -⟩ := closes stricter loose tightens
  exact ⟨a, b, c, built, built', built'', widens, tightens, loose, allowed, denied,
    kept "A" allowed, still denied⟩

end Architecture
end LayerGuard
