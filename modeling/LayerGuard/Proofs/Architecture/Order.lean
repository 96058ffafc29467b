import LayerGuard.Analyzer
import LayerGuard.Proofs.Architecture.Ownership
import Mathlib.Data.List.Forall2

/-! # The order of declarations

Layers are searched in the order of their declaration, and children in theirs. Because the names
of an architecture are incomparable, no result of such a search depends on that order, nor on how
often a child is listed. So definitions of the same layers are accepted alike, judge every source
alike and have the same cycles.
-/

namespace LayerGuard

/-! ## Layers that are alike -/

/-- Two layers of one name that have the same children, order and repetitions apart. -/
def Layer.Alike (l m : Layer) : Prop :=
  l.name = m.name ∧ ∀ child, child ∈ l.children ↔ child ∈ m.children

namespace Layer.Alike

variable {l m l' m' : Layer}

theorem isStrict_eq (alike : l.Alike m) : l.isStrict = m.isStrict := by
  rw [Bool.eq_iff_iff, isStrict, isStrict, List.contains_iff_mem, List.contains_iff_mem, alike.1]
  exact alike.2 _

theorem admits_eq (alike : l.Alike m) (name : String) : l.admits name = m.admits name := by
  rw [Bool.eq_iff_iff, admits, admits, List.any_eq_true, List.any_eq_true]
  simp only [alike.2]

theorem owns_eq (alike : l.Alike m) (name : String) : l.owns name = m.owns name := by
  rw [owns, owns, alike.1]

theorem mutuallyAdmit_eq (alike : l.Alike m) (alike' : l'.Alike m') :
    l.mutuallyAdmit l' = m.mutuallyAdmit m' := by
  simp only [mutuallyAdmit, alike.admits_eq, alike'.admits_eq, alike.1, alike'.1]

end Layer.Alike

/-- Two lists of layers that are alike, one for one, in some order. -/
def AlikeLayers (layers others : List Layer) : Prop :=
  ∃ arranged, layers.Perm arranged ∧ List.Forall₂ Layer.Alike arranged others

namespace AlikeLayers

variable {layers others : List Layer}

theorem names_perm (alike : AlikeLayers layers others) :
    (layers.map Layer.name).Perm (others.map Layer.name) := by
  obtain ⟨arranged, perm, pairs⟩ := alike
  have same : arranged.map Layer.name = others.map Layer.name := by
    rw [← List.forall₂_eq_eq_eq, List.forall₂_map_left_iff, List.forall₂_map_right_iff]
    exact pairs.imp fun _ _ pair => pair.1
  exact same ▸ perm.map Layer.name

/-- Every layer of either list has one in the other that is alike. -/
theorem exists_alike (alike : AlikeLayers layers others) :
    (∀ l ∈ layers, ∃ m ∈ others, l.Alike m) ∧ ∀ m ∈ others, ∃ l ∈ layers, l.Alike m := by
  obtain ⟨arranged, perm, pairs⟩ := alike
  simp only [perm.mem_iff]
  clear perm
  induction pairs with
  | nil => simp
  | cons pair _ ih =>
    simp only [List.mem_cons, forall_eq_or_imp, exists_eq_or_imp]
    exact ⟨⟨.inl pair, fun l member => .inr (ih.1 l member)⟩,
      .inl pair, fun m member => .inr (ih.2 m member)⟩

end AlikeLayers

/-! ## Architectures of layers that are alike -/

namespace Architecture

variable {a b : Architecture}

/-- The owners of a namespace in two such architectures are alike. -/
theorem owner?_alike (alike : AlikeLayers a.layers b.layers) (name : String) :
    Option.Rel Layer.Alike (a.owner? name) (b.owner? name) := by
  cases found : a.owner? name with
  | some l =>
    obtain ⟨member, owned⟩ := owner?_spec found
    obtain ⟨m, member', pair⟩ := alike.exists_alike.1 l member
    rw [pair.owns_eq] at owned
    rw [(b.owner?_eq_some_iff name m).mpr ⟨member', owned⟩]
    exact .some pair
  | none =>
    cases found' : b.owner? name with
    | none => exact .none
    | some m =>
      obtain ⟨member, owned⟩ := owner?_spec found'
      obtain ⟨l, member', pair⟩ := alike.exists_alike.2 m member
      rw [← pair.owns_eq] at owned
      rw [(a.owner?_eq_some_iff name l).mpr ⟨member', owned⟩] at found
      contradiction

theorem contains_alike (alike : AlikeLayers a.layers b.layers) (name : String) :
    a.contains name = b.contains name := by
  have named (c : Architecture) : c.contains name = true ↔ name ∈ c.layers.map Layer.name := by
    rw [contains, List.any_eq_true, List.mem_map]
    simp only [beq_iff_eq]
  rw [Bool.eq_iff_iff, named, named]
  exact alike.names_perm.mem_iff

theorem checkCircular_alike (alike : AlikeLayers a.layers b.layers) :
    a.checkCircular = .ok () ↔ b.checkCircular = .ok () := by
  rw [checkCircular_eq_ok_iff, checkCircular_eq_ok_iff]
  constructor
  · intro apart m first m' second
    obtain ⟨l, member, pair⟩ := alike.exists_alike.2 m first
    obtain ⟨l', member', pair'⟩ := alike.exists_alike.2 m' second
    rw [← pair.mutuallyAdmit_eq pair']
    exact apart l member l' member'
  · intro apart l first l' second
    obtain ⟨m, member, pair⟩ := alike.exists_alike.1 l first
    obtain ⟨m', member', pair'⟩ := alike.exists_alike.1 l' second
    rw [pair.mutuallyAdmit_eq pair']
    exact apart m member m' member'

end Architecture

namespace Policy

variable {a b : Architecture}

theorem usedName_alike (alike : AlikeLayers a.layers b.layers) (isBuiltin : String → Bool)
    (name : String) : usedName ⟨a, isBuiltin⟩ name = usedName ⟨b, isBuiltin⟩ name := by
  have owners := Architecture.owner?_alike alike name
  simp only [usedName]
  generalize a.owner? name = first, b.owner? name = second at owners
  cases owners with
  | some pair => exact pair.1
  | none => rfl

/-- Layers that are alike may use the same names. -/
theorem mayUse_alike (alike : AlikeLayers a.layers b.layers) (isBuiltin : String → Bool)
    {l m : Layer} (pair : l.Alike m) (name : String) :
    mayUse ⟨a, isBuiltin⟩ l name = mayUse ⟨b, isBuiltin⟩ m name := by
  simp only [mayUse, usedName_alike alike, Architecture.contains_alike alike, pair.isStrict_eq,
    pair.admits_eq, pair.1]

end Policy

/-- Every source is judged alike. -/
theorem Analyzer.report_alike {a b : Architecture} (alike : AlikeLayers a.layers b.layers)
    (isBuiltin : String → Bool) (extractor : Extractor) (path : Path) (text : String) :
    report ⟨⟨a, isBuiltin⟩, extractor⟩ path text =
      report ⟨⟨b, isBuiltin⟩, extractor⟩ path text := by
  simp only [report, SourceFile.read]
  generalize extractor.analyze text = analysis
  have owners : Option.Rel Layer.Alike (analysis.declared.bind a.owner?)
      (analysis.declared.bind b.owner?) := by
    cases analysis.declared with
    | none => exact .none
    | some declared => exact Architecture.owner?_alike alike declared
  generalize analysis.declared.bind a.owner? = first, analysis.declared.bind b.owner? = second
    at owners
  cases owners with
  | none => rfl
  | some pair =>
    simp only [Policy.violations, Policy.mayUse_alike alike isBuiltin pair]
    rfl

/-! ## Definitions of the same layers -/

namespace Architecture

/-- Definitions of the same layers: in some order they list the same names, each with the same
children in any order and number. -/
def SameDefinition (definition other : List (String × List String)) : Prop :=
  ∃ arranged, definition.Perm arranged ∧
    List.Forall₂ (fun x y => x.1 = y.1 ∧ ∀ child, child ∈ x.2 ↔ child ∈ y.2) arranged other

theorem alikeLayers_of_sameDefinition {definition other : List (String × List String)}
    (same : SameDefinition definition other) :
    AlikeLayers (layersOf definition) (layersOf other) := by
  obtain ⟨arranged, perm, pairs⟩ := same
  refine ⟨layersOf arranged, perm.map _, ?_⟩
  rw [layersOf, layersOf, List.forall₂_map_left_iff, List.forall₂_map_right_iff]
  refine pairs.imp fun x y pair => ⟨pair.1, fun child => ?_⟩
  simp only [Layer.make, Text.mem_distinct, pair.2]

private theorem exists_error_iff {ε : Type} (outcome : Except ε Unit) :
    (∃ fault, outcome = .error fault) ↔ ¬ outcome = .ok () := by
  cases outcome with
  | error fault => simp
  | ok _ => simp

/-- The order of declarations and repeated children never matter. -/
theorem sameDefinition_indistinguishable {definition other : List (String × List String)}
    (same : SameDefinition definition other) :
    ((∃ a, build definition = .ok a) ↔ ∃ b, build other = .ok b) ∧
      ∀ a b, build definition = .ok a → build other = .ok b →
        (∀ (isBuiltin : String → Bool) (extractor : Extractor) (path : Path) (text : String),
          Analyzer.report ⟨⟨a, isBuiltin⟩, extractor⟩ path text =
            Analyzer.report ⟨⟨b, isBuiltin⟩, extractor⟩ path text) ∧
        ((∃ fault, a.checkCircular = .error fault) ↔ ∃ fault, b.checkCircular = .error fault) := by
  have alike := alikeLayers_of_sameDefinition same
  refine ⟨?_, ?_⟩
  · rw [exists_build_iff, exists_build_iff, ← layersOf_names, ← layersOf_names]
    exact firstConflict?_perm alike.names_perm
  · intro a b built built'
    rw [build_eq_ok_iff] at built built'
    rw [← built, ← built'] at alike
    refine ⟨fun isBuiltin extractor path text =>
      Analyzer.report_alike alike isBuiltin extractor path text, ?_⟩
    rw [exists_error_iff, exists_error_iff, checkCircular_alike alike]

/-- Swapped layers, swapped children and repeated ones. -/
theorem sameDefinition_indistinguishable_swapped :
    let definition := [("B", ["A", "A"]), ("A", ["B", "C"])]
    let other := [("A", ["C", "B", "C"]), ("B", ["A"])]
    let source := "<?php namespace A; use B\\X; use D\\Y;"
    SameDefinition definition other ∧
      ∃ a b, build definition = .ok a ∧ build other = .ok b ∧
        Analyzer.report ⟨⟨a, Builtins.none⟩, .php⟩ ⟨"A.php"⟩ source =
          Analyzer.report ⟨⟨b, Builtins.none⟩, .php⟩ ⟨"A.php"⟩ source ∧
        ((∃ fault, a.checkCircular = .error fault) ↔ ∃ fault, b.checkCircular = .error fault) := by
  intro definition other source
  have same : SameDefinition definition other := by
    refine ⟨[("A", ["B", "C"]), ("B", ["A", "A"])], .swap ..,
      .cons ⟨rfl, ?_⟩ (.cons ⟨rfl, ?_⟩ .nil)⟩
    · simp [or_comm]
    · simp
  obtain ⟨a, built⟩ := (exists_build_iff definition).mpr (by decide)
  obtain ⟨b, built'⟩ := (exists_build_iff other).mpr (by decide)
  obtain ⟨reports, cycles⟩ := (sameDefinition_indistinguishable same).2 a b built built'
  exact ⟨same, a, b, built, built', reports .., cycles⟩

end Architecture

end LayerGuard
