import LayerGuard.Builtins
import LayerGuard.Policy
import LayerGuard.Proofs.Architecture.Ownership

/-! # What a layer may use

The decision on a reference is a chain of tests. It comes to three ways in which a name is open to
a layer: it is judged by the layer's own name, a child admits it, or it is judged by the name of no
layer and the layer is either not strict or finds it built in. The name by which a reference is
judged is that of a layer exactly if a layer owns the reference, so ownership alone decides which
of these ways are left.

Hence two layers may use something of each other exactly if each admits the name of the other, and
the check for cycles, which looks at names only, finds the first such two layers.
-/

namespace LayerGuard

theorem Layer.isStrict_iff (l : Layer) : l.isStrict = true ↔ l.name ∈ l.children :=
  List.contains_iff_mem

theorem Layer.admits_iff (l : Layer) (name : String) :
    l.admits name = true ↔ ∃ child ∈ l.children, child.toList <+: name.toList := by
  simp only [admits, List.any_eq_true, Text.beginsWith_iff]

theorem Layer.owns_iff (l : Layer) (name : String) :
    l.owns name = true ↔ l.name.toList <+: name.toList :=
  Text.beginsWith_iff _ _

namespace Architecture

theorem contains_iff (a : Architecture) (name : String) :
    a.contains name = true ↔ ∃ l ∈ a.layers, l.name = name := by
  simp [contains]

end Architecture

namespace Policy

theorem usedName_of_owned {p : Policy} {name : String} {o : Layer}
    (owned : p.architecture.owner? name = some o) : p.usedName name = o.name := by
  rw [usedName, owned]
  rfl

theorem usedName_of_unowned {p : Policy} {name : String}
    (unowned : p.architecture.owner? name = none) : p.usedName name = name := by
  rw [usedName, unowned]
  rfl

/-- What no layer owns is not the name of a layer. -/
theorem contains_of_unowned {p : Policy} {name : String}
    (unowned : p.architecture.owner? name = none) : p.architecture.contains name = false := by
  rw [Bool.eq_false_iff]
  intro known
  obtain ⟨l, member, rfl⟩ := (p.architecture.contains_iff name).mp known
  rw [Architecture.owner?_name member] at unowned
  contradiction

/-- A reference is judged by the name of a layer exactly if a layer owns it. -/
theorem contains_usedName (p : Policy) (name : String) :
    p.architecture.contains (p.usedName name) = (p.architecture.owner? name).isSome := by
  cases owner : p.architecture.owner? name with
  | none =>
    rw [usedName_of_unowned owner]
    exact contains_of_unowned owner
  | some o =>
    rw [usedName_of_owned owner]
    exact (p.architecture.contains_iff o.name).mpr ⟨o, (Architecture.owner?_spec owner).1, rfl⟩

/-- The decision in one line: a layer may use its own name, what its children admit, and, if the
name is that of no layer, everything unless it is strict, and then what is built in. -/
theorem mayUse_iff (p : Policy) (layer : Layer) (name : String) :
    p.mayUse layer name = true ↔
      layer.name = p.usedName name ∨ layer.admits (p.usedName name) = true ∨
        p.architecture.contains (p.usedName name) = false ∧
          (layer.isStrict = false ∨ p.isBuiltin name = true) := by
  rw [mayUse]
  cases layer.isStrict with
  | false => simp [or_comm]
  | true => simp

/-- A layer may use what some layer owns if it is the owner or admits the owner's name. -/
theorem mayUse_of_owned {p : Policy} {layer o : Layer} {name : String}
    (member : layer ∈ p.architecture.layers) (owned : p.architecture.owner? name = some o) :
    p.mayUse layer name = true ↔ layer = o ∨ layer.admits o.name = true := by
  have owner := (Architecture.owner?_spec owned).1
  have same : layer.name = o.name ↔ layer = o :=
    ⟨p.architecture.eq_of_name_eq member owner, congrArg Layer.name⟩
  rw [mayUse_iff, contains_usedName, usedName_of_owned owned, owned, same]
  simp

/-- A layer may use what no layer owns unless it is strict, and then what it admits or finds built
in. -/
theorem mayUse_of_unowned {p : Policy} {layer : Layer} {name : String}
    (member : layer ∈ p.architecture.layers) (unowned : p.architecture.owner? name = none) :
    p.mayUse layer name = true ↔
      layer.isStrict = false ∨ layer.admits name = true ∨ p.isBuiltin name = true := by
  have other : layer.name ≠ name := by
    rintro rfl
    rw [Architecture.owner?_name member] at unowned
    contradiction
  rw [mayUse_iff, contains_usedName, usedName_of_unowned unowned, unowned]
  simp only [other, Option.isSome_none, true_and, false_or]
  exact or_left_comm

/-- What a layer may use is told by the owner of a reference. There is one at most: if there is
one, it has to be the layer itself or a child has to begin its name; if there is none, the layer has
to be other than strict, or a child has to begin the reference, or the reference has to be built
in. Looking up the name by which a reference is judged tells whether there is an owner. -/
theorem mayUse_decides (a : Architecture) (isBuiltin : String → Bool) {layer : Layer}
    (member : layer ∈ a.layers) (name : String) :
    (∀ o ∈ a.layers, o.name.toList <+: name.toList →
      (∀ other ∈ a.layers, other.name.toList <+: name.toList → other = o) ∧
        (mayUse ⟨a, isBuiltin⟩ layer name = true ↔
          o = layer ∨ ∃ child ∈ layer.children, child.toList <+: o.name.toList)) ∧
      ((∀ o ∈ a.layers, ¬ o.name.toList <+: name.toList) →
        (mayUse ⟨a, isBuiltin⟩ layer name = true ↔
          layer.name ∉ layer.children ∨ (∃ child ∈ layer.children, child.toList <+: name.toList) ∨
            isBuiltin name = true)) ∧
      (a.contains (usedName ⟨a, isBuiltin⟩ name) = true ↔
        ∃ o ∈ a.layers, o.name.toList <+: name.toList) := by
  simp only [← Layer.owns_iff, ← Layer.admits_iff, ← Layer.isStrict_iff, Bool.not_eq_true]
  refine ⟨?_, ?_, ?_⟩
  · intro o owner owned
    have found : a.owner? name = some o := (a.owner?_eq_some_iff name o).mpr ⟨owner, owned⟩
    refine ⟨fun other inside alsoOwned => a.eq_of_owns inside owner alsoOwned owned, ?_⟩
    rw [mayUse_of_owned (p := ⟨a, isBuiltin⟩) member found, eq_comm]
  · intro unowned
    have none : a.owner? name = none := List.find?_eq_none.mpr (by simpa using unowned)
    exact mayUse_of_unowned (p := ⟨a, isBuiltin⟩) member none
  · rw [contains_usedName ⟨a, isBuiltin⟩]
    exact List.find?_isSome

/-- A child that begins the name of a layer opens to a strict layer what that layer owns, and what
no layer owns stays closed to it. -/
theorem mayUse_decides_strict :
    let core : Layer := ⟨"App\\Core", ["App\\Core", "App\\Ma"]⟩
    let mail : Layer := ⟨"App\\Mail", []⟩
    ∃ a, Architecture.build [(core.name, core.children), (mail.name, mail.children)] = .ok a ∧
      core ∈ a.layers ∧ mail ∈ a.layers ∧ mayUse ⟨a, Builtins.none⟩ core "App\\Mailer" = true ∧
        mayUse ⟨a, Builtins.none⟩ core "Vendor" = false := by
  intro core mail
  obtain ⟨a, built⟩ := (Architecture.exists_build_iff
    [(core.name, core.children), (mail.name, mail.children)]).mpr (by decide)
  have layers : a.layers = [core, mail] := (Architecture.build_eq_ok_iff _ a).mp built
  have first : core ∈ a.layers := by simp [layers]
  have second : mail ∈ a.layers := by simp [layers]
  refine ⟨a, built, first, second, ?_, ?_⟩
  · have owned : mail.owns "App\\Mailer" = true := by decide
    obtain ⟨_, uses⟩ := (mayUse_decides a Builtins.none first "App\\Mailer").1 mail second
      ((mail.owns_iff _).mp owned)
    exact uses.mpr (.inr ((core.admits_iff _).mp (by decide)))
  · have unowned : (∀ o ∈ a.layers, ¬ o.name.toList <+: "Vendor".toList) := by
      simp only [← Layer.owns_iff, layers, List.forall_mem_cons]
      exact ⟨by decide, by decide, List.forall_mem_nil _⟩
    have uses := (mayUse_decides a Builtins.none first "Vendor").2.1 unowned
    rw [← core.isStrict_iff, ← core.admits_iff] at uses
    rw [Bool.eq_false_iff, ne_eq, uses]
    decide

/-! ## Layers that may use each other -/

/-- Two layers each of which may use something that the other owns. -/
def UseEachOther (p : Policy) (l m : Layer) : Prop :=
  l ≠ m ∧ ∃ ofFirst ofSecond : String,
    p.architecture.owner? ofFirst = some l ∧ p.architecture.owner? ofSecond = some m ∧
      p.mayUse l ofSecond = true ∧ p.mayUse m ofFirst = true

theorem UseEachOther.members {p : Policy} {l m : Layer} (both : p.UseEachOther l m) :
    l ∈ p.architecture.layers ∧ m ∈ p.architecture.layers := by
  obtain ⟨-, _, _, owned, owned', -, -⟩ := both
  exact ⟨(Architecture.owner?_spec owned).1, (Architecture.owner?_spec owned').1⟩

/-- Two layers may use something of each other exactly if each admits the name of the other. -/
theorem useEachOther_iff {p : Policy} {l m : Layer} (first : l ∈ p.architecture.layers)
    (second : m ∈ p.architecture.layers) : p.UseEachOther l m ↔ l.mutuallyAdmit m = true := by
  have names : l.name ≠ m.name ↔ l ≠ m :=
    not_congr ⟨p.architecture.eq_of_name_eq first second, congrArg Layer.name⟩
  simp only [Layer.mutuallyAdmit, Bool.and_eq_true, bne_iff_ne, names, and_assoc]
  refine and_congr_right fun different => ?_
  constructor
  · rintro ⟨ofFirst, ofSecond, owned, owned', uses, uses'⟩
    rw [mayUse_of_owned first owned'] at uses
    rw [mayUse_of_owned second owned] at uses'
    exact ⟨uses.resolve_left different, uses'.resolve_left different.symm⟩
  · rintro ⟨admits, admits'⟩
    have owned := Architecture.owner?_name first
    have owned' := Architecture.owner?_name second
    refine ⟨l.name, m.name, owned, owned', ?_, ?_⟩
    · exact (mayUse_of_owned first owned').mpr (.inr admits)
    · exact (mayUse_of_owned second owned).mpr (.inr admits')

end Policy

namespace Architecture

/-- A reported cycle stands at the places of the first two layers that admit each other. -/
theorem exists_places_of_checkCircular {a : Architecture} {fault : ArchitectureFault}
    (fails : a.checkCircular = .error fault) :
    ∃ earlier later : Fin a.layers.length,
      fault = .circular a.layers[later].name a.layers[earlier].name ∧
        IsFirstPairAt (fun l m => l.mutuallyAdmit m = true) a.layers earlier later := by
  rw [checkCircular, firstCycleAfter_eq] at fails
  cases found : firstPair? Layer.mutuallyAdmit [] a.layers with
  | none =>
    rw [found] at fails
    cases fails
  | some pair =>
    rw [found] at fails
    cases fails
    have pair : IsFirstPair (fun l m => l.mutuallyAdmit m = true) a.layers pair.1 pair.2 :=
      isFirstPair_of_firstPair? .nil found
    obtain ⟨earlier, later, atEarlier, atLater, first⟩ := pair.exists_places
    exact ⟨earlier, later, by rw [atEarlier, atLater], first⟩

/-- The check for cycles passes exactly if no two layers may use something of each other, and what
it reports otherwise is the first layer with such an earlier one, and the first of these. -/
theorem checkCircular_agrees (a : Architecture) (isBuiltin : String → Bool) :
    (a.checkCircular = .ok () ↔ ¬ ∃ l m, Policy.UseEachOther ⟨a, isBuiltin⟩ l m) ∧
      ∀ fault, a.checkCircular = .error fault →
        ∃ earlier later : Fin a.layers.length,
          fault = .circular a.layers[later].name a.layers[earlier].name ∧
            IsFirstPairAt (Policy.UseEachOther ⟨a, isBuiltin⟩) a.layers earlier later := by
  constructor
  · rw [checkCircular_eq_ok_iff]
    constructor
    · rintro apart ⟨l, m, both⟩
      obtain ⟨first, second⟩ := both.members
      have admitting := (Policy.useEachOther_iff first second).mp both
      rw [apart l first m second] at admitting
      contradiction
    · intro none l first m second
      rw [Bool.eq_false_iff]
      intro admitting
      exact none ⟨l, m, (Policy.useEachOther_iff first second).mpr admitting⟩
  · intro fault fails
    obtain ⟨earlier, later, told, first⟩ := exists_places_of_checkCircular fails
    refine ⟨earlier, later, told, first.congr ?_⟩
    intro l member m member'
    exact Policy.useEachOther_iff member member'

/-- The third layer is on a cycle with both layers before it, and the first of these is named. -/
theorem checkCircular_agrees_third :
    ∃ a, build [("A", ["C"]), ("B", ["C\\X", "C"]), ("C", ["B", "A"])] = .ok a ∧
      a.checkCircular = .error (.circular "C" "A") ∧
      (∃ l m, Policy.UseEachOther ⟨a, Builtins.none⟩ l m) ∧
      ∃ earlier later : Fin a.layers.length,
        ArchitectureFault.circular "C" "A" =
            .circular a.layers[later].name a.layers[earlier].name ∧
          IsFirstPairAt (Policy.UseEachOther ⟨a, Builtins.none⟩) a.layers earlier later := by
  obtain ⟨a, built⟩ :=
    (exists_build_iff [("A", ["C"]), ("B", ["C\\X", "C"]), ("C", ["B", "A"])]).mpr (by decide)
  have fails : a.checkCircular = .error (.circular "C" "A") := by
    rw [checkCircular, (build_eq_ok_iff _ a).mp built]
    rfl
  obtain ⟨passes, reports⟩ := checkCircular_agrees a Builtins.none
  refine ⟨a, built, fails, ?_, reports _ fails⟩
  rw [fails] at passes
  simpa using passes

end Architecture
end LayerGuard
