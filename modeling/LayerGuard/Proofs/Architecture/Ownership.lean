import LayerGuard.Architecture.Check
import LayerGuard.Proofs.Text.Split
import Mathlib.Data.List.Forall2
import Mathlib.Data.List.Pairwise

/-! # Ownership

Names free of conflicts are pairwise incomparable, in whatever order they are declared. So at most
one layer of an architecture owns a namespace, and the search for the first owner finds the only
one. The checks for conflicts and for cycles are one search for a related pair.
-/

namespace LayerGuard

/-! ## The first related pair of a list -/

/-- The first element to which an earlier one is related, and the first such earlier one. -/
def firstPair? (related : α → α → Bool) (seen : List α) : List α → Option (α × α)
  | [] => none
  | x :: rest =>
    match seen.find? (related · x) with
    | some earlier => some (earlier, x)
    | none => firstPair? related (seen ++ [x]) rest

/-- No pair is found exactly if no earlier element is related to a later one. -/
theorem firstPair?_eq_none_iff (related : α → α → Bool) (seen xs : List α) :
    firstPair? related seen xs = none ↔
      (∀ a ∈ seen, ∀ b ∈ xs, related a b = false) ∧
        xs.Pairwise fun a b => related a b = false := by
  induction xs generalizing seen with
  | nil => simp [firstPair?]
  | cons x rest ih =>
    rw [firstPair?]
    cases found : seen.find? (related · x) with
    | some earlier =>
      have member := List.mem_of_find?_eq_some found
      have holds : related earlier x = true := List.find?_some (p := (related · x)) found
      simp only [reduceCtorEq, false_iff, not_and]
      intro free
      have free := free earlier member x (List.mem_cons_self ..)
      rw [holds] at free
      contradiction
    | none =>
      have free : ∀ a ∈ seen, related a x = false := by
        simpa using List.find?_eq_none.mp found
      simp only [ih, List.pairwise_cons, List.mem_append, List.mem_cons, List.not_mem_nil, or_false]
      constructor
      · rintro ⟨apart, rest⟩
        refine ⟨?_, fun b member => apart x (.inr rfl) b member, rest⟩
        rintro a member b (rfl | later)
        · exact free a member
        · exact apart a (.inl member) b later
      · rintro ⟨apart, head, rest⟩
        refine ⟨?_, rest⟩
        rintro a (member | rfl) b later
        · exact apart a member b (.inr later)
        · exact head b later

/-- A pair of a list is the first related one if its later element is the first with a related one
in front of it, and its earlier element the first of these. -/
def IsFirstPair (related : α → α → Prop) (xs : List α) (a b : α) : Prop :=
  ∃ before between rest, xs = before ++ a :: (between ++ b :: rest) ∧ related a b ∧
    (before ++ a :: between).Pairwise (fun x y => ¬ related x y) ∧ ∀ x ∈ before, ¬ related x b

/-- The pair that is found is the first one. -/
theorem isFirstPair_of_firstPair? {related : α → α → Bool} {seen xs : List α} {a b : α}
    (free : seen.Pairwise fun x y => ¬ related x y = true)
    (found : firstPair? related seen xs = some (a, b)) :
    IsFirstPair (fun x y => related x y = true) (seen ++ xs) a b := by
  induction xs generalizing seen with
  | nil => cases found
  | cons x rest ih =>
    rw [firstPair?] at found
    split at found
    · next earlier here =>
      cases found
      obtain ⟨holds, before, between, rfl, apart⟩ := List.find?_eq_some_iff_append.mp here
      refine ⟨before, between, rest, by simp, holds, free, fun y member => ?_⟩
      simpa using apart y member
    · next none =>
      have apart := List.find?_eq_none.mp none
      rw [List.append_cons]
      refine ih (List.pairwise_append.mpr ⟨free, List.pairwise_singleton _ _, ?_⟩) found
      intro y member z last
      rw [List.mem_singleton.mp last]
      exact apart y member

/-- The places of the first related pair: the later is the least place with a related one in front
of it, and the earlier the least of these. -/
structure IsFirstPairAt (related : α → α → Prop) (xs : List α) (earlier later : Fin xs.length) :
    Prop where
  ordered : earlier < later
  holds : related xs[earlier] xs[later]
  later_least : ∀ i j : Fin xs.length, i < j → j < later → ¬ related xs[i] xs[j]
  earlier_least : ∀ i : Fin xs.length, i < earlier → ¬ related xs[i] xs[later]

/-- The places depend on the relation between members only. -/
theorem IsFirstPairAt.congr {related other : α → α → Prop} {xs : List α}
    {earlier later : Fin xs.length} (first : IsFirstPairAt related xs earlier later)
    (same : ∀ x ∈ xs, ∀ y ∈ xs, (other x y ↔ related x y)) :
    IsFirstPairAt other xs earlier later := by
  have agrees (i j : Fin xs.length) : other xs[i] xs[j] ↔ related xs[i] xs[j] :=
    same _ (List.getElem_mem _) _ (List.getElem_mem _)
  refine ⟨first.ordered, (agrees _ _).mpr first.holds, ?_, ?_⟩
  · intro i j ordered inFront
    exact (agrees i j).not.mpr (first.later_least i j ordered inFront)
  · intro i inFront
    exact (agrees i later).not.mpr (first.earlier_least i inFront)

/-- The first related pair has its two places. -/
theorem IsFirstPair.exists_places {related : α → α → Prop} {xs : List α} {a b : α}
    (first : IsFirstPair related xs a b) :
    ∃ earlier later : Fin xs.length, xs[earlier] = a ∧ xs[later] = b ∧
      IsFirstPairAt related xs earlier later := by
  obtain ⟨before, between, rest, rfl, holds, apart, least⟩ := first
  rw [← List.cons_append, ← List.append_assoc]
  let front := before ++ a :: between
  have place : before.length < front.length := by simp [front]
  let earlier : Fin (front ++ b :: rest).length := ⟨before.length, by simp; omega⟩
  let later : Fin (front ++ b :: rest).length := ⟨front.length, by simp⟩
  -- Every place in front of the later one is a place of `front`.
  have atFront (i : Fin (front ++ b :: rest).length) (inFront : i < later) :
      (front ++ b :: rest)[i] = front[i.val] := List.getElem_append_left inFront
  have atEarlier : (front ++ b :: rest)[earlier] = a := by
    rw [atFront earlier place]
    simp [front, earlier]
  have atLater : (front ++ b :: rest)[later] = b := by
    simp [later]
  refine ⟨earlier, later, atEarlier, atLater, place, ?_, ?_, ?_⟩
  · rwa [atEarlier, atLater]
  · intro i j ordered inFront
    rw [atFront i (Nat.lt_trans ordered inFront), atFront j inFront]
    exact List.pairwise_iff_getElem.mp apart i j (Nat.lt_trans ordered inFront) inFront ordered
  · intro i inFront
    have inside : i.val < front.length := Nat.lt_trans inFront place
    have value : front[i.val] = before[i.val] := List.getElem_append_left inFront
    rw [atFront i inside, atLater, value]
    exact least _ (List.getElem_mem _)

/-! ## Conflicts -/

/-- One of two names begins the other. -/
def Comparable (a b : String) : Prop := a.toList <+: b.toList ∨ b.toList <+: a.toList

theorem comparableNames_iff {a b : String} : comparableNames a b = true ↔ Comparable b a := by
  rw [comparableNames, Bool.or_eq_true, Text.beginsWith_iff, Text.beginsWith_iff, Comparable]

theorem firstConflictAfter_eq (seen names : List String) :
    firstConflictAfter seen names =
      (firstPair? (fun existing name => comparableNames name existing) seen names).map
        fun (existing, name) => ⟨existing, name⟩ := by
  induction names generalizing seen with
  | nil => rfl
  | cons name rest ih =>
    rw [firstConflictAfter, firstPair?]
    cases seen.find? (comparableNames name) with
    | some existing => rfl
    | none => exact ih _

theorem comparableNames_comm (a b : String) : comparableNames a b = comparableNames b a :=
  Bool.or_comm _ _

/-- Names are free of conflicts exactly if no two of them are comparable. -/
theorem firstConflict?_eq_none_iff (names : List String) :
    firstConflict? names = none ↔ names.Pairwise fun a b => comparableNames a b = false := by
  rw [firstConflict?, firstConflictAfter_eq, Option.map_eq_none_iff, firstPair?_eq_none_iff]
  simp only [List.not_mem_nil, false_imp_iff, implies_true, true_and, comparableNames_comm]

/-- The conflict that is reported is the first pair of comparable names. -/
theorem isFirstPair_of_firstConflict? {names : List String} {conflict : Conflict}
    (found : firstConflict? names = some conflict) :
    IsFirstPair Comparable names conflict.existing conflict.layer := by
  rw [firstConflict?, firstConflictAfter_eq, Option.map_eq_some_iff] at found
  obtain ⟨⟨existing, layer⟩, found, rfl⟩ := found
  have first := isFirstPair_of_firstPair? .nil found
  simp only [comparableNames_iff] at first
  exact first

/-- Names are free of conflicts exactly if no text has two of them, at different places, as
beginnings. -/
theorem firstConflict?_eq_none_iff_unique (names : List String) :
    firstConflict? names = none ↔
      ∀ (text : String) (i j : Fin names.length), names[i].toList <+: text.toList →
        names[j].toList <+: text.toList → i = j := by
  rw [firstConflict?_eq_none_iff, List.pairwise_iff_getElem]
  constructor
  · intro apart text i j first second
    by_contra different
    -- Two beginnings of one text are comparable, whichever of them is declared first.
    have comparable : comparableNames names[j] names[i] = true :=
      comparableNames_iff.mpr (List.prefix_or_prefix_of_prefix first second)
    rcases Nat.lt_or_gt_of_ne (Fin.val_ne_of_ne different) with before | behind
    · have free : comparableNames names[i] names[j] = false := apart i j i.isLt j.isLt before
      rw [comparableNames_comm, comparable] at free
      contradiction
    · have free : comparableNames names[j] names[i] = false := apart j i j.isLt i.isLt behind
      rw [comparable] at free
      contradiction
  · intro unique i j inside inside' before
    rw [Bool.eq_false_iff]
    intro comparable
    have different : (⟨i, inside⟩ : Fin names.length) ≠ ⟨j, inside'⟩ :=
      Fin.ne_of_val_ne (Nat.ne_of_lt before)
    -- The longer name is a text with both beginnings.
    rcases comparableNames_iff.mp comparable with shorter | longer
    · exact different (unique names[i] _ _ (List.prefix_refl _) shorter)
    · exact different (unique names[j] _ _ longer (List.prefix_refl _))

/-- The conflict that is reported stands at the places of the first two comparable names. -/
theorem exists_places_of_firstConflict? {names : List String} {conflict : Conflict}
    (found : firstConflict? names = some conflict) :
    ∃ earlier later : Fin names.length, conflict = ⟨names[earlier], names[later]⟩ ∧
      IsFirstPairAt Comparable names earlier later := by
  obtain ⟨earlier, later, atEarlier, atLater, first⟩ :=
    (isFirstPair_of_firstConflict? found).exists_places
  refine ⟨earlier, later, ?_, first⟩
  rw [atEarlier, atLater]

/-- Whether names conflict does not depend on their order. -/
theorem firstConflict?_perm {names others : List String} (perm : names.Perm others) :
    firstConflict? names = none ↔ firstConflict? others = none := by
  rw [firstConflict?_eq_none_iff, firstConflict?_eq_none_iff]
  refine perm.pairwise_iff ?_
  intro a b apart
  rwa [comparableNames_comm]

theorem Layer.owns_self (l : Layer) : l.owns l.name = true :=
  (Text.beginsWith_iff _ _).mpr (List.prefix_refl _)

namespace Architecture

/-! ## Building -/

theorem layersOf_names (definition : List (String × List String)) :
    (layersOf definition).map Layer.name = definition.map Prod.fst := by
  rw [layersOf, List.map_map]
  rfl

/-- What is built has the layers of the definition. -/
theorem build_eq_ok_iff (definition : List (String × List String)) (a : Architecture) :
    build definition = .ok a ↔ a.layers = layersOf definition := by
  obtain ⟨layers, conflictFree⟩ := a
  rw [build]
  constructor
  · intro built
    split at built
    · cases built
      rfl
    · cases built
  · rintro rfl
    split
    · rfl
    · next conflict found =>
      rw [conflictFree] at found
      contradiction

/-- A definition is accepted exactly if its names are free of conflicts. -/
theorem exists_build_iff (definition : List (String × List String)) :
    (∃ a, build definition = .ok a) ↔ firstConflict? (definition.map Prod.fst) = none := by
  simp only [build_eq_ok_iff, ← layersOf_names]
  constructor
  · rintro ⟨a, layers⟩
    rw [← layers]
    exact a.conflictFree
  · intro conflictFree
    exact ⟨⟨layersOf definition, conflictFree⟩, rfl⟩

/-- A definition is refused for the first conflict of its names. -/
theorem build_eq_error {definition : List (String × List String)} {conflict : Conflict}
    (refused : build definition = .error conflict) :
    firstConflict? (definition.map Prod.fst) = some conflict := by
  rw [build] at refused
  split at refused
  · cases refused
  · next found =>
    cases refused
    rwa [layersOf_names] at found

/-- Names are accepted only if no two of them are comparable. -/
theorem pairwise_of_build {definition : List (String × List String)} {a : Architecture}
    (built : build definition = .ok a) :
    (definition.map Prod.fst).Pairwise fun a b => ¬ Comparable a b := by
  have free := (exists_build_iff definition).mp ⟨a, built⟩
  refine ((firstConflict?_eq_none_iff _).mp free).imp ?_
  intro a b apart comparable
  rw [comparableNames_comm, comparableNames_iff.mpr comparable] at apart
  contradiction

/-- What is built has the layers in order, each with its children at their first places. -/
theorem forall₂_of_build {definition : List (String × List String)} {a : Architecture}
    (built : build definition = .ok a) :
    definition.Forall₂ (fun given layer =>
      layer.name = given.1 ∧ Text.FirstPlaces given.2 layer.children) a.layers := by
  rw [(build_eq_ok_iff definition a).mp built, layersOf, List.forall₂_map_right_iff,
    List.forall₂_same]
  intro given _
  exact ⟨rfl, Text.firstPlaces_distinct given.2⟩

/-! ## Owners -/

/-- No two layers of an architecture have comparable names. -/
theorem pairwise_incomparable (a : Architecture) :
    a.layers.Pairwise fun l m => comparableNames l.name m.name = false :=
  List.pairwise_map.mp ((firstConflict?_eq_none_iff _).mp a.conflictFree)

/-- Layers that own one namespace are the same layer. -/
theorem eq_of_owns (a : Architecture) {l m : Layer} {name : String} (first : l ∈ a.layers)
    (second : m ∈ a.layers) (owned : l.owns name = true) (alsoOwned : m.owns name = true) :
    l = m := by
  by_contra different
  have symmetric : Std.Symm fun l m : Layer => comparableNames l.name m.name = false :=
    ⟨fun _ _ apart => by rwa [comparableNames_comm]⟩
  have apart := a.pairwise_incomparable.forall first second different
  have comparable : comparableNames l.name m.name = true := by
    rw [comparableNames, Bool.or_eq_true]
    exact Text.beginsWith_or_beginsWith owned alsoOwned
  rw [comparable] at apart
  contradiction

/-- The owner that is found is a layer whose name begins the namespace. -/
theorem owner?_spec {a : Architecture} {name : String} {l : Layer}
    (found : a.owner? name = some l) : l ∈ a.layers ∧ l.owns name = true := by
  rw [owner?] at found
  have owned := List.find?_some found
  exact ⟨List.mem_of_find?_eq_some found, owned⟩

/-- The owner of a namespace is the layer whose name begins it. -/
theorem owner?_eq_some_iff (a : Architecture) (name : String) (l : Layer) :
    a.owner? name = some l ↔ l ∈ a.layers ∧ l.owns name = true := by
  refine ⟨owner?_spec, ?_⟩
  rintro ⟨member, owned⟩
  have found : (a.owner? name).isSome = true := List.find?_isSome.mpr ⟨l, member, owned⟩
  obtain ⟨m, owner⟩ := Option.isSome_iff_exists.mp found
  have same := a.eq_of_owns (owner?_spec owner).1 member (owner?_spec owner).2 owned
  rw [owner, same]

/-- A layer owns its own name. -/
theorem owner?_name {a : Architecture} {l : Layer} (member : l ∈ a.layers) :
    a.owner? l.name = some l :=
  (a.owner?_eq_some_iff l.name l).mpr ⟨member, l.owns_self⟩

/-- Layers of one name are the same layer. -/
theorem eq_of_name_eq (a : Architecture) {l m : Layer} (first : l ∈ a.layers)
    (second : m ∈ a.layers) (same : l.name = m.name) : l = m :=
  a.eq_of_owns first second l.owns_self (same ▸ m.owns_self)

theorem get?_spec {a : Architecture} {name : String} {l : Layer}
    (found : a.get? name = some l) : l ∈ a.layers ∧ l.name = name := by
  rw [get?] at found
  have named := List.find?_some found
  exact ⟨List.mem_of_find?_eq_some found, beq_iff_eq.mp named⟩

/-- A layer is found by its name. -/
theorem get?_name {a : Architecture} {l : Layer} (member : l ∈ a.layers) :
    a.get? l.name = some l := by
  have found : (a.get? l.name).isSome = true :=
    List.find?_isSome.mpr ⟨l, member, beq_iff_eq.mpr rfl⟩
  obtain ⟨m, named⟩ := Option.isSome_iff_exists.mp found
  obtain ⟨member', same⟩ := get?_spec named
  rw [named, a.eq_of_name_eq member' member same]

/-- The check for conflicts accepts names exactly if no namespace begins with two of them. It
refuses them for the first name that is comparable with an earlier one, and the first of these. In
what is built of accepted names, a layer is found alike by its name and as the owner of its name. -/
theorem firstConflict?_decides (names : List String) :
    (firstConflict? names = none ↔
      ∀ (text : String) (i j : Fin names.length), names[i].toList <+: text.toList →
        names[j].toList <+: text.toList → i = j) ∧
      (∀ conflict, firstConflict? names = some conflict →
        ∃ earlier later : Fin names.length, conflict = ⟨names[earlier], names[later]⟩ ∧
          IsFirstPairAt Comparable names earlier later) ∧
      ∀ definition a, build definition = .ok a → ∀ name ∈ definition.map Prod.fst,
        ∃ l, a.get? name = some l ∧ a.owner? name = some l := by
  refine ⟨firstConflict?_eq_none_iff_unique names, ?_, ?_⟩
  · intro conflict found
    exact exists_places_of_firstConflict? found
  · intro definition a built name named
    rw [← layersOf_names, ← (build_eq_ok_iff definition a).mp built] at named
    obtain ⟨l, member, rfl⟩ := List.mem_map.mp named
    exact ⟨l, get?_name member, owner?_name member⟩

/-- The third name begins both names before it, and the first of these is named. -/
theorem firstConflict?_decides_shorter :
    firstConflict? ["A\\C", "A\\B", "A", "A\\B"] = some ⟨"A\\C", "A"⟩ ∧
      (∃ earlier later : Fin 4,
        IsFirstPairAt Comparable ["A\\C", "A\\B", "A", "A\\B"] earlier later) ∧
      ∃ a l, build [("A\\C", ["A\\B"]), ("A\\B", [])] = .ok a ∧
        a.get? "A\\B" = some l ∧ a.owner? "A\\B" = some l := by
  obtain ⟨_, reports, agree⟩ := firstConflict?_decides ["A\\C", "A\\B", "A", "A\\B"]
  have fails : firstConflict? ["A\\C", "A\\B", "A", "A\\B"] = some ⟨"A\\C", "A"⟩ := by decide
  obtain ⟨earlier, later, _, first⟩ := reports _ fails
  obtain ⟨a, built⟩ := (exists_build_iff [("A\\C", ["A\\B"]), ("A\\B", [])]).mpr (by decide)
  obtain ⟨l, named, owned⟩ := agree _ a built "A\\B" (by simp)
  exact ⟨fails, ⟨earlier, later, first⟩, a, l, built, named, owned⟩

/-! ## Cycles -/

theorem firstCycleAfter_eq (seen layers : List Layer) :
    firstCycleAfter seen layers =
      (firstPair? Layer.mutuallyAdmit seen layers).map fun (other, layer) => (layer, other) := by
  induction layers generalizing seen with
  | nil => rfl
  | cons layer rest ih =>
    rw [firstCycleAfter, firstPair?]
    cases seen.find? (·.mutuallyAdmit layer) with
    | some other => rfl
    | none => exact ih _

theorem checkCircular_eq_ok_iff_pairwise (a : Architecture) :
    a.checkCircular = .ok () ↔ a.layers.Pairwise fun l m => l.mutuallyAdmit m = false := by
  have none : firstCycleAfter [] a.layers = none ↔
      a.layers.Pairwise fun l m => l.mutuallyAdmit m = false := by
    rw [firstCycleAfter_eq, Option.map_eq_none_iff, firstPair?_eq_none_iff]
    simp
  rw [← none, checkCircular]
  cases firstCycleAfter [] a.layers with
  | none => simp
  | some pair => simp

end Architecture

theorem Layer.mutuallyAdmit_self (l : Layer) : l.mutuallyAdmit l = false := by
  simp [mutuallyAdmit]

theorem Layer.mutuallyAdmit_comm (l m : Layer) : l.mutuallyAdmit m = m.mutuallyAdmit l := by
  simp only [mutuallyAdmit, bne_comm (a := l.name), Bool.and_assoc, Bool.and_comm (l.admits m.name)]

/-- The check for cycles passes exactly if no two layers may each use the other. -/
theorem Architecture.checkCircular_eq_ok_iff (a : Architecture) :
    a.checkCircular = .ok () ↔ ∀ l ∈ a.layers, ∀ m ∈ a.layers, l.mutuallyAdmit m = false := by
  rw [checkCircular_eq_ok_iff_pairwise]
  constructor
  · intro apart
    have symmetric : Std.Symm fun l m : Layer => l.mutuallyAdmit m = false :=
      ⟨fun _ _ apart => by rwa [Layer.mutuallyAdmit_comm]⟩
    exact apart.forall_of_forall fun l _ => l.mutuallyAdmit_self
  · intro apart
    exact List.pairwise_of_forall_mem_list apart

end LayerGuard
