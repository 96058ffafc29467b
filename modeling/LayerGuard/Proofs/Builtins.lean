import LayerGuard.Builtins
import LayerGuard.Proofs.Text.Blank
import LayerGuard.Proofs.Text.Utf8
import LayerGuard.Source.Byte
import Mathlib.Data.List.Forall2
import Mathlib.Data.List.TakeWhile

/-! # Which names are built in

A name is looked up in one form, without leading separators and capitals. Two names have the same
form exactly if they differ in nothing else, so a lookup cannot tell them apart. It finds every
spelling of a listed name because all listed names are in that form: those of the runtime as they
are written in the table, further ones because they are brought into it. The form of separators
alone is empty, and no listed name is.
-/

namespace LayerGuard.Builtins

/-! ## Spellings of a name -/

/-- Two characters that are equal but for the case of an ASCII letter. -/
def SameLetter (c d : Char) : Prop :=
  c = d ∨ ∃ n < 26, c.toNat = 65 + n ∧ d.toNat = 97 + n ∨ c.toNat = 97 + n ∧ d.toNat = 65 + n

/-- Two names that differ in nothing but leading separators and the case of ASCII letters. -/
def SameName (a b : String) : Prop :=
  ∃ m n cs ds, a.toList = List.replicate m '\\' ++ cs ∧ b.toList = List.replicate n '\\' ++ ds ∧
    List.Forall₂ SameLetter cs ds

/-- The spelling of a name that has no leading separator and no capital. -/
structure FormOf (name form : String) : Prop where
  same : SameName name form
  bare : form.toList.head? ≠ some '\\'
  small : ∀ c ∈ form.toList, ¬ (65 ≤ c.toNat ∧ c.toNat ≤ 90)

theorem toNat_toLower (c : Char) :
    c.toLower.toNat = if 65 ≤ c.toNat ∧ c.toNat ≤ 90 then c.toNat + 32 else c.toNat := by
  have capital : (c.val ≥ 'A'.val ∧ c.val ≤ 'Z'.val) ↔ 65 ≤ c.toNat ∧ c.toNat ≤ 90 := by
    rw [ge_iff_le, UInt32.le_iff_toNat_le, UInt32.le_iff_toNat_le]
    rfl
  split
  · next letter =>
    have shifted : (c.val + ('a'.val - 'A'.val)).toNat = c.val.toNat + 32 := by
      rw [UInt32.toNat_add]
      exact Nat.mod_eq_of_lt (Nat.lt_of_le_of_lt (Nat.add_le_add_right letter.2 32) (by decide))
    exact (congrArg Char.toNat (dif_pos (capital.mpr letter))).trans shifted
  · next other => exact congrArg Char.toNat (dif_neg (mt capital.mp other))

theorem toLower_eq_iff (c d : Char) : c.toLower = d.toLower ↔ SameLetter c d := by
  rw [← Char.toNat_inj, toNat_toLower, toNat_toLower, SameLetter, ← Char.toNat_inj]
  constructor
  · intro same
    split at same
    · split at same
      · exact .inl (by omega)
      · exact .inr ⟨c.toNat - 65, by omega, .inl (by omega)⟩
    · split at same
      · exact .inr ⟨d.toNat - 65, by omega, .inr (by omega)⟩
      · exact .inl same
  · rintro (same | ⟨n, small, letters⟩)
    · rw [same]
    · split <;> split <;> omega

theorem toLower_eq_separator (c : Char) : c.toLower = '\\' ↔ c = '\\' := by
  rw [← Char.toNat_inj, toNat_toLower, ← Char.toNat_inj]
  have code : '\\'.toNat = 92 := rfl
  split <;> omega

theorem forall₂_sameLetter_iff {cs ds : List Char} :
    List.Forall₂ SameLetter cs ds ↔ cs.map Char.toLower = ds.map Char.toLower := by
  rw [← List.forall₂_eq_eq_eq, List.forall₂_map_left_iff, List.forall₂_map_right_iff]
  simp only [toLower_eq_iff]

/-! ## The form in which a name is looked up -/

/-- Whether leading separators go first or capitals does not matter, for neither makes the other. -/
theorem toList_normalize (name : String) :
    (normalize name).toList = (name.toList.map Char.toLower).dropWhile (· == '\\') := by
  have separators : ((· == '\\') ∘ Char.toLower) = (· == '\\') := by
    funext c
    rw [Function.comp_apply, Bool.eq_iff_iff, beq_iff_eq, beq_iff_eq, toLower_eq_separator]
  rw [normalize, String.toList_ofList, List.dropWhile_map, separators]

theorem eq_replicate_append (cs : List Char) :
    cs = List.replicate (cs.takeWhile (· == '\\')).length '\\' ++ cs.dropWhile (· == '\\') := by
  have front : cs.takeWhile (· == '\\') =
      List.replicate (cs.takeWhile (· == '\\')).length '\\' :=
    List.eq_replicate_iff.mpr ⟨rfl, fun c member => by
      simpa using Text.inClass_of_mem_takeWhile member⟩
  rw [← front, List.takeWhile_append_dropWhile]

/-- Names have the same form exactly if they differ in nothing that a lookup disregards. -/
theorem normalize_eq_iff (a b : String) : normalize a = normalize b ↔ SameName a b := by
  constructor
  · intro same
    refine ⟨_, _, _, _, eq_replicate_append a.toList, eq_replicate_append b.toList, ?_⟩
    rw [forall₂_sameLetter_iff]
    exact String.ofList_injective same
  · rintro ⟨m, n, cs, ds, first, second, letters⟩
    have dropped (k : Nat) (rest : List Char) :
        ((List.replicate k '\\' ++ rest).map Char.toLower).dropWhile (· == '\\') =
          (rest.map Char.toLower).dropWhile (· == '\\') := by
      rw [List.map_append, List.map_replicate]
      exact List.dropWhile_append_of_pos fun c member =>
        beq_iff_eq.mpr (List.eq_of_mem_replicate member)
    rw [← String.toList_inj, toList_normalize, toList_normalize, first, second, dropped, dropped,
      forall₂_sameLetter_iff.mp letters]

instance (a b : String) : Decidable (SameName a b) :=
  decidable_of_iff _ (normalize_eq_iff a b)

/-- A name stays as it is if there is nothing to disregard in it. -/
theorem normalize_eq_self {name : String} (bare : name.toList.head? ≠ some '\\')
    (small : ∀ c ∈ name.toList, ¬ (65 ≤ c.toNat ∧ c.toNat ≤ 90)) : normalize name = name := by
  have letters : name.toList.map Char.toLower = name.toList := by
    conv_rhs => rw [← List.map_id name.toList]
    refine List.map_congr_left fun c member => ?_
    rw [id_eq, ← Char.toNat_inj, toNat_toLower, if_neg (small c member)]
  have front : name.toList.dropWhile (· == '\\') = name.toList := by
    cases chars : name.toList with
    | nil => rfl
    | cons c cs =>
      rw [chars] at bare
      rw [List.dropWhile_cons_of_neg]
      simpa using bare
  rw [← String.toList_inj, toList_normalize, letters, front]

theorem head?_normalize (name : String) : (normalize name).toList.head? ≠ some '\\' := by
  intro first
  rw [toList_normalize] at first
  exact absurd (Text.head?_dropWhile first) (by decide)

theorem small_normalize (name : String) :
    ∀ c ∈ (normalize name).toList, ¬ (65 ≤ c.toNat ∧ c.toNat ≤ 90) := by
  intro c member
  rw [toList_normalize] at member
  obtain ⟨d, -, rfl⟩ := List.mem_map.mp ((List.dropWhile_suffix _).subset member)
  rw [toNat_toLower]
  split <;> omega

theorem formOf_iff (name form : String) : FormOf name form ↔ normalize name = form := by
  constructor
  · rintro ⟨same, bare, small⟩
    exact ((normalize_eq_iff name form).mpr same).trans (normalize_eq_self bare small)
  · rintro rfl
    refine ⟨?_, head?_normalize name, small_normalize name⟩
    rw [← normalize_eq_iff]
    exact (normalize_eq_self (head?_normalize name) (small_normalize name)).symm

/-! ## The table -/

/-- Whether bytes are those of a name in the form in which it is looked up, and not of none. -/
def areOfForm (bytes : List UInt8) : Bool :=
  bytes.head?.any (· != Source.separator) &&
    bytes.all fun b => b < Source.ascii 'A' || Source.ascii 'Z' < b

theorem toList_toByteArray (name : String) : name.toByteArray.data.toList = Text.bytesOf name := by
  rw [← String.utf8Encode_toList, List.utf8Encode, List.data_toByteArray]
  rfl

theorem normalize_of_areOfForm {name : String}
    (form : areOfForm name.toByteArray.data.toList = true) : normalize name = name ∧ name ≠ "" := by
  rw [toList_toByteArray, areOfForm, Bool.and_eq_true, List.all_eq_true] at form
  obtain ⟨first, capitalless⟩ := form
  refine ⟨normalize_eq_self ?_ ?_, ?_⟩
  · intro separator
    obtain ⟨rest, chars⟩ := List.head?_eq_some_iff.mp separator
    rw [Text.bytesOf, chars, Text.utf8Bytes, List.flatMap_cons,
      Text.utf8EncodeChar_ascii (by decide)] at first
    exact absurd first (Bool.false_ne_true)
  · rintro c member ⟨low, high⟩
    have written : UInt8.ofNat c.toNat ∈ Text.bytesOf name := by
      refine List.mem_flatMap.mpr ⟨c, member, ?_⟩
      rw [Text.utf8EncodeChar_ascii (by omega)]
      exact List.mem_singleton_self _
    have outside := capitalless _ written
    have code : (UInt8.ofNat c.toNat).toNat = c.toNat := Text.toNat_byte (by omega)
    have letters : (Source.ascii 'A').toNat = 65 ∧ (Source.ascii 'Z').toNat = 90 := by decide
    simp only [Bool.or_eq_true, decide_eq_true_eq, UInt8.lt_iff_toNat_lt, code, letters] at outside
    omega
  · rintro rfl
    exact absurd first (Bool.false_ne_true)

/-- The names of the runtime are listed in the form in which names are looked up. The table is read
by its bytes, which are at hand, while characters would have to be decoded. -/
theorem normalize_runtimeName {name : String} (listed : name ∈ runtimeNames) :
    normalize name = name ∧ name ≠ "" := by
  have table : (runtimeNames.all fun name => areOfForm name.toByteArray.data.toList) = true := by
    decide +kernel
  exact normalize_of_areOfForm (List.all_eq_true.mp table name listed)

/-! ## Lookups -/

theorem contains_php (name : String) : php.contains name = true ↔ normalize name ∈ runtimeNames :=
  List.contains_iff_mem

theorem contains_withNames (b : Builtins) (extra : List String) (name : String) :
    (b.withNames extra).contains name = true ↔
      b.contains name = true ∨
        normalize name ≠ "" ∧ ∃ symbol ∈ extra, normalize symbol = normalize name := by
  simp only [contains, withNames, List.contains_iff_mem, List.mem_append, List.mem_filter,
    List.mem_map, bne_iff_ne, and_comm]

theorem contains_withNames_mono (b : Builtins) {symbols more : List String}
    (kept : ∀ symbol ∈ symbols, symbol ∈ more) (name : String)
    (found : (b.withNames symbols).contains name = true) :
    (b.withNames more).contains name = true := by
  rw [contains_withNames] at found ⊢
  refine found.imp_right (And.imp_right ?_)
  rintro ⟨symbol, member, same⟩
  exact ⟨symbol, kept symbol member, same⟩

/-- Further names may be given at once or one after the other, in any order. -/
theorem contains_withNames_perm (b : Builtins) {first second extra : List String}
    (perm : (first ++ second).Perm extra) (name : String) :
    ((b.withNames first).withNames second).contains name = (b.withNames extra).contains name := by
  rw [Bool.eq_iff_iff, contains_withNames, contains_withNames, contains_withNames]
  simp only [← perm.mem_iff, List.mem_append, or_and_right, exists_or, and_or_left, or_assoc]

theorem contains_of_sameName (b : Builtins) {name other : String} (same : SameName name other) :
    b.contains name = b.contains other := by
  rw [contains, contains, (normalize_eq_iff name other).mpr same]

theorem normalize_eq_empty_iff (name : String) :
    normalize name = "" ↔ ∀ c ∈ name.toList, c = '\\' := by
  rw [← String.toList_inj, toList_normalize, String.toList_empty, List.dropWhile_eq_nil_iff]
  simp only [List.forall_mem_map, beq_iff_eq, toLower_eq_separator]

/-- A name is built in exactly if its form is in the table or is the form of a further name and not
empty. So every spelling of a listed name is found, spellings of one name are answered alike,
separators alone are never found, and it does not matter in which steps and order further names are
given. -/
theorem contains_decides (extra : List String) :
    (∀ name, (php.withNames extra).contains name = true ↔
      ∃ form, FormOf name form ∧
        (form ∈ runtimeNames ∨ form ≠ "" ∧ ∃ symbol ∈ extra, FormOf symbol form)) ∧
    (∀ symbol name, symbol ∈ runtimeNames ∨ symbol ∈ extra ∧ (∃ c ∈ symbol.toList, c ≠ '\\') →
      SameName symbol name → (php.withNames extra).contains name = true) ∧
    (∀ name other, SameName name other →
      (php.withNames extra).contains name = (php.withNames extra).contains other) ∧
    (∀ name : String, (∀ c ∈ name.toList, c = '\\') →
      (php.withNames extra).contains name = false) ∧
    ∀ first second, (first ++ second).Perm extra → ∀ name,
      ((php.withNames first).withNames second).contains name =
        (php.withNames extra).contains name := by
  refine ⟨fun name => ?_, fun symbol name listed same => ?_,
    fun name other same => contains_of_sameName _ same, fun name separators => ?_,
    fun first second perm name => contains_withNames_perm _ perm name⟩
  · simp only [contains_withNames, contains_php, formOf_iff, exists_eq_left']
  · rw [← contains_of_sameName _ same, contains_withNames, contains_php]
    rcases listed with core | ⟨member, c, inside, other⟩
    · rw [(normalize_runtimeName core).1]
      exact .inl core
    · refine .inr ⟨fun empty => other ?_, symbol, member, rfl⟩
      exact (normalize_eq_empty_iff symbol).mp empty c inside
  · have empty := (normalize_eq_empty_iff name).mpr separators
    rw [Bool.eq_false_iff, ne_eq, contains_withNames, contains_php, empty]
    rintro (core | ⟨filled, -⟩)
    · exact (normalize_runtimeName core).2 rfl
    · exact filled rfl

/-- Two separators and other capitals hide neither a name of the runtime nor a further one, a
further name made of separators adds nothing, and further names may come in two steps. -/
theorem contains_decides_spelled :
    let extra := ["\\Swoole\\Server", "\\\\", "Redis"]
    ("random\\engine" ∈ runtimeNames ∧ SameName "random\\engine" "\\\\Random\\ENGINE" ∧
      SameName "\\Swoole\\Server" "swoole\\SERVER" ∧
      (["Redis"] ++ ["\\\\", "\\Swoole\\Server"]).Perm extra) ∧
    (php.withNames extra).contains "\\\\Random\\ENGINE" = true ∧
    (php.withNames extra).contains "swoole\\SERVER" = true ∧
    (php.withNames extra).contains "\\" = false ∧
    ((php.withNames ["Redis"]).withNames ["\\\\", "\\Swoole\\Server"]).contains "swoole\\SERVER" =
      true := by
  intro extra
  have core : "random\\engine" ∈ runtimeNames :=
    List.mem_append_left _ (List.mem_append_right _ (by decide))
  have spelled : SameName "random\\engine" "\\\\Random\\ENGINE" := by decide
  have respelled : SameName "\\Swoole\\Server" "swoole\\SERVER" := by decide
  have perm : (["Redis"] ++ ["\\\\", "\\Swoole\\Server"]).Perm extra := by decide
  obtain ⟨_, finds, _, separators, steps⟩ := contains_decides extra
  have further : (php.withNames extra).contains "swoole\\SERVER" = true :=
    finds _ _ (.inr ⟨List.mem_cons_self .., 'S', by decide, by decide⟩) respelled
  exact ⟨⟨core, spelled, respelled, perm⟩, finds _ _ (.inl core) spelled, further,
    separators _ fun _ => List.eq_of_mem_singleton, (steps _ _ perm _).trans further⟩

end LayerGuard.Builtins
