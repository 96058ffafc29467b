import LayerGuard.Config.Format
import LayerGuard.Proofs.Architecture.Ownership
import LayerGuard.Proofs.Json.RoundTrip

/-! # Configurations written in JSON

Settings can be written as the fields of an object in many ways: in any order, between unknown
keys, with an absent setting left out or, where that is allowed, given as null. Whichever way it
is, the text gives the configuration that holds the settings, unless layer names conflict. Reading
goes through the fields one by one; in front of each a setting is either read or still to come.
-/

namespace LayerGuard

/-! ## Written values as settings -/

namespace Json

/-- The setting that a written value stands for. -/
def setting (value : Json) : Setting := value.toDraft.toSetting

theorem setting_array (items : List Json) :
    (Json.array items).setting = .list (items.map setting) := by
  rw [setting, toDraft, Draft.toSetting]
  congr 1
  induction items with
  | nil => rfl
  | cons item items ih =>
    rw [toDrafts, Draft.toSettings, ih]
    rfl

theorem setting_object (fields : List (String × Json)) :
    (Json.object fields).setting =
      .table (fields.map fun field => (some field.1, field.2.setting)) := by
  rw [setting, toDraft, Draft.toSetting]
  congr 1
  induction fields with
  | nil => rfl
  | cons field fields ih =>
    rw [toDraftFields, Draft.toEntries, ih]
    rfl

mutual

/-- A written value follows its notation throughout. -/
theorem isWellFormed_setting : (value : Json) → value.toDraft.toSetting.isWellFormed = true
  | .null => rfl
  | .bool _ => rfl
  | .number n => by
    rw [toDraft, Draft.toSetting]
    split <;> rfl
  | .string _ => rfl
  | .array items => allWellFormed_settings items
  | .object fields => entriesWellFormed_settings fields

theorem allWellFormed_settings : (items : List Json) →
    Setting.allWellFormed (Draft.toSettings (toDrafts items)) = true
  | [] => rfl
  | item :: items => by
    rw [toDrafts, Draft.toSettings, Setting.allWellFormed, isWellFormed_setting item,
      allWellFormed_settings items]
    rfl

theorem entriesWellFormed_settings : (fields : List (String × Json)) →
    Setting.entriesWellFormed (Draft.toEntries (toDraftFields fields)) = true
  | [] => rfl
  | (_, value) :: fields => by
    rw [toDraftFields, Draft.toEntries, Setting.entriesWellFormed, isWellFormed_setting value,
      entriesWellFormed_settings fields]
    rfl

end

theorem toTexts_strings (texts : List String) : (strings texts).setting.toTexts = .ok texts := by
  rw [strings, setting_array, List.map_map]
  exact mapM_map_eq_pure fun _ _ => rfl

def layers (definition : List (String × List String)) : Json :=
  .object (definition.map fun layer => (layer.1, strings layer.2))

theorem toLayers?_layers (definition : List (String × List String)) :
    (layers definition).setting.toLayers? = .ok (some definition) := by
  have back (layer : String × List String) :
      Setting.toLayer (some layer.1, (strings layer.2).setting) = pure layer := by
    rw [Setting.toLayer, toTexts_strings]
    rfl
  have all : (definition.map fun layer => (some layer.1, (strings layer.2).setting)).mapM
      Setting.toLayer = pure definition := mapM_map_eq_pure fun layer _ => back layer
  rw [layers, setting_object, List.map_map]
  exact congrArg (Except.map some) all

/-- A written value is taken apart to its end. -/
theorem document_write {layout : Layout} (blank : layout.Blank) (value : Json) :
    document (String.ofList (value.write layout 0)) = ⟨value.setting, true⟩ := by
  have none : ∀ c ∈ [], isJsonBlank c = true := fun _ member => by cases member
  have read := draft_write blank value none
  rw [List.append_nil] at read
  rw [document, read]
  rfl

end Json

namespace Config

/-! ## Keys -/

namespace Key

def names : Key → List String
  | .layers => ["architecture"]
  | .ignored => ["ignore"]
  | .rootNamespace => ["root_namespace", "projectRootNamespace"]
  | .builtins => ["builtins"]

theorem ofText?_eq_some_iff {name : String} {key : Key} :
    ofText? name = some key ↔ name ∈ key.names := by
  cases key <;> grind [ofText?, names]

abbrev Value : Key → Type
  | .layers => Option (List (String × List String))
  | .ignored => List String
  | .rootNamespace => Option String
  | .builtins => List String

/-- The setting if nothing is written. -/
def absent : (key : Key) → key.Value
  | .layers => none
  | .ignored => []
  | .rootNamespace => none
  | .builtins => []

def read : (key : Key) → Setting → Except Setting.Refusal key.Value
  | .layers => Setting.toLayers?
  | .ignored => Setting.toTexts
  | .rootNamespace => Setting.toText?
  | .builtins => Setting.toTexts

end Key

namespace Partial

def get (p : Partial) : (key : Key) → Option key.Value
  | .layers => p.layers?
  | .ignored => p.ignored?
  | .rootNamespace => p.rootNamespace?
  | .builtins => p.builtins?

def put (p : Partial) : (key : Key) → key.Value → Partial
  | .layers, value => { p with layers? := some value }
  | .ignored, value => { p with ignored? := some value }
  | .rootNamespace, value => { p with rootNamespace? := some value }
  | .builtins, value => { p with builtins? := some value }

theorem get_put_self (p : Partial) (key : Key) (value : key.Value) :
    (p.put key value).get key = some value := by
  cases key <;> rfl

theorem get_put_of_ne (p : Partial) {key other : Key} (value : key.Value) (ne : other ≠ key) :
    (p.put key value).get other = p.get other := by
  cases key <;> cases other <;> simp_all [get, put]

theorem has_eq (p : Partial) (key : Key) : p.has key = (p.get key).isSome := by
  cases key <;> rfl

theorem set_eq (p : Partial) (key : Key) (setting : Setting) :
    p.set key setting = (key.read setting).map (p.put key) := by
  cases key <;> rfl

theorem entry_eq (p : Partial) (name : String) (setting : Setting) :
    p.entry (some name, setting) =
      match Key.ofText? name with
      | some key =>
        if (p.get key).isSome then .error .unsuitable else (key.read setting).map (p.put key)
      | none => if setting.isWellFormed then .ok p else .error .unsuitable := by
  simp only [← has_eq, ← set_eq]
  rfl

end Partial

/-! ## Settings and how they are written -/

/-- The settings of a configuration as they are given. -/
structure Settings where
  layers? : Option (List (String × List String))
  ignored : List String
  rootNamespace? : Option String
  builtins : List String

/-- The values that are written under the names of a key. -/
def told (key : Key) (fields : List (String × Json)) : List Json :=
  (fields.filter fun field => key.names.contains field.1).map Prod.snd

/-- A setting that may be absent is then left out or null. -/
def optionSpellings (write : α → Json) : Option α → List (List Json)
  | none => [[], [.null]]
  | some value => [[write value]]

/-- A list may be left out if it is empty. -/
def listSpellings (texts : List String) : List (List Json) :=
  [Json.strings texts] :: if texts.isEmpty then [[]] else []

namespace Settings

def value (s : Settings) : (key : Key) → key.Value
  | .layers => s.layers?
  | .ignored => s.ignored
  | .rootNamespace => s.rootNamespace?
  | .builtins => s.builtins

/-- What may be written under a key. -/
def spellings (s : Settings) : Key → List (List Json)
  | .layers => optionSpellings Json.layers s.layers?
  | .ignored => listSpellings s.ignored
  | .rootNamespace => optionSpellings Json.string s.rootNamespace?
  | .builtins => listSpellings s.builtins

/-- The fields of an object give the settings, in whatever order and between whatever else. -/
def WrittenBy (s : Settings) (fields : List (String × Json)) : Prop :=
  ∀ key, told key fields ∈ s.spellings key

/-- A configuration holds the settings: its layers are those of the definition in order, each with
its children in the order of their first places. -/
structure HeldBy (s : Settings) (c : Config) : Prop where
  ignored : c.ignored = s.ignored
  rootNamespace : c.rootNamespace? = s.rootNamespace?
  builtins : c.builtins = s.builtins
  missing : c.architecture = .error .missingArchitecture ↔ s.layers? = none
  layers : ∀ definition, s.layers? = some definition → ∃ a, c.architecture = .ok a ∧
    definition.Forall₂ (fun given layer =>
      layer.name = given.1 ∧ Text.FirstPlaces given.2 layer.children) a.layers

/-- What comes of settings: the first conflict of the layer names, or a configuration if there is
none. -/
inductive Gives (s : Settings) : Except ConfigError Config → Prop
  | conflict {definition : List (String × List String)} {existing layer : String}
      (given : s.layers? = some definition)
      (first : IsFirstPair Comparable (definition.map Prod.fst) existing layer) :
      Gives s (.error (.architecture (.conflict ⟨existing, layer⟩)))
  | config {c : Config}
      (free : ∀ definition, s.layers? = some definition →
        (definition.map Prod.fst).Pairwise fun a b => ¬ Comparable a b)
      (held : s.HeldBy c) : Gives s (.ok c)

end Settings

/-! ## Reading settings -/

theorem told_cons_of_mem {key : Key} {name : String} (named : name ∈ key.names) (value : Json)
    (fields : List (String × Json)) :
    told key ((name, value) :: fields) = value :: told key fields := by
  simp [told, named]

theorem told_cons_of_not_mem {key : Key} {name : String} (other : name ∉ key.names) (value : Json)
    (fields : List (String × Json)) : told key ((name, value) :: fields) = told key fields := by
  simp [told, other]

theorem eq_none_of_nil_mem {write : α → Json} {value? : Option α}
    (left : [] ∈ optionSpellings write value?) : value? = none := by
  cases value? with
  | none => rfl
  | some value => simp [optionSpellings] at left

theorem eq_nil_of_nil_mem {texts : List String} (left : [] ∈ listSpellings texts) : texts = [] := by
  simpa [listSpellings] using left

/-- A setting that may be absent is read from any of its spellings. -/
theorem read_optionSpellings {write : α → Json}
    {read : Setting → Except Setting.Refusal (Option α)} (null : read .null = .ok none)
    (back : ∀ value, read (write value).setting = .ok (some value)) {value? : Option α} {first : Json}
    {more : List Json} (written : first :: more ∈ optionSpellings write value?) :
    more = [] ∧ read first.setting = .ok value? := by
  cases value? with
  | none =>
    obtain ⟨rfl, rfl⟩ : first = .null ∧ more = [] := by simpa [optionSpellings] using written
    exact ⟨rfl, null⟩
  | some value =>
    obtain ⟨rfl, rfl⟩ : first = write value ∧ more = [] := by simpa [optionSpellings] using written
    exact ⟨rfl, back value⟩

theorem read_listSpellings {texts : List String} {first : Json} {more : List Json}
    (written : first :: more ∈ listSpellings texts) :
    more = [] ∧ first.setting.toTexts = .ok texts := by
  obtain ⟨rfl, rfl⟩ : first = .strings texts ∧ more = [] := by simpa [listSpellings] using written
  exact ⟨rfl, Json.toTexts_strings texts⟩

namespace Settings

variable {s : Settings}

/-- Only an absent setting is left out. -/
theorem value_eq_absent {key : Key} (left : [] ∈ s.spellings key) : s.value key = key.absent := by
  cases key with
  | layers => exact eq_none_of_nil_mem left
  | ignored => exact eq_nil_of_nil_mem left
  | rootNamespace => exact eq_none_of_nil_mem left
  | builtins => exact eq_nil_of_nil_mem left

/-- A setting that is written is written once, and read as it is given. -/
theorem read_spelling {key : Key} {first : Json} {more : List Json}
    (written : first :: more ∈ s.spellings key) :
    more = [] ∧ key.read first.setting = .ok (s.value key) := by
  cases key with
  | layers => exact read_optionSpellings rfl Json.toLayers?_layers written
  | ignored => exact read_listSpellings written
  | rootNamespace => exact read_optionSpellings rfl (fun _ => rfl) written
  | builtins => exact read_listSpellings written

/-- In front of some fields every setting is either still to come or has been read. -/
def Pending (s : Settings) (p : Partial) (fields : List (String × Json)) : Prop :=
  ∀ key, p.get key = none ∧ told key fields ∈ s.spellings key ∨
    p.get key = some (s.value key) ∧ told key fields = []

theorem WrittenBy.pending {fields : List (String × Json)} (written : s.WrittenBy fields) :
    s.Pending .start fields := by
  intro key
  refine .inl ⟨?_, written key⟩
  cases key <;> rfl

/-- A field with an unknown key is passed over. -/
theorem Pending.entry_unknown {p : Partial} {name : String} {value : Json}
    {fields : List (String × Json)} (pending : s.Pending p ((name, value) :: fields))
    (unknown : Key.ofText? name = none) :
    p.entry (some name, value.setting) = .ok p ∧ s.Pending p fields := by
  have other (key : Key) : name ∉ key.names := by
    rw [← Key.ofText?_eq_some_iff, unknown]
    nofun
  constructor
  · rw [p.entry_eq, unknown]
    exact if_pos (Json.isWellFormed_setting value)
  · intro key
    have here := pending key
    rwa [told_cons_of_not_mem (other key)] at here

/-- A field with a known key gives its setting. -/
theorem Pending.entry_known {p : Partial} {name : String} {value : Json}
    {fields : List (String × Json)} (pending : s.Pending p ((name, value) :: fields)) {key : Key}
    (known : Key.ofText? name = some key) :
    p.entry (some name, value.setting) = .ok (p.put key (s.value key)) ∧
      s.Pending (p.put key (s.value key)) fields := by
  have named := Key.ofText?_eq_some_iff.mp known
  have here := pending key
  rw [told_cons_of_mem named] at here
  obtain ⟨unread, written⟩ := here.resolve_right fun read => by cases read.2
  obtain ⟨once, read⟩ := read_spelling written
  constructor
  · rw [p.entry_eq, known]
    dsimp only
    rw [unread, read]
    rfl
  · intro key'
    by_cases same : key' = key
    · subst same
      exact .inr ⟨p.get_put_self key' _, once⟩
    · have other : name ∉ key'.names := by
        rw [← Key.ofText?_eq_some_iff, known]
        exact fun told => same (Option.some.inj told).symm
      have there := pending key'
      rw [told_cons_of_not_mem other] at there
      rwa [p.get_put_of_ne _ same]

/-- Reading fields to their end reads every setting that is still to come. -/
theorem Pending.ofEntries {p : Partial} {fields : List (String × Json)}
    (pending : s.Pending p fields) :
    ∃ q, (fields.map fun field => (some field.1, field.2.setting)).foldlM Partial.entry p = .ok q ∧
      s.Pending q [] := by
  induction fields generalizing p with
  | nil => exact ⟨p, rfl, pending⟩
  | cons field fields ih =>
    obtain ⟨name, value⟩ := field
    rw [List.map_cons, List.foldlM_cons]
    cases known : Key.ofText? name with
    | none =>
      obtain ⟨read, rest⟩ := pending.entry_unknown known
      rw [read]
      exact ih rest
    | some key =>
      obtain ⟨read, rest⟩ := pending.entry_known known
      rw [read]
      exact ih rest

/-- What has not been read in the end is absent. -/
theorem Pending.getD_eq {p : Partial} (pending : s.Pending p []) (key : Key) :
    (p.get key).getD key.absent = s.value key := by
  rcases pending key with ⟨unread, left⟩ | ⟨read, -⟩
  · rw [unread]
    exact (value_eq_absent left).symm
  · rw [read]
    rfl

/-! ## Building the configuration -/

/-- When everything has been read, the configuration is built of the settings. -/
theorem Pending.gives {p : Partial} (pending : s.Pending p []) : s.Gives (ofPartial p) := by
  have layers : p.layers?.getD none = s.layers? := pending.getD_eq .layers
  have ignored : p.ignored?.getD [] = s.ignored := pending.getD_eq .ignored
  have rootNamespace : p.rootNamespace?.getD none = s.rootNamespace? := pending.getD_eq .rootNamespace
  have builtins : p.builtins?.getD [] = s.builtins := pending.getD_eq .builtins
  rw [ofPartial, layers, ignored, rootNamespace, builtins]
  cases given : s.layers? with
  | none =>
    exact .config (by simp [given])
      ⟨rfl, rfl, rfl, by simp [given, architecture], by simp [given]⟩
  | some definition =>
    dsimp only
    cases built : Architecture.build definition with
    | error conflict =>
      exact .conflict given (isFirstPair_of_firstConflict? (Architecture.build_eq_error built))
    | ok a =>
      refine .config ?_ ⟨rfl, rfl, rfl, by simp [given, architecture], ?_⟩
      · rw [given]
        rintro _ ⟨⟩
        exact Architecture.pairwise_of_build built
      · rw [given]
        rintro _ ⟨⟩
        exact ⟨a, rfl, Architecture.forall₂_of_build built⟩

end Settings

/-- Settings written as a JSON object give the first conflict of their layer names, and otherwise
the configuration that holds them. -/
theorem parse_writtenBy {layout : Json.Layout} (blank : layout.Blank) {s : Settings}
    {fields : List (String × Json)} (written : s.WrittenBy fields) :
    s.Gives (parse .json (String.ofList ((Json.object fields).write layout 0))) := by
  obtain ⟨p, read, pending⟩ := written.pending.ofEntries
  have settings : Partial.ofDocument true ⟨(Json.object fields).setting, true⟩ = .ok p := by
    rw [Json.setting_object]
    exact congrArg (· >>= Except.ok) read
  have parsed : parse .json (String.ofList ((Json.object fields).write layout 0)) = ofPartial p := by
    change ofDocument true (Json.document _) = _
    rw [Json.document_write blank, ofDocument, settings]
  rw [parsed]
  exact pending.gives

/-- Keys out of order and under their other name, a setting left out, a child that is repeated and
unknown keys, one of them inside another value. -/
theorem parse_writtenBy_reordered :
    let s : Settings :=
      ⟨some [("App\\A", ["App\\é", "PHP", "App\\é"]), ("App\\é", [])], [], some "App", ["\"\n"]⟩
    let fields : List (String × Json) :=
      [("builtins", .strings ["\"\n"]), ("x", .array [.null, .object [("ignore", .bool true)]]),
        ("projectRootNamespace", .string "App"),
        ("architecture", .layers [("App\\A", ["App\\é", "PHP", "App\\é"]), ("App\\é", [])]),
        ("y", .number ⟨true, 1, [5], some 400⟩)]
    s.WrittenBy fields ∧ s.Gives (parse .json (Json.object fields).compact) := by
  intro s fields
  have written : s.WrittenBy fields := by
    intro key
    cases key <;>
      simp [told, Key.names, fields, s, Settings.spellings, optionSpellings, listSpellings]
  exact ⟨written, parse_writtenBy Json.Layout.blank_compact written⟩

end Config
end LayerGuard
