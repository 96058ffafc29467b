import LayerGuard.Command
import LayerGuard.Proofs.FileTree
import Mathlib.Data.List.Forall2

/-! # Validations

A validation is refused by the first of its checks that fails, or it is accepted and then reports on
every source, in order. The report on a source lists the references that its layer may not use, all
of them and no others. So the program ends with violations exactly if some source has a reference
that is forbidden to it.
-/

namespace LayerGuard

/-! ## Reports on sources -/

/-- Whether a reference is forbidden to a source: the namespace of the source belongs to a layer,
and this layer may not use the reference. -/
def Policy.forbids (p : Policy) (text : String) (r : Reference) : Bool :=
  ((Source.declaredNamespace text).bind p.architecture.owner?).any fun layer =>
    !p.mayUse layer r.name

theorem Policy.forbids_iff (p : Policy) (text : String) (r : Reference) :
    p.forbids text r = true ↔ ∃ declared layer, Source.declaredNamespace text = some declared ∧
      p.architecture.owner? declared = some layer ∧ p.mayUse layer r.name = false := by
  simp only [forbids, Option.any_eq_true, Option.bind_eq_some_iff, Bool.not_eq_true']
  constructor
  · rintro ⟨layer, ⟨declared, found, owns⟩, denied⟩
    exact ⟨declared, layer, found, owns, denied⟩
  · rintro ⟨declared, layer, found, owns, denied⟩
    exact ⟨layer, ⟨declared, found, owns⟩, denied⟩

/-- A report on a source lists, in order of appearance and with repetitions, the references that are
forbidden to it, each with its line. -/
structure FileReport.Tells (report : FileReport) (p : Policy) (path : Path) (text : String) :
    Prop where
  path_eq : report.path = path
  subject_eq : report.subject = (SourceFile.read .php p.architecture path text).subject
  violations_eq : report.violations = ((Source.references text).filter (p.forbids text)).map
    fun r => ⟨⟨path, r.line⟩, report.subject, r.name⟩

/-- A source without a layer has no violations, and in one with a layer the references that the
layer may not use are those that are forbidden. -/
theorem Policy.violations_read (p : Policy) (path : Path) (text : String) :
    p.violations (.read .php p.architecture path text) =
      ((Source.references text).filter (p.forbids text)).map fun r =>
        ⟨⟨path, r.line⟩, (SourceFile.read .php p.architecture path text).subject, r.name⟩ := by
  have layer : (SourceFile.read .php p.architecture path text).layer? =
      (Source.declaredNamespace text).bind p.architecture.owner? := rfl
  cases owner : (Source.declaredNamespace text).bind p.architecture.owner? with
  | none =>
    have none_forbidden : p.forbids text = fun _ => false := by
      funext r
      rw [forbids, owner]
      rfl
    rw [violations, layer, owner, none_forbidden, List.filter_false]
    rfl
  | some owning =>
    have forbidden : p.forbids text = fun r => !p.mayUse owning r.name := by
      funext r
      rw [forbids, owner]
      rfl
    rw [violations, layer, owner, forbidden]
    rfl

/-- Exactly one report tells what is forbidden to a source, and an analyzer gives it. -/
theorem FileReport.tells_iff (report : FileReport) (p : Policy) (path : Path) (text : String) :
    report.Tells p path text ↔ report = Analyzer.report ⟨p, .php⟩ path text := by
  constructor
  · rintro ⟨rfl, subject, violations⟩
    rw [subject] at violations
    rw [Analyzer.report, p.violations_read, ← violations, ← subject]
    rfl
  · rintro rfl
    exact ⟨rfl, rfl, p.violations_read path text⟩

theorem FileReport.Tells.isOk_eq_false_iff {report : FileReport} {p : Policy} {path : Path}
    {text : String} (tells : report.Tells p path text) :
    report.isOk = false ↔ ∃ r ∈ Source.references text, p.forbids text r = true := by
  rw [isOk, tells.violations_eq]
  simp

namespace Validation

/-! ## Checks -/

/-- A configuration is loaded and declares an architecture. -/
structure Declares (tree : FileTree) (configPath : Path) (config : Config) (a : Architecture) :
    Prop where
  loads : Config.load tree configPath = .ok config
  declares : config.architecture? = some a

/-- An entry of the ignore list that ends the text of a source directory, or is ended by it. -/
def Hits (source : Path) (entry : String) : Prop :=
  entry.toList <:+ source.text.toList ∨ source.text.toList <:+ entry.toList

/-- Furthermore the source is a directory that no entry of the ignore list hits. -/
structure Suits (tree : FileTree) (source configPath : Path) (options : ValidationOptions)
    (config : Config) (a : Architecture) : Prop extends Declares tree configPath config a where
  folder : tree.isFolder source = true
  unignored : ∀ entry ∈ IgnoreList.merge options.ignored config.ignored, ¬ Hits source entry

/-- Furthermore the architecture passes the checks that are wanted. -/
structure Accepts (tree : FileTree) (source configPath : Path) (options : ValidationOptions)
    (config : Config) (a : Architecture) : Prop
    extends Suits tree source configPath options config a where
  acyclic : options.noCircular = true → a.checkCircular = .ok ()
  laidOut : options.pureLayout = true →
    a.checkPurity tree source config.rootNamespace? = .ok ()

/-- The error of the first check that fails; all checks before it hold. -/
inductive Refuses (tree : FileTree) (source configPath : Path) (options : ValidationOptions) :
    ValidationError → Prop where
  | unloaded {error : ConfigError} (fails : Config.load tree configPath = .error error) :
    Refuses tree source configPath options (.ofConfig error)
  | undeclared {config : Config} (loads : Config.load tree configPath = .ok config)
    (missing : config.architecture? = none) :
    Refuses tree source configPath options (.config .missingArchitecture)
  | notADirectory {config : Config} {a : Architecture} (declared : Declares tree configPath config a)
    (other : tree.isFolder source = false) :
    Refuses tree source configPath options (.notADirectory source)
  | ignoredSource {config : Config} {a : Architecture} (declared : Declares tree configPath config a)
    (folder : tree.isFolder source = true) {entry : String}
    (listed : entry ∈ IgnoreList.merge options.ignored config.ignored) (hits : Hits source entry) :
    Refuses tree source configPath options (.ignoredSource source)
  | circular {config : Config} {a : Architecture} {fault : ArchitectureFault}
    (suits : Suits tree source configPath options config a) (wanted : options.noCircular = true)
    (fails : a.checkCircular = .error fault) :
    Refuses tree source configPath options (.architecture fault)
  | impure {config : Config} {a : Architecture} {fault : ArchitectureFault}
    (suits : Suits tree source configPath options config a)
    (acyclic : options.noCircular = true → a.checkCircular = .ok ())
    (wanted : options.pureLayout = true)
    (fails : a.checkPurity tree source config.rootNamespace? = .error fault) :
    Refuses tree source configPath options (.architecture fault)

theorem hitsSource_iff (source : Path) (entry : String) :
    hitsSource source entry = true ↔ Hits source entry := by
  rw [hitsSource, Bool.or_eq_true, Text.endsWith_iff, Text.endsWith_iff, Hits]

theorem any_hitsSource_iff (source : Path) (entries : List String) :
    entries.any (hitsSource source) = true ↔ ∃ entry ∈ entries, Hits source entry := by
  simp only [List.any_eq_true, hitsSource_iff]

variable {tree : FileTree} {source configPath : Path} {options : ValidationOptions}
  {config : Config} {a : Architecture}

/-- What a validation ends with once every check holds. -/
def conclude (tree : FileTree) (source : Path) (options : ValidationOptions) (color : Bool)
    (elapsed : UInt64) (config : Config) (a : Architecture) : Validation :=
  let ignored := IgnoreList.merge options.ignored config.ignored
  let result := (analyzer config a).scan (sources tree source ignored [".php"]) elapsed
  ⟨result, Report.render options.format color ⟨source, ignored⟩ result⟩

/-- Behind a configuration with an architecture the other checks decide. -/
theorem Declares.run_eq (declared : Declares tree configPath config a) (color : Bool)
    (elapsed : UInt64) :
    run tree source configPath options color elapsed = (do
      checkSource tree source (IgnoreList.merge options.ignored config.ignored)
      (checkArchitecture tree source options config.rootNamespace? a).mapError .architecture
      return conclude tree source options color elapsed config a) := by
  have architecture : config.architecture = .ok a := by
    rw [Config.architecture, declared.declares]
  rw [run, declared.loads]
  change ((config.architecture.mapError _) >>= _) = _
  rw [architecture]
  rfl

/-- Behind the check of the source directory those of the architecture decide. -/
theorem Suits.run_eq (suits : Suits tree source configPath options config a) (color : Bool)
    (elapsed : UInt64) :
    run tree source configPath options color elapsed = (do
      (checkArchitecture tree source options config.rootNamespace? a).mapError .architecture
      return conclude tree source options color elapsed config a) := by
  have unhit :
      (IgnoreList.merge options.ignored config.ignored).any (hitsSource source) = false := by
    rw [← Bool.not_eq_true, any_hitsSource_iff]
    rintro ⟨entry, listed, hits⟩
    exact suits.unignored entry listed hits
  have passes :
      checkSource tree source (IgnoreList.merge options.ignored config.ignored) = .ok () := by
    simp only [checkSource, suits.folder, unhit, Bool.not_true, Bool.false_eq_true, ↓reduceIte]
  rw [suits.toDeclares.run_eq, passes]
  rfl

/-- Behind the check for cycles the one of the directories decides. -/
theorem checkArchitecture_of_acyclic
    (acyclic : options.noCircular = true → a.checkCircular = .ok ()) :
    checkArchitecture tree source options config.rootNamespace? a =
      if options.pureLayout then a.checkPurity tree source config.rootNamespace? else .ok () := by
  rw [checkArchitecture]
  cases circular : options.noCircular with
  | false => rfl
  | true =>
    rw [acyclic circular]
    rfl

theorem Accepts.run_eq (accepted : Accepts tree source configPath options config a)
    (color : Bool) (elapsed : UInt64) :
    run tree source configPath options color elapsed =
      .ok (conclude tree source options color elapsed config a) := by
  have passes : checkArchitecture tree source options config.rootNamespace? a = .ok () := by
    rw [checkArchitecture_of_acyclic accepted.acyclic]
    cases layout : options.pureLayout with
    | false => rfl
    | true => exact accepted.laidOut layout
  rw [accepted.toSuits.run_eq, passes]
  rfl

/-- A validation that is refused ends with the error of the check that refuses it. -/
theorem Refuses.run_eq {error : ValidationError}
    (refused : Refuses tree source configPath options error) (color : Bool) (elapsed : UInt64) :
    run tree source configPath options color elapsed = .error error := by
  cases refused with
  | unloaded fails =>
    rw [run, fails]
    rfl
  | @undeclared config loads missing =>
    have architecture : config.architecture = .error .missingArchitecture := by
      rw [Config.architecture, missing]
    rw [run, loads]
    change (config.architecture.mapError _ >>= _) = _
    rw [architecture]
    rfl
  | notADirectory declared other =>
    rw [declared.run_eq, checkSource, other]
    rfl
  | ignoredSource declared folder listed hits =>
    have hit := (any_hitsSource_iff source _).mpr ⟨_, listed, hits⟩
    rw [declared.run_eq, checkSource, folder, hit]
    rfl
  | circular suits wanted fails =>
    rw [suits.run_eq, checkArchitecture, wanted, fails]
    rfl
  | impure suits acyclic wanted fails =>
    rw [suits.run_eq, checkArchitecture_of_acyclic acyclic, wanted, fails]
    rfl

/-- A check that is wanted passes or fails; one that is not wanted counts as passed. -/
theorem passes_or_fails {ε : Type} (wanted : Bool) (check : Except ε Unit) :
    (wanted = true → check = .ok ()) ∨ ∃ fault, wanted = true ∧ check = .error fault := by
  cases wanted with
  | false => exact .inl fun impossible => nomatch impossible
  | true =>
    cases check with
    | error fault => exact .inr ⟨fault, rfl, rfl⟩
    | ok _ => exact .inl fun _ => rfl

/-- Every validation is refused or accepted. -/
theorem refuses_or_accepts (tree : FileTree) (source configPath : Path)
    (options : ValidationOptions) :
    (∃ error, Refuses tree source configPath options error) ∨
      ∃ config a, Accepts tree source configPath options config a := by
  cases loads : Config.load tree configPath with
  | error error => exact .inl ⟨_, .unloaded loads⟩
  | ok config =>
  cases declares : config.architecture? with
  | none => exact .inl ⟨_, .undeclared loads declares⟩
  | some a =>
  have declared : Declares tree configPath config a := ⟨loads, declares⟩
  cases folder : tree.isFolder source with
  | false => exact .inl ⟨_, .notADirectory declared folder⟩
  | true =>
  by_cases hit : ∃ entry ∈ IgnoreList.merge options.ignored config.ignored, Hits source entry
  · obtain ⟨entry, listed, hits⟩ := hit
    exact .inl ⟨_, .ignoredSource declared folder listed hits⟩
  have suits : Suits tree source configPath options config a :=
    ⟨declared, folder, fun entry listed hits => hit ⟨entry, listed, hits⟩⟩
  rcases passes_or_fails options.noCircular a.checkCircular with acyclic | ⟨fault, wanted, fails⟩
  · rcases passes_or_fails options.pureLayout (a.checkPurity tree source config.rootNamespace?) with
      laidOut | ⟨fault, wanted, fails⟩
    · exact .inr ⟨config, a, suits, acyclic, laidOut⟩
    · exact .inl ⟨_, .impure suits acyclic wanted fails⟩
  · exact .inl ⟨_, .circular suits wanted fails⟩

theorem run_eq_error_iff (color : Bool) (elapsed : UInt64) (error : ValidationError) :
    run tree source configPath options color elapsed = .error error ↔
      Refuses tree source configPath options error := by
  refine ⟨fun ended => ?_, fun refused => refused.run_eq color elapsed⟩
  rcases refuses_or_accepts tree source configPath options with
    ⟨other, refused⟩ | ⟨config, a, accepted⟩
  · rw [refused.run_eq] at ended
    injection ended with same
    exact same ▸ refused
  · rw [accepted.run_eq] at ended
    contradiction

theorem run_eq_ok_iff (color : Bool) (elapsed : UInt64) (v : Validation) :
    run tree source configPath options color elapsed = .ok v ↔
      ∃ config a, Accepts tree source configPath options config a ∧
        v = conclude tree source options color elapsed config a := by
  constructor
  · intro ended
    rcases refuses_or_accepts tree source configPath options with
      ⟨error, refused⟩ | ⟨config, a, accepted⟩
    · rw [refused.run_eq] at ended
      contradiction
    · rw [accepted.run_eq] at ended
      injection ended with same
      exact ⟨config, a, accepted, same.symm⟩
  · rintro ⟨config, a, accepted, rfl⟩
    exact accepted.run_eq color elapsed

/-! ## Reports -/

/-- The paths of the sources that a validation reports on. -/
def sourcePaths (tree : FileTree) (source : Path) (options : ValidationOptions) (config : Config) :
    List Path :=
  Discovery.sources tree source (.ofEntries (IgnoreList.merge options.ignored config.ignored)) [".php"]

/-- A report on a path tells of the text that is read there. -/
def ReportsOn (tree : FileTree) (p : Policy) (path : Path) (report : FileReport) : Prop :=
  ∃ bytes, tree.read? path = some bytes ∧ report.Tells p path (Text.decodeLossy bytes)

/-- A validation has one report for every source, in order, and the time that was measured, and the
output is written from them. -/
structure Reports (tree : FileTree) (source : Path) (options : ValidationOptions) (color : Bool)
    (elapsed : UInt64) (config : Config) (a : Architecture) (v : Validation) : Prop where
  files : List.Forall₂ (ReportsOn tree (analyzer config a).policy)
    (sourcePaths tree source options config) v.result.files
  timed : v.result.elapsedMs = elapsed
  written : v.output = Report.render options.format color
    ⟨source, IgnoreList.merge options.ignored config.ignored⟩ v.result

/-- Some source has a reference that the layer of its namespace may not use. -/
def HasForbidden (tree : FileTree) (source : Path) (options : ValidationOptions) (config : Config)
    (a : Architecture) : Prop :=
  ∃ path ∈ sourcePaths tree source options config, ∃ bytes, tree.read? path = some bytes ∧
    ∃ r ∈ Source.references (Text.decodeLossy bytes),
      ∃ declared layer, Source.declaredNamespace (Text.decodeLossy bytes) = some declared ∧
        a.owner? declared = some layer ∧ (analyzer config a).policy.mayUse layer r.name = false

/-- On files that can be read there are the reports of the analyzer and no others. -/
theorem forall₂_reportsOn_iff (p : Policy) {found : List (Path × List UInt8)}
    (readable : ∀ file ∈ found, tree.read? file.1 = some file.2) (reports : List FileReport) :
    List.Forall₂ (ReportsOn tree p) (found.map Prod.fst) reports ↔
      reports =
        found.map fun file => Analyzer.report ⟨p, .php⟩ file.1 (Text.decodeLossy file.2) := by
  induction found generalizing reports with
  | nil => simp
  | cons file found ih =>
    have here : tree.read? file.1 = some file.2 := readable file (List.mem_cons_self ..)
    have rest := ih fun other member => readable other (List.mem_cons_of_mem _ member)
    cases reports with
    | nil => simp
    | cons report reports =>
      rw [List.map_cons, List.forall₂_cons, rest]
      simp only [List.map_cons, List.cons.injEq, ReportsOn, here, Option.some.injEq,
        exists_eq_left', FileReport.tells_iff]

theorem reports_iff (color : Bool) (elapsed : UInt64) (v : Validation) :
    Reports tree source options color elapsed config a v ↔
      v = conclude tree source options color elapsed config a := by
  let ignored : IgnoreList := .ofEntries (IgnoreList.merge options.ignored config.ignored)
  have readable : ∀ file ∈ Discovery.found tree source ignored [".php"],
      tree.read? file.1 = some file.2 := fun file member => Discovery.read?_of_mem_found member
  have scanned : (conclude tree source options color elapsed config a).result.files =
      (Discovery.found tree source ignored [".php"]).map fun file =>
        (analyzer config a).report file.1 (Text.decodeLossy file.2) := by
    simp [conclude, Analyzer.scan, sources, ignored]
  have files := forall₂_reportsOn_iff (analyzer config a).policy readable
  constructor
  · rintro ⟨told, timed, written⟩
    obtain ⟨⟨reports, time⟩, output⟩ := v
    obtain rfl : reports = _ := ((files reports).mp told).trans scanned.symm
    obtain rfl : time = elapsed := timed
    exact congrArg (Validation.mk _) written
  · rintro rfl
    exact ⟨(files _).mpr scanned, rfl, rfl⟩

/-- Whether two related lists have a member of some kind is told by either of them. -/
theorem exists_mem_iff_of_forall₂ {α β : Type} {related : α → β → Prop} {P : α → Prop}
    {Q : β → Prop} (same : ∀ x y, related x y → (P x ↔ Q y)) {xs : List α} {ys : List β}
    (pairs : List.Forall₂ related xs ys) : (∃ x ∈ xs, P x) ↔ ∃ y ∈ ys, Q y := by
  induction pairs with
  | nil => simp
  | cons pair _ ih => simp only [List.exists_mem_cons_iff, same _ _ pair, ih]

/-- A validation has violations exactly if some source has a forbidden reference. -/
theorem Reports.hasViolations_iff {color : Bool} {elapsed : UInt64} {v : Validation}
    (reports : Reports tree source options color elapsed config a v) :
    v.result.hasViolations = true ↔ HasForbidden tree source options config a := by
  rw [ScanResult.hasViolations, List.any_eq_true, HasForbidden]
  refine (exists_mem_iff_of_forall₂ ?_ reports.files).symm
  rintro path report ⟨bytes, read, tells⟩
  rw [Bool.not_eq_true', tells.isOk_eq_false_iff]
  simp only [read, Option.some.injEq, exists_eq_left', Policy.forbids_iff]
  rfl

theorem exists_hasViolations_iff (color : Bool) (elapsed : UInt64) :
    (∃ v, run tree source configPath options color elapsed = .ok v ∧
        v.result.hasViolations = true) ↔
      ∃ config a, Accepts tree source configPath options config a ∧
        HasForbidden tree source options config a := by
  constructor
  · rintro ⟨v, ended, violated⟩
    obtain ⟨config, a, accepted, concluded⟩ := (run_eq_ok_iff color elapsed v).mp ended
    have reports := (reports_iff color elapsed v).mpr concluded
    exact ⟨config, a, accepted, reports.hasViolations_iff.mp violated⟩
  · rintro ⟨config, a, accepted, forbidden⟩
    have reports := (reports_iff color elapsed _).mpr
      (rfl : conclude tree source options color elapsed config a = _)
    exact ⟨_, accepted.run_eq color elapsed, reports.hasViolations_iff.mpr forbidden⟩

theorem runValidation_eq (tree : FileTree) (source configPath : Path)
    (options : ValidationOptions) (elapsed : UInt64) :
    Command.runValidation tree source (some configPath) options elapsed =
      match run tree source configPath options false elapsed with
      | .error error => ⟨1, "", some (.validation error), tree⟩
      | .ok v => ⟨if v.result.hasViolations then 1 else 0, v.output, none, tree⟩ := rfl

/-- The program ends with an error, prints nothing and leaves the tree as it is exactly if the
validation is refused. -/
theorem runValidation_eq_failed_iff (elapsed : UInt64) (error : ValidationError) :
    Command.runValidation tree source (some configPath) options elapsed =
        ⟨1, "", some (.validation error), tree⟩ ↔
      Refuses tree source configPath options error := by
  rw [← run_eq_error_iff false elapsed, runValidation_eq]
  cases run tree source configPath options false elapsed with
  | error other => simp
  | ok v => simp

theorem runValidation_violated_iff (elapsed : UInt64) :
    ((Command.runValidation tree source (some configPath) options elapsed).error? = none ∧
        (Command.runValidation tree source (some configPath) options elapsed).exitCode = 1) ↔
      ∃ v, run tree source configPath options false elapsed = .ok v ∧
        v.result.hasViolations = true := by
  rw [runValidation_eq]
  cases run tree source configPath options false elapsed with
  | error other => simp
  | ok v => simp

/-- A validation ends with the error of its first check that fails, or else with a report that lists
for every source the references forbidden to it; and it has violations, which the program tells by
its exit code, exactly if some source has a forbidden reference. -/
theorem run_refuses_or_reports (tree : FileTree) (source configPath : Path)
    (options : ValidationOptions) (color : Bool) (elapsed : UInt64) :
    (∀ error, run tree source configPath options color elapsed = .error error ↔
      Refuses tree source configPath options error) ∧
    ((∃ v, run tree source configPath options color elapsed = .ok v) ↔
      ∃ config a, Accepts tree source configPath options config a) ∧
    (∀ v, run tree source configPath options color elapsed = .ok v ↔
      ∃ config a, Accepts tree source configPath options config a ∧
        Reports tree source options color elapsed config a v) ∧
    ((∃ v, run tree source configPath options color elapsed = .ok v ∧
        v.result.hasViolations = true) ↔
      ∃ config a, Accepts tree source configPath options config a ∧
        HasForbidden tree source options config a) ∧
    (∀ error, Command.runValidation tree source (some configPath) options elapsed =
        ⟨1, "", some (.validation error), tree⟩ ↔ Refuses tree source configPath options error) ∧
    ((Command.runValidation tree source (some configPath) options elapsed).error? = none ∧
        (Command.runValidation tree source (some configPath) options elapsed).exitCode = 1 ↔
      ∃ config a, Accepts tree source configPath options config a ∧
        HasForbidden tree source options config a) := by
  refine ⟨run_eq_error_iff color elapsed, ⟨?_, ?_⟩, fun v => ?_,
    exists_hasViolations_iff color elapsed, runValidation_eq_failed_iff elapsed, ?_⟩
  · rintro ⟨v, ended⟩
    obtain ⟨config, a, accepted, _⟩ := (run_eq_ok_iff color elapsed v).mp ended
    exact ⟨config, a, accepted⟩
  · rintro ⟨config, a, accepted⟩
    exact ⟨_, accepted.run_eq color elapsed⟩
  · simp only [run_eq_ok_iff, reports_iff]
  · exact (runValidation_violated_iff elapsed).trans (exists_hasViolations_iff false elapsed)

end Validation
end LayerGuard
