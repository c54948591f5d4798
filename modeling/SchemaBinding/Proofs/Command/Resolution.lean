import SchemaBinding.Proofs.Command.Verdict
import SchemaBinding.Proofs.Project.Resolution

/-!
# Runs and their settings

The settings of a run come from its command line, its configuration and the
usual values, key by key.  Only one of them can have a value of its type that
means nothing, the order of declarations.  It is looked at when the schema has
been loaded, by the commands that make the binding and by no others.
-/

namespace SchemaBinding

open Files

namespace Command

variable {session : Session} {sources : Sources} {settings : Settings} {schema : Schema}
  {product : Product} {tree : Tree} {entries : Toml.Entries} {path : Path} {styled : Bool}

/-! ## Settings -/

theorem settingsIn_of_wellTyped (hconfigured : Settings.Configured sources.config tree entries)
    (htables : Settings.SectionsAreTables entries) (htyped : Settings.WellTyped entries) :
    settingsIn sources tree = .ok (Settings.resolve sources.input sources.output entries) := by
  rw [settingsIn, Settings.inTree_of_configured hconfigured,
    (Settings.ofEntries_eq_ok_iff htables).mpr ⟨htyped, rfl⟩]
  rfl

theorem exists_settingsIn_of_not_wellTyped
    (hconfigured : Settings.Configured sources.config tree entries)
    (htables : Settings.SectionsAreTables entries) (htyped : ¬ Settings.WellTyped entries) :
    ∃ reason, settingsIn sources tree =
      .error (.settings (.invalidDocument (sources.config.getD usualConfiguration) reason)) := by
  rw [settingsIn, Settings.inTree_of_configured hconfigured]
  cases hsettings : Settings.ofEntries entries with
  | error fault => exact ⟨fault.message, rfl⟩
  | ok settings => exact absurd ((Settings.ofEntries_eq_ok_iff htables).mp hsettings).1 htyped

/-! ## Orders of declarations -/

theorem productIn_of_options_error {failure : Failure}
    (hschema : schemaIn settings.schema tree = .ok schema)
    (hoptions : settings.options = .error failure) : settings.productIn tree = .error failure := by
  rw [Settings.productIn, hschema]
  show settings.product schema = _
  rw [Settings.product, hoptions]
  rfl

theorem exists_productIn_of_known (hschema : schemaIn settings.schema tree = .ok schema)
    (h : settings.HasKnownOrder) : ∃ product, settings.productIn tree = .ok product := by
  obtain ⟨options, hoptions⟩ := Settings.exists_options_of_known h
  exact ⟨_, Settings.productIn_eq_ok_iff.mpr ⟨schema, options, hschema, hoptions, rfl⟩⟩

/-- The runs that need the order of declarations fail for it alone: the schema has been loaded,
and no file is changed.  A run that watches goes on. -/
structure RefusesOrder (styled : Bool) (sources : Sources) (settings : Settings)
    (session : Session) : Prop where
  exitCode : (Settings.unknownOrder settings.order).exitCode = 1
  generate : ∀ preview, session.run (run styled (.generate sources false preview)) =
    (.error (Settings.unknownOrder settings.order), session.tell [readingLine styled settings])
  generateAgain : ∀ preview, session.run (generateAgain styled preview settings) =
    (.ok (), session.tell [readingLine styled settings, paint styled .red "Generation error:" ++
      " " ++ (Settings.unknownOrder settings.order).message])
  validate : ∀ binding,
    (session.run (run styled (.validate binding sources))).2.tree = session.tree ∧
      ((session.run (run styled (.validate binding sources))).1 =
          .error (Settings.unknownOrder settings.order) ↔
        ∃ text, session.tree.readText (binding.getD settings.output) = .ok text)

/-- The runs that need the order of declarations do not fail for a setting. -/
structure AcceptsOrder (styled : Bool) (sources : Sources) (session : Session) : Prop where
  generate : ∀ preview fault,
    (session.run (run styled (.generate sources false preview))).1 ≠ .error (.settings fault)
  validate : ∀ binding fault,
    (session.run (run styled (.validate binding sources))).1 ≠ .error (.settings fault)

/-- A check comes to the options only by way of the file that it checks. -/
theorem checkIn_eq_error_iff
    (hproduct : settings.productIn tree = .error (Settings.unknownOrder settings.order)) :
    checkIn settings path tree = .error (Settings.unknownOrder settings.order) ↔
      ∃ text, tree.readText path = .ok text := by
  constructor
  · intro hcheck
    by_contra hunread
    cases hpresent : tree.isPresent path with
    | false =>
      rw [checkIn_of_absent hpresent] at hcheck
      cases hcheck
    | true =>
      obtain ⟨fault, haccess⟩ := exists_checkIn_of_unreadable hpresent (not_exists.mp hunread)
      rw [haccess] at hcheck
      cases hcheck
  · rintro ⟨text, hread⟩
    rw [checkIn_of_readText settings hread, hproduct]
    rfl

theorem refusesOrder_of_unknown (hsettings : settingsIn sources session.tree = .ok settings)
    (hschema : schemaIn settings.schema session.tree = .ok schema)
    (h : ¬ settings.HasKnownOrder) : RefusesOrder styled sources settings session := by
  have hproduct := productIn_of_options_error hschema (Settings.options_of_unknown h)
  refine ⟨rfl, fun preview => ?_, fun preview => ?_, fun binding => ⟨?_, ?_⟩⟩
  · exact run_generate_of_settingsIn hsettings (run_generateOnce_of_error hproduct)
  · exact run_tryCatch_of_error (run_generateOnce_of_error hproduct) _
  · exact (looks_run_validate styled binding sources session).2
  · rw [fst_run_validate_of_checkIn hsettings rfl, ← checkIn_eq_error_iff hproduct]
    cases checkIn settings (binding.getD settings.output) session.tree with
    | error told => rw [Except.map, Except.error.injEq, Except.error.injEq]
    | ok value =>
      constructor
      · rintro ⟨⟩
      · rintro ⟨⟩

theorem fst_run_generateOnce_ne_settings {preview : Bool}
    (hproduct : settings.productIn session.tree = .ok product) (fault : SettingsFault) :
    (session.run (generateOnce styled preview settings)).1 ≠ .error (.settings fault) := by
  cases preview with
  | true =>
    rw [run_generateOnce_preview hproduct]
    exact nofun
  | false =>
    rcases hrun : session.run (generateOnce styled false settings) with ⟨result, after⟩
    rcases generateOnce_cases hrun with ⟨failure, hfailure, -⟩ | ⟨_, -, hcases⟩
    · rw [hproduct] at hfailure
      cases hfailure
    · rcases hcases with ⟨_, rfl, -⟩ | ⟨⟨_, rfl⟩, -⟩
      · exact nofun
      · exact nofun

theorem checkIn_ne_settings (hproduct : settings.productIn tree = .ok product)
    (fault : SettingsFault) : checkIn settings path tree ≠ .error (.settings fault) := by
  rw [checkIn]
  split
  · rw [comparisonIn, hproduct]
    cases tree.readText path with
    | error fault => rintro ⟨⟩
    | ok old =>
      show (if Text.sameTrimmed old product.content then _ else _) ≠ _
      split
      · rintro ⟨⟩
      · rintro ⟨⟩
  · rintro ⟨⟩

theorem map_ne_error {α β : Type} {result : Except Failure α} {failure : Failure}
    (h : result ≠ .error failure) (f : α → β) : result.map f ≠ .error failure := by
  cases result with
  | error told => exact fun heq => h (congrArg Except.error (Except.error.inj heq))
  | ok value => exact nofun

theorem acceptsOrder_of_known (hsettings : settingsIn sources session.tree = .ok settings)
    (hschema : schemaIn settings.schema session.tree = .ok schema)
    (h : settings.HasKnownOrder) : AcceptsOrder styled sources session := by
  obtain ⟨product, hproduct⟩ := exists_productIn_of_known hschema h
  refine ⟨fun preview fault => ?_, fun binding fault => ?_⟩
  · have honce : (session.run (generateOnce styled preview settings)).1 ≠
        .error (.settings fault) :=
      fst_run_generateOnce_ne_settings hproduct fault
    rw [run_generate_of_settingsIn hsettings rfl]
    exact map_ne_error honce _
  · rw [fst_run_validate_of_checkIn hsettings rfl]
    exact map_ne_error (checkIn_ne_settings hproduct fault) _

/-- Printing a schema does not ask for an order. -/
theorem run_printSchema (hsettings : settingsIn sources session.tree = .ok settings)
    (hschema : schemaIn settings.schema session.tree = .ok schema) :
    session.run (run styled (.printSchema sources)) =
      (.ok .nothing, { session with printed := session.printed ++ Sdl.document schema }) := by
  have hprint : session.run (printDocument settings) =
      (.ok (), { session with printed := session.printed ++ Sdl.document schema }) := by
    rw [printDocument, run_bind_of_ok ((reads_loadSchema _).run_eq_ok hschema)]
    rfl
  rw [run, run_bind_of_ok ((reads_settingsOf sources).run_eq_ok hsettings),
    run_bind_of_ok hprint]
  rfl

/-! ## Runs -/

/-- Where the sections of a configuration are tables, its settings can be made just where each
key that is there has a value of its type, whatever else the document says.  Each setting is
then the one of the command line, or else the one under its own key, or else the usual one;
all of them reach the options, the scalars entry for entry.  The options cannot be made just
where the order of declarations is unknown.  So a run that has loaded its schema, and the
binding to compare with if there is one, fails for a setting just then. -/
theorem settings_by_key (styled : Bool) (sources : Sources) (session : Session)
    {entries : Toml.Entries}
    (hconfigured : Settings.Configured sources.config session.tree entries)
    (htables : Settings.SectionsAreTables entries) :
    (∀ settings, session.run (settingsOf sources) = (.ok settings, session) ↔
      Settings.WellTyped entries ∧
        settings = Settings.resolve sources.input sources.output entries) ∧
    (¬ Settings.WellTyped entries → ∃ reason, session.run (settingsOf sources) =
      (.error (.settings (.invalidDocument (sources.config.getD usualConfiguration) reason)),
        session)) ∧
    ∀ settings, session.run (settingsOf sources) = (.ok settings, session) →
      (settings.HasKnownOrder ↔ ∃ options, settings.options = .ok options) ∧
      (¬ settings.HasKnownOrder →
        settings.options = .error (Settings.unknownOrder settings.order)) ∧
      (∀ options, settings.options = .ok options →
        Settings.CarriedOver entries settings options) ∧
      ∀ schema, session.run (loadSchema settings.schema) = (.ok schema, session) →
        (settings.HasKnownOrder → AcceptsOrder styled sources session) ∧
        (¬ settings.HasKnownOrder → RefusesOrder styled sources settings session) ∧
        (session.run (run styled (.printSchema sources))).1 = .ok .nothing := by
  have hreads := reads_settingsOf sources session
  have hfound : ∀ settings, session.run (settingsOf sources) = (.ok settings, session) ↔
      Settings.WellTyped entries ∧
        settings = Settings.resolve sources.input sources.output entries := by
    intro settings
    by_cases htyped : Settings.WellTyped entries
    · rw [hreads, settingsIn_of_wellTyped hconfigured htables htyped]
      simp [htyped, eq_comm]
    · obtain ⟨reason, hreason⟩ := exists_settingsIn_of_not_wellTyped hconfigured htables htyped
      rw [hreads, hreason]
      simp [htyped]
  refine ⟨hfound, fun htyped => ?_, fun settings hsettings => ?_⟩
  · obtain ⟨reason, hreason⟩ := exists_settingsIn_of_not_wellTyped hconfigured htables htyped
    exact ⟨reason, by rw [hreads, hreason]⟩
  obtain ⟨htyped, hresolved⟩ := (hfound settings).mp hsettings
  have hin := ((reads_settingsOf sources).of_run_eq_ok hsettings).1
  refine ⟨⟨Settings.exists_options_of_known, ?_⟩, Settings.options_of_unknown, ?_, ?_⟩
  · rintro ⟨options, hoptions⟩
    by_contra hunknown
    rw [Settings.options_of_unknown hunknown] at hoptions
    cases hoptions
  · intro options hoptions
    subst hresolved
    exact Settings.carriedOver_of_options (Settings.keyed_of_configured hconfigured) htyped hoptions
  · intro schema hload
    have hschema := ((reads_loadSchema _).of_run_eq_ok hload).1
    refine ⟨acceptsOrder_of_known hin hschema, refusesOrder_of_unknown hin hschema, ?_⟩
    rw [run_printSchema hin hschema]

/-- A configuration that leaves settings out, and that says more than is looked at. -/
def sizedConfiguration : String :=
  "[generator]\ngenerate_docs = false\ndeclaration_order = \"size\"\n\n" ++
    "[scalars]\nJSON = \"any\"\n\n[plugins]\npath = 1\n"

/-- A configuration whose one setting is of a wrong type. -/
def countedConfiguration : String :=
  "[input]\nschema = 1\n"

/-- The settings of `sizedConfiguration` where the command line has an empty path. -/
def sizedSettings : Settings where
  output := ⟨""⟩
  docs := false
  order := "size"
  scalars := [("JSON", "any")]

/-- Sources whose binding belongs at an empty path. -/
def namelessSources : Sources where
  output := some ⟨""⟩

theorem exists_loadSchema (h : (schemaIn path session.tree).isOk = true) :
    ∃ schema, session.run (loadSchema path) = (.ok schema, session) := by
  cases hschema : schemaIn path session.tree with
  | ok schema => exact ⟨schema, (reads_loadSchema path).run_eq_ok hschema⟩
  | error failure =>
    rw [hschema] at h
    cases h

def entriesOf (text : String) : Toml.Entries :=
  (Toml.read text).toOption.getD []

/-- A document that can be read is the configuration of a new project with it. -/
theorem configured_newProjectWith {text : String} (hok : (Toml.read text).isOk = true)
    (husable : Settings.unusable? (entriesOf text) = none) :
    Settings.Configured none (newProjectWith "graphql-bindgen.toml" text).tree
      (entriesOf text) := by
  have hlocate : (newProjectWith "graphql-bindgen.toml" text).tree.locate usualConfiguration =
      .ok ["project", "graphql-bindgen.toml"] := rfl
  have hentries : Toml.read text = .ok (entriesOf text) := by
    rw [entriesOf]
    cases hread : Toml.read text with
    | ok entries => rfl
    | error fault =>
      rw [hread] at hok
      cases hok
  exact .read (Tree.readText_of_file hlocate rfl) hentries husable

/-- An order that is unknown, a setting of a wrong type, and no configuration at all. -/
theorem settings_by_key_newProject :
    (∃ session : Session, session = newProjectWith "graphql-bindgen.toml" sizedConfiguration ∧
      session.run (settingsOf namelessSources) = (.ok sizedSettings, session) ∧
      (∀ options, sizedSettings.options ≠ .ok options) ∧
      RefusesOrder false namelessSources sizedSettings session) ∧
    (∃ reason, ((newProjectWith "graphql-bindgen.toml" countedConfiguration).run
      (settingsOf {})).1 = .error (.settings (.invalidDocument usualConfiguration reason))) ∧
    newSession.run (settingsOf {}) = (.ok {}, newSession) ∧ AcceptsOrder false {} newSession := by
  refine ⟨⟨_, rfl, ?_⟩, ?_, ?_⟩
  · have hentries : (Toml.read sizedConfiguration).isOk = true ∧
        Settings.unusable? (entriesOf sizedConfiguration) = none ∧
        Settings.SectionsAreTables (entriesOf sizedConfiguration) ∧
        Settings.WellTyped (entriesOf sizedConfiguration) ∧
        sizedSettings = Settings.resolve none (some ⟨""⟩) (entriesOf sizedConfiguration) := by
      decide +kernel
    obtain ⟨hok, husable, htables, htyped, hresolved⟩ := hentries
    obtain ⟨hfound, -, hcarried⟩ := settings_by_key false namelessSources
      (newProjectWith "graphql-bindgen.toml" sizedConfiguration)
      (configured_newProjectWith hok husable) htables
    have hsettings := (hfound sizedSettings).mpr ⟨htyped, hresolved⟩
    obtain ⟨hknown, -, -, hloaded⟩ := hcarried _ hsettings
    have hunknown : ¬ sizedSettings.HasKnownOrder := by
      rintro (hkind | hname)
      · exact absurd hkind (by decide)
      · exact absurd hname (by decide)
    have hschema : (schemaIn sizedSettings.schema
        (newProjectWith "graphql-bindgen.toml" sizedConfiguration).tree).isOk = true := by
      decide +kernel
    obtain ⟨schema, hschema⟩ := exists_loadSchema hschema
    obtain ⟨-, hrefuses, -⟩ := hloaded schema hschema
    exact ⟨hsettings, fun options hoptions => hunknown (hknown.mpr ⟨options, hoptions⟩),
      hrefuses hunknown⟩
  · have hentries : (Toml.read countedConfiguration).isOk = true ∧
        Settings.unusable? (entriesOf countedConfiguration) = none ∧
        Settings.SectionsAreTables (entriesOf countedConfiguration) ∧
        ¬ Settings.WellTyped (entriesOf countedConfiguration) := by
      decide +kernel
    obtain ⟨hok, husable, htables, hmistyped⟩ := hentries
    obtain ⟨-, hfails, -⟩ := settings_by_key false {}
      (newProjectWith "graphql-bindgen.toml" countedConfiguration)
      (configured_newProjectWith hok husable) htables
    obtain ⟨reason, hreason⟩ := hfails hmistyped
    exact ⟨reason, congrArg Prod.fst hreason⟩
  · obtain ⟨hfound, -, hcarried⟩ := settings_by_key false {} newSession
      (.missing rfl rfl) (by decide)
    have hsettings := (hfound {}).mpr ⟨by decide, rfl⟩
    obtain ⟨-, -, -, hloaded⟩ := hcarried _ hsettings
    have hschema : (schemaIn ⟨"schema.json"⟩ newSession.tree).isOk = true := by
      decide +kernel
    obtain ⟨schema, hschema⟩ := exists_loadSchema hschema
    obtain ⟨haccepts, -, -⟩ := hloaded schema hschema
    exact ⟨hsettings, haccepts (Or.inl rfl)⟩

end Command

end SchemaBinding
