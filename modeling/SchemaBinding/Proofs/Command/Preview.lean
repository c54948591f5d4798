import SchemaBinding.Proofs.Command.Steps
import SchemaBinding.Proofs.Project.Settings

/-!
# Previews

A run that only shows its binding goes through the same stages as one that
writes it, up to the writing.  What all these stages leave is a draft: it has
the content, and the path of each file is the one of the command line, or else
the one of the configuration, or else the usual one.
-/

namespace SchemaBinding

open Files

variable {session after : Session} {sources : Command.Sources} {settings : Settings}
  {entries : Toml.Entries} {tree : Tree} {styled : Bool}

namespace Command

/-! ## Drafts -/

/-- Where a run finds its schema. -/
def Sources.inputUnder (sources : Sources) (entries : Toml.Entries) : Path :=
  (sources.input <|> Settings.writtenPath? entries "input" "schema").getD ⟨"schema.json"⟩

/-- Where the binding of a run belongs. -/
def Sources.outputUnder (sources : Sources) (entries : Toml.Entries) : Path :=
  (sources.output <|> Settings.writtenPath? entries "output" "path").getD
    ⟨"./generated/binding.ts"⟩

theorem schema_override (h : Settings.ofEntries entries = .ok settings) :
    (settings.override sources.input sources.output).schema = sources.inputUnder entries := by
  show sources.input.getD settings.schema = _
  rw [(Settings.paths_of_ofEntries h).1, Sources.inputUnder]
  cases sources.input <;> rfl

theorem output_override (h : Settings.ofEntries entries = .ok settings) :
    (settings.override sources.input sources.output).output = sources.outputUnder entries := by
  show sources.output.getD settings.output = _
  rw [(Settings.paths_of_ofEntries h).2, Sources.outputUnder]
  cases sources.output <;> rfl

/-- What a run has at hand when it comes to write: every stage before has succeeded. -/
structure Draft (sources : Sources) (tree : Tree) where
  entries : Toml.Entries
  settings : Settings
  text : String
  schema : Schema
  options : Binding.Options
  configured : Settings.Configured sources.config tree entries
  loaded : Settings.ofEntries entries = .ok settings
  read : tree.readText (sources.inputUnder entries) = .ok text
  decoded : Introspection.loadText text = .ok schema
  chosen : settings.options? = some options

namespace Draft

def input (draft : Draft sources tree) : Path :=
  sources.inputUnder draft.entries

def output (draft : Draft sources tree) : Path :=
  sources.outputUnder draft.entries

/-- The binding, whose header names the files as the run does. -/
def content (draft : Draft sources tree) : String :=
  Binding.document draft.options ⟨draft.input.text, draft.output.text⟩ draft.schema

/-- What a run says of a draft before it writes or shows it. -/
def heading (styled : Bool) (draft : Draft sources tree) : List String :=
  [paint styled .cyan "Reading schema" ++ " " ++ draft.input.text,
    "  Rendered " ++ paint styled .green (toString draft.schema.types.size) ++ " type(s)"]

/-- A draft as it is shown: its content, between two rules. -/
def shown (styled : Bool) (draft : Draft sources tree) : List String :=
  [paint styled .yellow "[dry-run]" ++ " Would write to " ++ draft.output.text ++ ":",
    paint styled .dimmed ruler, draft.content, paint styled .dimmed ruler]

/-- The settings of the run, those of the command line included. -/
def effective (draft : Draft sources tree) : Settings :=
  draft.settings.override sources.input sources.output

theorem schema_effective (draft : Draft sources tree) : draft.effective.schema = draft.input :=
  schema_override draft.loaded

theorem output_effective (draft : Draft sources tree) : draft.effective.output = draft.output :=
  output_override draft.loaded

theorem settingsIn_eq (draft : Draft sources tree) :
    settingsIn sources tree = .ok draft.effective := by
  rw [settingsIn, Settings.inTree_eq_ok_iff.mpr ⟨_, draft.configured, draft.loaded⟩]
  rfl

theorem productIn_eq (draft : Draft sources tree) :
    draft.effective.productIn tree =
      .ok ⟨draft.output, draft.content, draft.schema.types.size⟩ := by
  refine Settings.productIn_eq_ok_iff.mpr ⟨draft.schema, draft.options, ?_, ?_, ?_⟩
  · rw [draft.schema_effective]
    exact schemaIn_eq_ok_iff.mpr ⟨draft.text, draft.read, draft.decoded⟩
  · exact Settings.options_eq_ok_iff.mpr draft.chosen
  · rw [draft.output_effective, Settings.paths, draft.schema_effective, draft.output_effective,
      content]

end Draft

/-- A run that comes to write has a draft. -/
theorem nonempty_draft {product : Product} (hsettings : settingsIn sources tree = .ok settings)
    (hproduct : settings.productIn tree = .ok product) : Nonempty (Draft sources tree) := by
  obtain ⟨loaded, hloaded, hoverride⟩ := bind_eq_ok hsettings
  obtain rfl := Except.ok.inj hoverride
  obtain ⟨entries, hconfigured, hentries⟩ := Settings.inTree_eq_ok_iff.mp hloaded
  obtain ⟨schema, options, hschema, hoptions, -⟩ := Settings.productIn_eq_ok_iff.mp hproduct
  obtain ⟨text, hread, hdecoded⟩ := schemaIn_eq_ok_iff.mp hschema
  rw [schema_override hentries] at hread
  exact ⟨⟨entries, loaded, text, schema, options, hconfigured, hentries, hread, hdecoded,
    Settings.options_eq_ok_iff.mp hoptions⟩⟩

/-! ## Both runs -/

/-- Lines that are said at once are said one after another. -/
theorem tell_intercalate {line : String} {lines : List String} (session : Session) :
    session.tell ["\n".intercalate (line :: lines)] = session.tell (line :: lines) := by
  induction lines generalizing session line with
  | nil => rw [String.intercalate_singleton]
  | cons next lines ih =>
    have hsplit : session.tell ["\n".intercalate (line :: next :: lines)] =
        (session.tell [line]).tell ["\n".intercalate (next :: lines)] := by
      rw [String.intercalate_cons_cons]
      show Session.mk _ (session.printed ++ _) = Session.mk _ (session.printed ++ _ ++ _)
      simp only [String.append_assoc]
      rfl
    rw [hsplit, ih]
    rfl

theorem run_generate_of_draft_preview (styled : Bool) (draft : Draft sources session.tree) :
    session.run (run styled (.generate sources false true)) =
      (.ok .nothing, session.tell (draft.heading styled ++ draft.shown styled)) := by
  have hsays : session.run (generateOnce styled true draft.effective) =
      (.ok (), session.tell (draft.heading styled ++ draft.shown styled)) := by
    rw [run_generateOnce_preview draft.productIn_eq, report, Session.tell_append,
      Session.tell_append, outset, draft.schema_effective]
    exact congrArg _ (tell_intercalate _)
  exact run_generate_of_settingsIn draft.settingsIn_eq hsays

/-- What is written is the content of the draft, and only writing it can fail. -/
theorem run_generate_of_draft (draft : Draft sources session.tree) :
    (∃ after last, session.run (run styled (.generate sources false false)) =
        (.ok .nothing, after) ∧
        after.printed = (session.tell (draft.heading styled ++ [last])).printed ∧
        ∃ location, after.tree.locate draft.output = .ok location ∧
          after.tree.entry? location = some (.file draft.content.toUTF8)) ∨
      ∃ after fault, session.run (run styled (.generate sources false false)) =
        (.error (.writing fault), after) := by
  rcases honce : session.run (generateOnce styled false draft.effective) with ⟨result, after⟩
  have hrun := run_generate_of_settingsIn draft.settingsIn_eq honce
  rcases generateOnce_cases honce with ⟨failure, hfailure, -, -⟩ | ⟨product, hproduct, hcases⟩
  · rw [draft.productIn_eq] at hfailure
    cases hfailure
  obtain rfl := Except.ok.inj (draft.productIn_eq.symm.trans hproduct)
  rcases hcases with ⟨delivery, rfl, hprinted, middle, -, hwritten⟩ | ⟨⟨fault, rfl⟩, -, -⟩
  · left
    obtain ⟨location, hlocate, hentry, -⟩ := hwritten.rewritten
    rw [draft.output_effective] at hlocate
    rw [report, outset, draft.schema_effective] at hprinted
    exact ⟨after, _, hrun, hprinted, location, hlocate, hentry⟩
  · exact Or.inr ⟨after, fault, hrun⟩

/-- Without a draft both runs fail alike. -/
theorem exists_failure_of_no_draft (styled : Bool)
    (h : ¬ Nonempty (Draft sources session.tree)) :
    ∃ failure told, ∀ preview,
      session.run (run styled (.generate sources false preview)) = (.error failure, told) := by
  cases hsettings : settingsIn sources session.tree with
  | error failure => exact ⟨failure, session, fun _ => run_generate_of_settings_error hsettings⟩
  | ok settings =>
    cases hproduct : settings.productIn session.tree with
    | error failure =>
      exact ⟨failure, _, fun _ =>
        run_generate_of_settingsIn hsettings (run_generateOnce_of_error hproduct)⟩
    | ok product => exact absurd (nonempty_draft hsettings hproduct) h

/-- A preview succeeds just where there is a draft, and shows its content.  The run that
writes then writes that content, and says the same of the schema, unless the writing fails.
Where the preview fails, the other run fails alike. -/
theorem preview_agrees (styled : Bool) (sources : Sources) (session : Session) :
    (exitCode? (session.run (run styled (.generate sources false true))).1 = some 0 ↔
        Nonempty (Draft sources session.tree)) ∧
      (∀ draft : Draft sources session.tree,
        session.run (run styled (.generate sources false true)) =
          (.ok .nothing, session.tell (draft.heading styled ++ draft.shown styled)) ∧
        ((∃ after last, session.run (run styled (.generate sources false false)) =
            (.ok .nothing, after) ∧
            after.printed = (session.tell (draft.heading styled ++ [last])).printed ∧
            ∃ location, after.tree.locate draft.output = .ok location ∧
              after.tree.entry? location = some (.file draft.content.toUTF8)) ∨
          ∃ after fault, session.run (run styled (.generate sources false false)) =
            (.error (.writing fault), after))) ∧
      ∀ failure told,
        session.run (run styled (.generate sources false true)) = (.error failure, told) →
        session.run (run styled (.generate sources false false)) = (.error failure, told) := by
  have hdraft (draft : Draft sources session.tree) :=
    run_generate_of_draft_preview styled draft
  refine ⟨⟨fun hexit => ?_, fun ⟨draft⟩ => ?_⟩, fun draft => ?_, fun failure told hfails => ?_⟩
  · by_contra hnone
    obtain ⟨failure, told, hruns⟩ := exists_failure_of_no_draft styled hnone
    rw [hruns true] at hexit
    exact exitCode_ne_zero failure (Option.some.inj hexit)
  · rw [hdraft draft]
    rfl
  · exact ⟨hdraft draft, run_generate_of_draft draft⟩
  · have hnone : ¬ Nonempty (Draft sources session.tree) := by
      rintro ⟨draft⟩
      rw [hdraft draft] at hfails
      cases hfails
    obtain ⟨_, _, hruns⟩ := exists_failure_of_no_draft styled hnone
    exact (hruns false).trans ((hruns true).symm.trans hfails)

/-- The new project with a configuration. -/
def configuredProject : Tree where
  entries := (["project", "graphql-bindgen.toml"], .file
    ("[input]\nschema = \"./schema.json\"\n\n[output]\npath = \"written.ts\"\n\n" ++
      "[generator]\ndeclaration_order = \"name\"\n").toUTF8) :: newProject.entries
  here := ["project"]

def configuredSession : Session :=
  ⟨configuredProject, ""⟩

/-- Sources that only say where the binding belongs. -/
def chosenSources : Sources where
  output := some ⟨"chosen.ts"⟩

/-- The path of the schema is the one of the configuration and that of the binding is not. -/
theorem preview_agrees_configuredProject :
    (∃ draft : Draft chosenSources configuredSession.tree,
      draft.input = ⟨"./schema.json"⟩ ∧ draft.output = ⟨"chosen.ts"⟩ ∧
      configuredSession.run (run false (.generate chosenSources false true)) =
        (.ok .nothing, configuredSession.tell (draft.heading false ++ draft.shown false)) ∧
      ∃ after location, configuredSession.run (run false (.generate chosenSources false false)) =
        (.ok .nothing, after) ∧ after.tree.locate ⟨"chosen.ts"⟩ = .ok location ∧
        after.tree.entry? location = some (.file draft.content.toUTF8)) ∧
      ∃ failure told,
        configuredSession.run (run false (.generate missingSources false true)) =
          (.error failure, told) ∧
        configuredSession.run (run false (.generate missingSources false false)) =
          (.error failure, told) := by
  have hshown : exitCode?
      (configuredSession.run (run false (.generate chosenSources false true))).1 = some 0 := by
    decide +kernel
  have hdone : exitCode?
      (configuredSession.run (run false (.generate chosenSources false false))).1 = some 0 := by
    decide +kernel
  have hmissing : exitCode?
      (configuredSession.run (run false (.generate missingSources false true))).1 = some 1 := by
    decide +kernel
  have hschema : (settingsIn chosenSources configuredSession.tree).toOption.map Settings.schema =
      some ⟨"./schema.json"⟩ := by
    decide +kernel
  constructor
  · obtain ⟨hready, hdraft, -⟩ := preview_agrees false chosenSources configuredSession
    obtain ⟨draft⟩ := hready.mp hshown
    obtain ⟨hpreview, ⟨after, _, hrun, -, location, hlocate, hentry⟩ | ⟨_, fault, hrun⟩⟩ :=
      hdraft draft
    · rw [draft.settingsIn_eq] at hschema
      exact ⟨draft, draft.schema_effective.symm.trans (Option.some.inj hschema), rfl, hpreview,
        after, location, hrun, hlocate, hentry⟩
    · rw [hrun] at hdone
      cases hdone
  · obtain ⟨-, -, hfails⟩ := preview_agrees false missingSources configuredSession
    rcases hrun : configuredSession.run (run false (.generate missingSources false true)) with
      ⟨failure | ⟨_ | _⟩, told⟩
    · exact ⟨failure, told, rfl, hfails failure told hrun⟩
    all_goals
      rw [hrun] at hmissing
      cases hmissing

end Command

end SchemaBinding
