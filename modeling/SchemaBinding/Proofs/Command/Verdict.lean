import SchemaBinding.Proofs.Command.FixedPoint
import SchemaBinding.Proofs.Files.Agreeing
import SchemaBinding.Proofs.Project.Writing
import SchemaBinding.Proofs.Text.Trimming

/-!
# The verdict of a check

A check compares what stands at a path with the binding that a run would write.
What it comes to follows from the settings, from the file at the path and from
the binding, in this order.  So it depends on three files, and on a path only by
where the path leads.  A binding that a run reports as up to date passes the
check, and so does one that differs in the white space at its ends.
-/

namespace SchemaBinding

open Files

namespace Command

variable {session after : Session} {sources : Sources} {settings : Settings} {product : Product}
  {tree other : Tree} {path : Path} {binding : Option Path} {styled : Bool}

/-! ## What a check comes to -/

/-- What a run that checks a binding comes to in a tree. -/
def validateIn (binding : Option Path) (sources : Sources) (tree : Tree) :
    Except Failure Remainder := do
  let settings ← settingsIn sources tree
  checkIn settings (binding.getD settings.output) tree
  return .nothing

theorem looks_run_validate (styled : Bool) (binding : Option Path) (sources : Sources) :
    Looks (run styled (.validate binding sources) : ExceptT Failure SessionM Remainder)
      (validateIn binding sources) := by
  intro session
  rw [run, run_bind_of_ok (run_say _ _), ← Session.tree_tell session [_]]
  suffices h : Looks _ (validateIn binding sources) from h (session.tell [_])
  refine .bind (reads_settingsOf sources).looks fun settings => ?_
  exact .bind (looks_checkBinding styled settings _) fun _ _ => ⟨rfl, rfl⟩

theorem fst_run_validate (styled : Bool) (binding : Option Path) (sources : Sources)
    (session : Session) :
    (session.run (run styled (.validate binding sources))).1 =
      validateIn binding sources session.tree :=
  (looks_run_validate styled binding sources session).1

theorem fst_run_validate_of_checkIn {result : Except Failure Unit}
    (hsettings : settingsIn sources session.tree = .ok settings)
    (hcheck : checkIn settings (binding.getD settings.output) session.tree = result) :
    (session.run (run styled (.validate binding sources))).1 =
      result.map fun _ => Remainder.nothing := by
  rw [fst_run_validate, validateIn, hsettings]
  show (checkIn settings _ session.tree >>= fun _ => Except.ok Remainder.nothing) = _
  rw [hcheck]
  cases result <;> rfl

/-- The code that a check exits with. -/
def validationCode? (styled : Bool) (binding : Option Path) (sources : Sources)
    (session : Session) : Option UInt8 :=
  exitCode? (session.run (run styled (.validate binding sources))).1

theorem checkIn_of_absent (habsent : tree.isPresent path = false) :
    checkIn settings path tree = .error (.validation ("Binding file not found: " ++ path.text)) := by
  rw [checkIn, habsent, if_neg Bool.false_ne_true]

theorem checkIn_of_readText (settings : Settings) {text : String}
    (hread : tree.readText path = .ok text) :
    checkIn settings path tree = settings.productIn tree >>= fun product =>
      if Text.sameTrimmed text product.content then .ok ()
      else .error (.validation "Binding is out of date") := by
  rw [checkIn, if_pos (Tree.isPresent_of_readText hread), comparisonIn,
    mapError_eq_ok_iff.mpr hread]
  rfl

theorem exists_checkIn_of_unreadable (hpresent : tree.isPresent path = true)
    (hread : ∀ text, tree.readText path ≠ .ok text) :
    ∃ fault, checkIn settings path tree = .error (.access fault) := by
  rw [checkIn, if_pos hpresent, comparisonIn]
  cases htext : tree.readText path with
  | error fault => exact ⟨fault, rfl⟩
  | ok text => exact absurd htext (hread text)

/-- A path counts by where it leads. -/
theorem checkIn_congr {other : Path} {location : Location} (hpath : tree.locate path = .ok location)
    (hother : tree.locate other = .ok location) :
    checkIn settings path tree = checkIn settings other tree := by
  have hread : tree.readText path = tree.readText other :=
    Tree.readText_congr (hpath.trans hother.symm)
  rw [checkIn, checkIn, if_pos (Tree.isPresent_eq_true_iff.mpr ⟨location, hpath⟩),
    if_pos (Tree.isPresent_eq_true_iff.mpr ⟨location, hother⟩), comparisonIn, comparisonIn, hread]

/-! ## Files that do not matter -/

/-- Two results are the same up to the words of a failure. -/
def SameOutcome {α : Type} (x y : Except Failure α) : Prop :=
  x.mapError Failure.exitCode = y.mapError Failure.exitCode

namespace SameOutcome

variable {α β : Type} {x y : Except Failure α}

theorem refl (x : Except Failure α) : SameOutcome x x := rfl

theorem bind {f g : α → Except Failure β} (h : SameOutcome x y)
    (hnext : ∀ a, y = .ok a → SameOutcome (f a) (g a)) : SameOutcome (x >>= f) (y >>= g) := by
  cases x with
  | error failure =>
    cases y with
    | error told => exact congrArg Except.error (Except.error.inj h)
    | ok a => cases h
  | ok a =>
    cases y with
    | error told => cases h
    | ok b =>
      obtain rfl := Except.ok.inj h
      exact hnext a rfl

theorem exitCode?_eq {x y : Except Failure Remainder} (h : SameOutcome x y) :
    exitCode? x = exitCode? y := by
  cases x with
  | error failure =>
    cases y with
    | error told => exact congrArg some (Except.error.inj h)
    | ok remainder => cases h
  | ok remainder =>
    cases y with
    | error told => cases h
    | ok other => exact congrArg exitCode? (congrArg Except.ok (Except.ok.inj h))

end SameOutcome

section Agreeing

variable {paths : Path → Prop} (h : Tree.AgreeAt paths tree other)

include h

/-- Of a file that is read only the text matters, and whether there is one. -/
theorem sameOutcome_readText (hpath : paths path) {failure : Fault → Failure} {code : UInt8}
    (hcode : ∀ fault, (failure fault).exitCode = code) :
    SameOutcome ((other.readText path).mapError failure)
      ((tree.readText path).mapError failure) := by
  cases hread : tree.readText path with
  | ok text => rw [h.readText hpath hread, SameOutcome]
  | error fault =>
    cases hother : other.readText path with
    | ok text =>
      rw [h.symm.readText hpath hother] at hread
      cases hread
    | error told => exact congrArg Except.error ((hcode told).trans (hcode fault).symm)

theorem sameOutcome_settingsIn (hpath : paths (sources.config.getD usualConfiguration)) :
    SameOutcome (settingsIn sources other) (settingsIn sources tree) := by
  refine SameOutcome.bind ?_ fun _ _ => .refl _
  rw [Settings.inTree, Settings.inTree, h.isPresent_eq hpath]
  split
  · exact .bind (sameOutcome_readText h hpath fun _ => rfl) fun _ _ => .refl _
  · exact .refl _

theorem sameOutcome_productIn (hpath : paths settings.schema) :
    SameOutcome (settings.productIn other) (settings.productIn tree) := by
  refine SameOutcome.bind ?_ fun _ _ => .refl _
  exact .bind (sameOutcome_readText h hpath fun _ => rfl) fun _ _ => .refl _

theorem sameOutcome_checkIn (hpath : paths path) (hschema : paths settings.schema) :
    SameOutcome (checkIn settings path other) (checkIn settings path tree) := by
  rw [checkIn, checkIn, h.isPresent_eq hpath]
  split
  · refine SameOutcome.bind (sameOutcome_readText h hpath fun _ => rfl) fun _ _ => ?_
    exact .bind (sameOutcome_productIn h hschema) fun _ _ => .refl _
  · exact .refl _

end Agreeing

/-- The paths that a check looks at: of its configuration, of its schema and of the binding. -/
inductive Consults (binding : Option Path) (sources : Sources) (tree : Tree) : Path → Prop
  | configuration : Consults binding sources tree (sources.config.getD usualConfiguration)
  | schema {settings : Settings} (h : settingsIn sources tree = .ok settings) :
    Consults binding sources tree settings.schema
  | binding {settings : Settings} (h : settingsIn sources tree = .ok settings) :
    Consults binding sources tree (binding.getD settings.output)

theorem sameOutcome_validateIn (h : Tree.AgreeAt (Consults binding sources tree) tree other) :
    SameOutcome (validateIn binding sources other) (validateIn binding sources tree) := by
  refine SameOutcome.bind (sameOutcome_settingsIn h .configuration) fun settings hsettings => ?_
  exact .bind (sameOutcome_checkIn h (.binding hsettings) (.schema hsettings)) fun _ _ => .refl _

/-! ## Reports -/

/-- A report that a binding is up to date is shorter than one that it was written, so it is
told apart from it, whatever the path is. -/
theorem readText_of_report_unchanged (hproduct : settings.productIn session.tree = .ok product)
    (hrun : session.run (generateOnce styled false settings) = (.ok (), after))
    (hreport : after.printed = (session.tell (report styled settings product .unchanged)).printed) :
    session.tree.readText settings.output = .ok product.content := by
  by_contra hread
  rcases hdeliver : (session.tell (outset styled settings product)).run
    (deliver false product.path product.content) with ⟨failure | delivery, last⟩
  · rw [run_generateOnce_of_deliver_error hproduct hdeliver] at hrun
    cases hrun
  · rw [run_generateOnce_of_deliver hproduct hdeliver] at hrun
    cases hrun
    have hwritten : delivery = .written product.content.utf8ByteSize := by
      refine delivery_eq_written ?_ hdeliver
      rwa [Session.tree_tell, path_of_productIn hproduct]
    have hprinted : last.printed = (session.tell (outset styled settings product)).printed :=
      (deliver_cases hdeliver).1
    have hlength := congrArg String.length hreport
    simp only [hwritten, report, deliveryLines, Session.printed_tell, hprinted, List.map_append,
      String.intercalate_singleton, List.map_cons, List.map_nil, String.join_append,
      String.join_cons, String.join_nil, String.length_append] at hlength
    have hwords : " Written ".length = 9 ∧ " bytes to ".length = 10 ∧ " ".length = 1 ∧
        " is up-to-date".length = 14 := by
      decide
    omega

/-! ## The verdict -/

/-- Of a file that can be read, a check says what a preview of the binding says. -/
theorem verdict_of_readText {text : String} (styled : Bool)
    (hsettings : settingsIn sources session.tree = .ok settings)
    (hread : session.tree.readText (binding.getD settings.output) = .ok text) :
    (∀ failure told,
      session.run (run styled (.generate sources false true)) = (.error failure, told) →
      (session.run (run styled (.validate binding sources))).1 = .error failure) ∧
    ∀ remainder shown,
      session.run (run styled (.generate sources false true)) = (.ok remainder, shown) →
      ∃ product, session.run settings.generate = (.ok product, session) ∧
        shown = session.tell (report styled settings product .previewed) ∧
        (validationCode? styled binding sources session = some 0 ↔
          Text.SameCore text product.content) ∧
        (validationCode? styled binding sources session = some 2 ↔
          ¬ Text.SameCore text product.content) := by
  have hcheck := checkIn_of_readText settings hread
  cases hproduct : settings.productIn session.tree with
  | error failure =>
    rw [hproduct] at hcheck
    rw [run_generate_of_settingsIn hsettings (run_generateOnce_of_error hproduct),
      fst_run_validate_of_checkIn hsettings hcheck]
    constructor
    · rintro _ _ ⟨⟩
      rfl
    · rintro _ _ ⟨⟩
  | ok product =>
    rw [hproduct] at hcheck
    rw [run_generate_of_settingsIn hsettings (run_generateOnce_preview hproduct)]
    constructor
    · rintro _ _ ⟨⟩
    · rintro _ _ ⟨⟩
      refine ⟨product, (Settings.reads_generate settings).run_eq_ok hproduct, rfl, ?_⟩
      rw [validationCode?, fst_run_validate_of_checkIn hsettings hcheck,
        ← Text.sameTrimmed_eq_true_iff]
      cases hsame : Text.sameTrimmed text product.content with
      | true => simp [bind, Except.bind, hsame, Except.map, exitCode?]
      | false => simp [bind, Except.bind, hsame, Except.map, exitCode?, Failure.exitCode]

/-- A check fails for its settings as a run does that writes or shows the binding.  Else it
exits with 2 where nothing is at the path, with 1 where no text can be read there, and with the
failure of a preview where that fails; and else with 0 or 2, as the file and the binding of the
preview are the same but for white space at their ends, or not.  So it does not matter how the
path is written or what other files hold, and a binding that is reported as up to date passes. -/
theorem validate_verdict (styled : Bool) (binding : Option Path) (sources : Sources)
    (session : Session) :
    (∀ failure, (session.run (settingsOf sources)).1 = .error failure →
      (session.run (run styled (.validate binding sources))).1 = .error failure ∧
      ∀ watch preview,
        session.run (run styled (.generate sources watch preview)) = (.error failure, session)) ∧
    (∀ settings, (session.run (settingsOf sources)).1 = .ok settings →
      (session.tree.isPresent (binding.getD settings.output) = false →
        validationCode? styled binding sources session = some 2) ∧
      (session.tree.isPresent (binding.getD settings.output) = true →
        (∀ text, session.tree.readText (binding.getD settings.output) ≠ .ok text) →
        validationCode? styled binding sources session = some 1) ∧
      ∀ text, session.tree.readText (binding.getD settings.output) = .ok text →
        (∀ failure told,
          session.run (run styled (.generate sources false true)) = (.error failure, told) →
          (session.run (run styled (.validate binding sources))).1 = .error failure) ∧
        ∀ remainder shown,
          session.run (run styled (.generate sources false true)) = (.ok remainder, shown) →
          ∃ product, session.run settings.generate = (.ok product, session) ∧
            shown = session.tell (report styled settings product .previewed) ∧
            (validationCode? styled binding sources session = some 0 ↔
              Text.SameCore text product.content) ∧
            (validationCode? styled binding sources session = some 2 ↔
              ¬ Text.SameCore text product.content)) ∧
    (∀ path other location, session.tree.locate path = .ok location →
      session.tree.locate other = .ok location →
      (session.run (run styled (.validate (some path) sources))).1 =
        (session.run (run styled (.validate (some other) sources))).1) ∧
    (∀ other : Session, Tree.AgreeAt (Consults binding sources session.tree) session.tree other.tree →
      validationCode? styled binding sources other =
        validationCode? styled binding sources session) ∧
    ∀ settings product after, (session.run (settingsOf sources)).1 = .ok settings →
      (session.run settings.generate).1 = .ok product →
      session.run (run styled (.generate sources false false)) = (.ok .nothing, after) →
      after.printed = (session.tell (report styled settings product .unchanged)).printed →
      session.tree.locate (binding.getD settings.output) = session.tree.locate settings.output →
      validationCode? styled binding sources session = some 0 := by
  refine ⟨?_, ?_, ?_, ?_, ?_⟩
  · intro failure hfails
    have hsettings := ((reads_settingsOf sources).fst_run session).symm.trans hfails
    refine ⟨?_, fun watch preview => run_generate_of_settings_error hsettings⟩
    rw [fst_run_validate, validateIn, hsettings]
    rfl
  · intro settings hfound
    have hsettings := ((reads_settingsOf sources).fst_run session).symm.trans hfound
    refine ⟨?_, ?_, ?_⟩
    · intro habsent
      rw [validationCode?, fst_run_validate_of_checkIn hsettings (checkIn_of_absent habsent)]
      rfl
    · intro hpresent hread
      obtain ⟨fault, hcheck⟩ := exists_checkIn_of_unreadable hpresent hread
      rw [validationCode?, fst_run_validate_of_checkIn hsettings hcheck]
      rfl
    · intro text hread
      exact verdict_of_readText styled hsettings hread
  · intro path other location hpath hother
    rw [fst_run_validate, fst_run_validate, validateIn, validateIn]
    simp only [Option.getD_some, checkIn_congr hpath hother]
  · intro other hagree
    rw [validationCode?, validationCode?, fst_run_validate, fst_run_validate]
    exact (sameOutcome_validateIn hagree).exitCode?_eq
  · intro settings product after hfound hgenerate hrun hreport hpath
    have hsettings := ((reads_settingsOf sources).fst_run session).symm.trans hfound
    have hproduct := ((Settings.reads_generate settings).fst_run session).symm.trans hgenerate
    rcases honce : session.run (generateOnce styled false settings) with ⟨failure | ⟨⟩, last⟩
    · rw [run_generate_of_settingsIn hsettings honce] at hrun
      cases hrun
    · rw [run_generate_of_settingsIn hsettings honce] at hrun
      cases hrun
      have hread := readText_of_report_unchanged hproduct honce hreport
      rw [← Tree.readText_congr hpath] at hread
      rw [validationCode?, run_validate_of_readText hsettings hproduct hread]
      rfl

/-- Sources whose configuration is not there. -/
def lostSources : Sources where
  config := some ⟨"nowhere.toml"⟩

/-- Sources whose binding belongs beside the schema. -/
def nearSources : Sources where
  output := some ⟨"binding.ts"⟩

def nearSettings : Settings where
  output := ⟨"binding.ts"⟩

/-- The new project with one more file. -/
def newProjectWith (name content : String) : Session :=
  ⟨newProject.set ["project", name] (.file content.toUTF8), ""⟩

/-- A file to which none of its paths leads does not matter for a check of the new project. -/
theorem agreeAt_notes (content : String) :
    Tree.AgreeAt (Consults none {} newProject) newProject
      (newProjectWith "notes" content).tree := by
  have hnew : newProject.entry? ["project", "notes"] = none := rfl
  have hset (location : Location) : (newProjectWith "notes" content).tree.entry? location =
      if location = ["project", "notes"] then some (.file content.toUTF8)
      else newProject.entry? location :=
    Tree.lookup_set (by simp) _ location
  refine ⟨rfl, fun location => ?_⟩
  by_cases hlocation : location = ["project", "notes"]
  · subst hlocation
    refine Or.inr ⟨by simp [hnew], by simp [hset], ?_⟩
    have hsettings : settingsIn {} newProject = .ok {} := rfl
    have hnowhere (path : Path) (h : newProject.locate path = .error .notFound)
        (h' : (newProjectWith "notes" content).tree.locate path = .error .notFound) :
        newProject.locate path ≠ .ok ["project", "notes"] ∧
          (newProjectWith "notes" content).tree.locate path ≠ .ok ["project", "notes"] := by
      rw [h, h']
      exact ⟨nofun, nofun⟩
    rintro path (_ | @⟨settings, hfound⟩ | @⟨settings, hfound⟩)
    · exact hnowhere usualConfiguration rfl rfl
    · obtain rfl := Except.ok.inj (hsettings.symm.trans hfound)
      have hschema : newProject.locate ⟨"schema.json"⟩ = .ok ["project", "schema.json"] := rfl
      have hsame : (newProjectWith "notes" content).tree.locate ⟨"schema.json"⟩ =
          .ok ["project", "schema.json"] := rfl
      rw [hschema, hsame]
      exact ⟨by decide, by decide⟩
    · obtain rfl := Except.ok.inj (hsettings.symm.trans hfound)
      exact hnowhere ⟨"./generated/binding.ts"⟩ rfl rfl
  · rw [hset, if_neg hlocation]
    exact Or.inl rfl

/-- Another file does not change the binding of the new project. -/
theorem productIn_newProjectWith (content : String) :
    nearSettings.productIn (newProjectWith "binding.ts" content).tree =
      nearSettings.productIn newProject := by
  have hread : (newProjectWith "binding.ts" content).tree.readText nearSettings.schema =
      newProject.readText nearSettings.schema := rfl
  rw [Settings.productIn, Settings.productIn, schemaIn, schemaIn, hread]

/-- Settings that are not there, a binding that is not there, one that is a directory, a schema
that is not there, two spellings of a path, a file that does not matter, and a binding that
stands where it belongs, as it is written and with a line more. -/
theorem validate_verdict_newProject :
    (∃ failure, (newSession.run (settingsOf lostSources)).1 = .error failure ∧
      (newSession.run (run false (.validate none lostSources))).1 = .error failure) ∧
    validationCode? false none {} newSession = some 2 ∧
    validationCode? false (some ⟨"."⟩) {} newSession = some 1 ∧
    (∃ failure told,
      newSession.run (run false (.generate missingSources false true)) = (.error failure, told) ∧
      (newSession.run (run false (.validate (some ⟨"schema.json"⟩) missingSources))).1 =
        .error failure) ∧
    (newSession.run (run false (.validate (some ⟨"schema.json"⟩) {}))).1 =
      (newSession.run (run false (.validate (some ⟨".//schema.json"⟩) {}))).1 ∧
    validationCode? false none {} (newProjectWith "notes" "a") = some 2 ∧
    ∃ content,
      validationCode? false none nearSources (newProjectWith "binding.ts" content) = some 0 ∧
      validationCode? false none nearSources (newProjectWith "binding.ts" (content ++ "\n")) =
        some 0 := by
  have hlost : (newSession.run (settingsOf lostSources)).1 =
      .error (.settings (.notFound ⟨"nowhere.toml"⟩)) := rfl
  have husual : (newSession.run (settingsOf {})).1 = .ok {} := rfl
  have hmissing : (newSession.run (settingsOf missingSources)).1 =
      .ok { schema := ⟨"new/schema.json"⟩ } := rfl
  have hschema : newSession.tree.locate ⟨"schema.json"⟩ = .ok ["project", "schema.json"] := rfl
  obtain ⟨-, hfound, hspelled, hother, -⟩ := validate_verdict false none {} newSession
  have habsent : validationCode? false none {} newSession = some 2 := (hfound _ husual).1 rfl
  refine ⟨⟨_, hlost, ?_⟩, habsent, ?_, ?_, hspelled _ _ _ hschema rfl, ?_, ?_⟩
  · exact ((validate_verdict false none lostSources newSession).1 _ hlost).1
  · obtain ⟨-, hfound, -⟩ := validate_verdict false (some ⟨"."⟩) {} newSession
    have hdirectory : newSession.tree.readText ⟨"."⟩ = .error .isDirectory := rfl
    refine (hfound _ husual).2.1 rfl ?_
    intro text
    rw [Option.getD_some, hdirectory]
    nofun
  · obtain ⟨-, hfound, -⟩ := validate_verdict false (some ⟨"schema.json"⟩) missingSources newSession
    have hunread : ({ schema := ⟨"new/schema.json"⟩ } : Settings).productIn newSession.tree =
        .error (.unreadableSchema ⟨"new/schema.json"⟩ .notFound) := rfl
    have hpreview : newSession.run (run false (.generate missingSources false true)) = _ :=
      run_generate_of_settingsIn (((reads_settingsOf missingSources).fst_run _).symm.trans hmissing)
        (run_generateOnce_of_error hunread)
    exact ⟨_, _, hpreview, ((hfound _ hmissing).2.2 _ rfl).1 _ _ hpreview⟩
  · rw [hother (newProjectWith "notes" "a") (agreeAt_notes "a"), habsent]
  · have hmade : (nearSettings.productIn newProject).isOk = true := by decide +kernel
    cases hproduct : nearSettings.productIn newProject with
    | error failure => rw [hproduct] at hmade; cases hmade
    | ok product =>
      have hsettings (content : String) :
          settingsIn nearSources (newProjectWith "binding.ts" content).tree = .ok nearSettings :=
        rfl
      have hagain (content : String) := (productIn_newProjectWith content).trans hproduct
      have hread (content : String) :
          (newProjectWith "binding.ts" content).tree.readText ⟨"binding.ts"⟩ = .ok content :=
        Tree.readText_of_file rfl rfl
      refine ⟨product.content, ?_, ?_⟩
      · obtain ⟨-, -, -, -, hreported⟩ :=
          validate_verdict false none nearSources (newProjectWith "binding.ts" product.content)
        have hrun : Session.run _ (run false (.generate nearSources false false)) = _ :=
          run_generate_of_settingsIn (hsettings product.content)
            (run_generateOnce_of_readText (hagain _) (hread _))
        exact hreported nearSettings product _ rfl
          (((Settings.reads_generate _).fst_run _).trans (hagain _)) hrun rfl rfl
      · obtain ⟨-, hfound, -⟩ := validate_verdict false none nearSources
          (newProjectWith "binding.ts" (product.content ++ "\n"))
        have hpreview : Session.run _ (run false (.generate nearSources false true)) = _ :=
          run_generate_of_settingsIn (hsettings (product.content ++ "\n"))
            (run_generateOnce_preview (hagain _))
        obtain ⟨made, hmade, -, hsame, -⟩ :=
          ((hfound nearSettings rfl).2.2 _ (hread _)).2 _ _ hpreview
        obtain ⟨hmade, -⟩ := (Settings.reads_generate _).of_run_eq_ok hmade
        obtain rfl := Except.ok.inj ((hagain _).symm.trans hmade)
        have hblank : ∀ c ∈ [] ++ ['\n'], Text.isBlank c = true := List.forall_mem_singleton.mpr rfl
        refine hsame.mpr ⟨product.content.toList, ⟨[], ['\n'], ?_, hblank⟩, [], [], ?_, by simp⟩
        · rw [String.toList_append]
          rfl
        · simp

end Command

end SchemaBinding
