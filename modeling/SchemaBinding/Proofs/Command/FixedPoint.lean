import SchemaBinding.Proofs.Command.Steps

/-!
# Generating twice

A binding that has been written passes the check, and writing it again changes
nothing: configuration and schema are read as before, so the same content is
made, and it stands at the output path.  This asks that the run has spared the
configuration and the schema; both paths may lead elsewhere otherwise.
-/

namespace SchemaBinding

open Files

variable {session after : Session} {sources : Command.Sources} {settings : Settings}
  {product : Product} {path : Path} {styled : Bool}

namespace Command

/-! ## Single commands -/

/-- Settings whose configuration is spared are found again. -/
theorem settingsIn_of_delivered {before after : Tree} {output : Path} {content : String}
    (h : Delivered before after output content)
    (hspares : Tree.Spares before after output (sources.config.getD usualConfiguration))
    (hhere : before.entry? before.here = some .directory)
    (hfound : settingsIn sources before = .ok settings) :
    settingsIn sources after = .ok settings := by
  rw [settingsIn] at hfound ⊢
  cases hbefore : Settings.inTree sources.config before with
  | error failure => rw [hbefore] at hfound; cases hfound
  | ok loaded =>
    rw [hbefore] at hfound
    rw [inTree_of_delivered h hspares hhere hbefore]
    exact hfound

theorem delivered_of_generateOnce_eq_ok
    (h : session.run (generateOnce styled false settings) = (.ok (), after)) :
    ∃ product, settings.productIn session.tree = .ok product ∧
      Delivered session.tree after.tree settings.output product.content := by
  rcases generateOnce_cases h with ⟨failure, -, hresult, -⟩ | ⟨product, hproduct, hcases⟩
  · cases hresult
  rcases hcases with ⟨_, -, -, middle, hgrown, hwritten⟩ | ⟨⟨fault, hresult⟩, -⟩
  · exact ⟨product, hproduct, delivered_of_written hgrown hwritten⟩
  · cases hresult

/-- Where the content stands already, a run says so and changes nothing. -/
theorem run_generateOnce_of_readText (hproduct : settings.productIn session.tree = .ok product)
    (hread : session.tree.readText settings.output = .ok product.content) :
    session.run (generateOnce styled false settings) =
      (.ok (), session.tell (report styled settings product .unchanged)) := by
  rw [← path_of_productIn hproduct, ← Session.tree_tell _ (outset styled settings product)] at hread
  rw [run_generateOnce_of_deliver hproduct (run_deliver_of_readText hread), report,
    Session.tell_append]

/-- What a check says that a binding passes. -/
def approval (styled : Bool) : List String :=
  [paint styled .cyan "Validating binding...", paint styled .green "✓" ++ " Binding is up-to-date"]

/-- A binding passes the check where it stands. -/
theorem run_checkBinding_of_readText (hproduct : settings.productIn session.tree = .ok product)
    (hread : session.tree.readText path = .ok product.content) :
    session.run (checkBinding styled settings path) =
      (.ok (), session.tell [paint styled .green "✓" ++ " Binding is up-to-date"]) := by
  have hold : session.run (orFail .access (FileAccess.readText path)) =
      (.ok product.content, session) :=
    (reads_orFail_readText .access path).run_eq_ok (by simp only [hread]; rfl)
  have hgenerate : session.run settings.generate = (.ok product, session) :=
    (Settings.reads_generate settings).run_eq_ok hproduct
  have hsame : Text.sameTrimmed product.content product.content = true := decide_eq_true rfl
  rw [checkBinding, run_bind_of_ok (reads_isPresent _ session),
    if_pos (Tree.isPresent_of_readText hread), run_bind_of_ok hold, run_bind_of_ok hgenerate,
    if_pos hsame, run_say]

/-! ## Runs one after another -/

theorem generateOnce_of_run_generate {remainder : Remainder}
    (h : session.run (run styled (.generate sources false false)) = (.ok remainder, after)) :
    ∃ settings, settingsIn sources session.tree = .ok settings ∧
      session.run (generateOnce styled false settings) = (.ok (), after) := by
  rw [run] at h
  obtain ⟨settings, middle, hfound, hrest⟩ := run_bind_eq_ok h
  obtain ⟨hsettings, rfl⟩ := (reads_settingsOf sources).of_run_eq_ok hfound
  rw [if_neg Bool.false_ne_true] at hrest
  obtain ⟨_, last, hgenerate, hlast⟩ := run_bind_eq_ok hrest
  cases hlast
  exact ⟨settings, hsettings, hgenerate⟩

theorem run_generate_of_generateOnce (hsettings : settingsIn sources session.tree = .ok settings)
    (hrun : session.run (generateOnce styled false settings) = (.ok (), after)) :
    session.run (run styled (.generate sources false false)) = (.ok .nothing, after) :=
  run_generate_of_settingsIn hsettings hrun

theorem run_validate_of_readText {binding : Option Path}
    (hsettings : settingsIn sources session.tree = .ok settings)
    (hproduct : settings.productIn session.tree = .ok product)
    (hread : session.tree.readText (binding.getD settings.output) = .ok product.content) :
    session.run (run styled (.validate binding sources)) =
      (.ok .nothing, session.tell (approval styled)) := by
  have hfound (told : Session) (htold : told.tree = session.tree) :
      told.run (settingsOf sources) = (.ok settings, told) :=
    (reads_settingsOf sources).run_eq_ok (by rw [htold, hsettings])
  have hcheck (told : Session) (htold : told.tree = session.tree) :
      told.run (checkBinding styled settings (binding.getD settings.output)) =
        (.ok (), told.tell [paint styled .green "✓" ++ " Binding is up-to-date"]) :=
    run_checkBinding_of_readText (by rw [htold, hproduct]) (by rw [htold, hread])
  rw [run, run_bind_of_ok (run_say _ _), run_bind_of_ok (hfound _ (by simp)),
    run_bind_of_ok (hcheck _ (by simp))]
  rfl

/-- After a run that has written the binding and spared its configuration and its schema,
the binding passes the check by every path that leads to it, and writing it again reports
that it is up to date and changes no file. -/
theorem generate_reaches_fixed_point {remainder : Remainder}
    (hhere : session.tree.entry? session.tree.here = some .directory)
    (hgenerate : session.run (run styled (.generate sources false false)) =
      (.ok remainder, after)) :
    ∃ settings product, session.run (settingsOf sources) = (.ok settings, session) ∧
      session.run settings.generate = (.ok product, session) ∧
      (Tree.Spares session.tree after.tree settings.output
          (sources.config.getD usualConfiguration) →
        Tree.Spares session.tree after.tree settings.output settings.schema →
        ∀ again : Session, again.tree = after.tree →
          again.run (run styled (.validate none sources)) =
            (.ok .nothing, again.tell (approval styled)) ∧
          again.run (run styled (.generate sources false false)) =
            (.ok .nothing, again.tell (report styled settings product .unchanged)) ∧
          ∀ path, again.tree.locate path = again.tree.locate settings.output →
            again.run (run styled (.validate (some path) sources)) =
              (.ok .nothing, again.tell (approval styled))) := by
  obtain ⟨settings, hsettings, hrun⟩ := generateOnce_of_run_generate hgenerate
  obtain ⟨product, hproduct, hdelivered⟩ := delivered_of_generateOnce_eq_ok hrun
  refine ⟨settings, product, (reads_settingsOf sources).run_eq_ok hsettings,
    (Settings.reads_generate settings).run_eq_ok hproduct, ?_⟩
  intro hconfiguration hschema again hagain
  have hsettings : settingsIn sources again.tree = .ok settings := by
    rw [hagain]
    exact settingsIn_of_delivered hdelivered hconfiguration hhere hsettings
  have hproduct : settings.productIn again.tree = .ok product := by
    rw [hagain]
    exact productIn_of_delivered hdelivered hschema hproduct
  have hread : again.tree.readText settings.output = .ok product.content := by
    rw [hagain]
    exact hdelivered.readText
  refine ⟨run_validate_of_readText hsettings hproduct hread,
    run_generate_of_generateOnce hsettings (run_generateOnce_of_readText hproduct hread), ?_⟩
  intro path hpath
  exact run_validate_of_readText hsettings hproduct ((Tree.readText_congr hpath).trans hread)

/-- The tree with a binding in a new directory. -/
def boundProject (content : String) : Tree :=
  (newProject.set ["project", "out"] .directory).set ["project", "out", "binding.ts"]
    (.file content.toUTF8)

def newSources : Sources where
  output := some ⟨"out/binding.ts"⟩

theorem run_deliver_newProject (content : String) (session : Session)
    (htree : session.tree = newProject) :
    session.run (deliver false ⟨"out/binding.ts"⟩ content) =
      (.ok (.written content.utf8ByteSize), { session with tree := boundProject content }) := by
  obtain ⟨tree, printed⟩ := session
  obtain rfl : tree = newProject := htree
  have hunread : newProject.readText ⟨"out/binding.ts"⟩ = .error .notFound := rfl
  have hread : newProject.readText ⟨"out/binding.ts"⟩ ≠ .ok content := by simp [hunread]
  have hparent : Path.parent? ⟨"out/binding.ts"⟩ = some ⟨"out"⟩ := rfl
  have hancestors : Path.ancestors ⟨"out"⟩ = [⟨"out"⟩, ⟨""⟩] := by cbv
  have habsent : newProject.isPresent ⟨"out"⟩ = false := rfl
  have hprepare : Session.run ⟨newProject, printed⟩ (prepareDirectory ⟨"out/binding.ts"⟩) =
      (.ok (), ⟨newProject.set ["project", "out"] .directory, printed⟩) := by
    rw [prepareDirectory, hparent]
    simp only
    rw [if_neg (by decide), run_bind_of_ok (reads_isPresent _ _), habsent,
      if_neg Bool.false_ne_true, run_orFail, makeDirectories, hancestors]
    rfl
  have hwrite : (newProject.set ["project", "out"] .directory).write ⟨"out/binding.ts"⟩
      content.toUTF8 = .ok (boundProject content) := rfl
  have hrun := run_deliver_of_write hread hprepare hwrite
  exact hrun

/-- The result of a first run spares the schema and the configuration that is not there. -/
theorem spares_newProject (content : String) :
    Tree.Spares newProject (boundProject content) ⟨"out/binding.ts"⟩ usualConfiguration ∧
      Tree.Spares newProject (boundProject content) ⟨"out/binding.ts"⟩ ⟨"schema.json"⟩ := by
  have houtput : (boundProject content).locate ⟨"out/binding.ts"⟩ =
      .ok ["project", "out", "binding.ts"] := rfl
  refine ⟨fun location h => ?_, fun location h => ?_⟩
  · have habsent : (boundProject content).locate usualConfiguration = .error .notFound := rfl
    rw [habsent] at h
    cases h
  · have hschema : (boundProject content).locate ⟨"schema.json"⟩ =
        .ok ["project", "schema.json"] := rfl
    rw [hschema] at h
    obtain rfl := Except.ok.inj h
    rw [houtput]
    have hthere : (newProject.entry? ["project", "schema.json"]).isSome := rfl
    exact ⟨by simp, fun hnew => by simp [hnew.1] at hthere⟩

theorem generate_reaches_fixed_point_newProject :
    ∃ after product,
      Session.run ⟨newProject, ""⟩ (run false (.generate newSources false false)) =
        (.ok .nothing, after) ∧
      after.run (run false (.validate none newSources)) =
        (.ok .nothing, after.tell (approval false)) ∧
      after.run (run false (.generate newSources false false)) =
        (.ok .nothing,
          after.tell (report false { output := ⟨"out/binding.ts"⟩ } product .unchanged)) ∧
      after.run (run false (.validate (some ⟨"./out//binding.ts"⟩) newSources)) =
        (.ok .nothing, after.tell (approval false)) := by
  have hsettings : settingsIn newSources newProject = .ok { output := ⟨"out/binding.ts"⟩ } := rfl
  have hmade :
      (({ output := ⟨"out/binding.ts"⟩ } : Settings).productIn newProject).isOk = true := by
    decide +kernel
  cases hproduct : ({ output := ⟨"out/binding.ts"⟩ } : Settings).productIn newProject with
  | error failure =>
    rw [hproduct] at hmade
    cases hmade
  | ok product =>
    have hdeliver (told : Session) (htree : told.tree = newProject) :
        told.run (deliver false product.path product.content) =
          (.ok (.written product.content.utf8ByteSize),
            { told with tree := boundProject product.content }) := by
      rw [path_of_productIn hproduct]
      exact run_deliver_newProject _ _ htree
    have hrun : ∃ after,
        Session.run ⟨newProject, ""⟩ (run false (.generate newSources false false)) =
          (.ok .nothing, after) ∧ after.tree = boundProject product.content :=
      ⟨_, run_generate_of_generateOnce hsettings
        (run_generateOnce_of_deliver hproduct (hdeliver _ (by simp))), by simp⟩
    obtain ⟨after, hrun, htree⟩ := hrun
    obtain ⟨settings, again, hfound, -, hstays⟩ := generate_reaches_fixed_point rfl hrun
    obtain ⟨hfound, -⟩ := (reads_settingsOf newSources).of_run_eq_ok hfound
    obtain rfl := Except.ok.inj (hsettings.symm.trans hfound)
    obtain ⟨hconfiguration, hschema⟩ := spares_newProject product.content
    rw [← htree] at hconfiguration hschema
    obtain ⟨hvalidate, hgenerate, hothers⟩ := hstays hconfiguration hschema after rfl
    have hspelling : (boundProject product.content).locate ⟨"./out//binding.ts"⟩ =
        (boundProject product.content).locate ⟨"out/binding.ts"⟩ := rfl
    rw [← htree] at hspelling
    exact ⟨after, again, hrun, hvalidate, hgenerate, hothers _ hspelling⟩

end Command

end SchemaBinding
