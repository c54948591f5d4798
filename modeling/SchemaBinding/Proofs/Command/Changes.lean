import SchemaBinding.Proofs.Command.Steps

/-!
# What commands change

Three of the commands only look at files: they leave the tree as it was,
whether they fail or not.  The other two write one file each.  A command that
fails has written none, and at most it has made directories on the way to the
file.  The case that needs an argument is watching, which goes on after a
binding could not be written: it fails only where the directory of the schema
cannot be watched, and then the schema could not be read either, so there was
nothing to write.
-/

namespace SchemaBinding

open Files

variable {session after : Session} {sources : Command.Sources} {settings : Settings}
  {path : Path} {styled preview : Bool}

namespace Command

/-! ## Commands that only look -/

/-- The tree is as it was. -/
def SameTree (before after : Session) : Prop :=
  after.tree = before.tree

theorem SameTree.refl (session : Session) : SameTree session session := rfl

theorem SameTree.trans (before middle after : Session) (hfirst : SameTree before middle)
    (hsecond : SameTree middle after) : SameTree before after :=
  Eq.trans hsecond hfirst

section Look

variable {α β : Type}

theorem sameTree_bind {program : ExceptT Failure SessionM α}
    {next : α → ExceptT Failure SessionM β} (hprogram : Keeps SameTree program.run)
    (hnext : ∀ value, Keeps SameTree (next value).run) :
    Keeps SameTree (program >>= next).run :=
  .run_bind SameTree.trans hprogram hnext

theorem sameTree_pure (value : α) :
    Keeps SameTree (pure value : ExceptT Failure SessionM α).run :=
  fun _ => rfl

theorem sameTree_say (line : String) : Keeps SameTree (say line : ExceptT Failure SessionM Unit).run :=
  fun _ => rfl

theorem sameTree_of_reads {program : ExceptT Failure SessionM α} {found : Tree → Except Failure α}
    (h : Reads program found) : Keeps SameTree program.run := by
  intro session
  show (session.run program).2.tree = session.tree
  rw [h]

end Look

theorem sameTree_checkBinding (styled : Bool) (settings : Settings) (path : Path) :
    Keeps SameTree (checkBinding styled settings path : ExceptT Failure SessionM Unit).run :=
  fun session => (looks_checkBinding styled settings path session).2

theorem sameTree_printDocument (settings : Settings) :
    Keeps SameTree (printDocument settings : ExceptT Failure SessionM Unit).run :=
  sameTree_bind (sameTree_of_reads (reads_loadSchema _)) fun _ _ => rfl

theorem sameTree_generateOnce_preview (styled : Bool) (settings : Settings) :
    Keeps SameTree (generateOnce styled true settings : ExceptT Failure SessionM Unit).run := by
  intro session
  show (session.run (generateOnce styled true settings)).2.tree = session.tree
  cases hproduct : settings.productIn session.tree with
  | error failure => rw [run_generateOnce_of_error hproduct, Session.tree_tell]
  | ok product => rw [run_generateOnce_preview hproduct, Session.tree_tell]

/-! ## Watching -/

/-- A failure is told, and the tree stays as the failed attempt has left it. -/
theorem exists_run_generateAgain (styled preview : Bool) (settings : Settings)
    (session : Session) :
    ∃ told, session.run (generateAgain styled preview settings) = (.ok (), told) ∧
      told.tree = (session.run (generateOnce styled preview settings)).2.tree := by
  rcases hrun : session.run (generateOnce styled preview settings) with ⟨failure | ⟨⟩, last⟩
  · refine ⟨last.tell [paint styled .red "Generation error:" ++ " " ++ failure.message], ?_,
      Session.tree_tell _ _⟩
    exact run_tryCatch_of_error hrun _
  · exact ⟨last, run_tryCatch_of_ok hrun _, rfl⟩

theorem sameTree_generateAgain_preview (styled : Bool) (settings : Settings) :
    Keeps SameTree (generateAgain styled true settings : ExceptT Failure SessionM Unit).run := by
  intro session
  obtain ⟨told, hrun, htree⟩ := exists_run_generateAgain styled true settings session
  show (session.run (generateAgain styled true settings)).2.tree = session.tree
  rw [hrun]
  exact htree.trans (sameTree_generateOnce_preview styled settings session)

theorem sameTree_watch (settings : Settings) :
    Keeps SameTree (orFail (.watching ∘ Fault.message) (FileAccess.watch settings.schema.directory) :
      ExceptT Failure SessionM Unit).run := by
  have hwatch : Keeps SameTree
      (FileAccess.watch settings.schema.directory : SessionM (Except Fault Unit)) := fun _ => rfl
  exact keeps_orFail hwatch _

theorem sameTree_beginWatching_preview (styled : Bool) (settings : Settings) :
    Keeps SameTree (beginWatching styled true settings : ExceptT Failure SessionM Unit).run :=
  sameTree_bind (sameTree_say _) fun _ => sameTree_bind (sameTree_say _) fun _ =>
    sameTree_bind (sameTree_generateAgain_preview styled settings) fun _ =>
      sameTree_bind (sameTree_watch settings) fun _ => sameTree_say _

/-- Nothing that was there is gone after a binding was written, or could not be. -/
theorem persists_generateOnce (styled : Bool) (settings : Settings) (session : Session) :
    Tree.Persists session.tree (session.run (generateOnce styled false settings)).2.tree := by
  rcases hrun : session.run (generateOnce styled false settings) with ⟨result, last⟩
  rcases generateOnce_cases hrun with ⟨failure, -, -, rfl⟩ | ⟨product, -, hcases⟩
  · rw [Session.tree_tell]
    exact Tree.Persists.refl _
  rcases hcases with ⟨_, -, -, middle, hgrown, hwritten⟩ | ⟨-, -, hgrown⟩
  · exact hgrown.grown.persists.trans hwritten.persists
  · exact hgrown.grown.persists

/-- A schema that can be read lies in a directory that can be watched. -/
theorem exists_locate_directory_of_productIn {product : Product} {tree : Tree}
    (hhere : tree.entry? tree.here = some .directory)
    (hproduct : settings.productIn tree = .ok product) :
    ∃ place, tree.locate settings.schema.directory = .ok place := by
  obtain ⟨schema, options, hschema, -, -⟩ := Settings.productIn_eq_ok_iff.mp hproduct
  obtain ⟨text, hread, -⟩ := schemaIn_eq_ok_iff.mp hschema
  obtain ⟨location, bytes, hlocate, -, -⟩ := Tree.readText_eq_ok hread
  exact Tree.exists_locate_directory hhere hlocate

/-- A run that cannot watch has not changed anything before. -/
theorem tree_of_beginWatching_eq_error {failure : Failure}
    (hhere : session.tree.entry? session.tree.here = some .directory)
    (h : session.run (beginWatching styled false settings) = (.error failure, after)) :
    after.tree = session.tree := by
  rw [beginWatching, run_bind_of_ok (run_say _ _), run_bind_of_ok (run_say _ _)] at h
  generalize hbegun : (session.tell _).tell _ = begun at h
  have htree : begun.tree = session.tree := by rw [← hbegun, Session.tree_tell, Session.tree_tell]
  obtain ⟨told, hrun, htold⟩ := exists_run_generateAgain styled false settings begun
  rw [run_bind_of_ok hrun] at h
  have hwatch := run_orFail (.watching ∘ Fault.message)
    (FileAccess.watch settings.schema.directory) told
  have hlocate : (FileAccess.watch settings.schema.directory : SessionM (Except Fault Unit)) told =
      ((told.tree.locate settings.schema.directory).map fun _ => (), told) := rfl
  rw [hlocate] at hwatch
  cases hproduct : settings.productIn begun.tree with
  | error failure =>
    have hsame : told.tree = session.tree := by
      rw [htold, run_generateOnce_of_error hproduct, Session.tree_tell, htree]
    cases hdirectory : told.tree.locate settings.schema.directory with
    | error fault =>
      rw [hdirectory] at hwatch
      rw [run_bind_of_error hwatch] at h
      cases h
      exact hsame
    | ok place =>
      rw [hdirectory] at hwatch
      rw [run_bind_of_ok hwatch] at h
      cases h
  | ok product =>
    have hbefore := exists_locate_directory_of_productIn (by rwa [htree]) hproduct
    obtain ⟨place, hplace⟩ := hbefore
    have hdirectory := (persists_generateOnce styled settings begun).locate hplace
    rw [← htold] at hdirectory
    rw [hdirectory] at hwatch
    rw [run_bind_of_ok hwatch] at h
    cases h

/-! ## Writing a configuration -/

/-- A configuration is written where nothing is, or in any case, and otherwise nothing happens. -/
theorem writeConfiguration_cases {force : Bool} {result : Except Failure Unit}
    (h : session.run (writeConfiguration styled force path) = (result, after)) :
    (∃ failure, result = .error failure ∧ after.tree = session.tree ∧
      (session.tree.isPresent path = true → force = false → failure.exitCode = 2)) ∨
    result = .ok () ∧ Tree.Written path defaultConfiguration.toUTF8 session.tree after.tree ∧
      (force = false → ∀ location, after.tree.locate path = .ok location →
        session.tree.entry? location = none) := by
  rw [writeConfiguration, run_bind_of_ok (reads_isPresent _ session)] at h
  split at h
  · rw [run_bind_of_ok (run_say _ _), run_bind_of_ok (run_say _ _)] at h
    cases h
    exact Or.inl ⟨_, rfl, rfl, fun _ _ => rfl⟩
  next hallowed =>
    have hwrite := run_orFail .access (FileAccess.writeText path defaultConfiguration) session
    have htake : (FileAccess.writeText path defaultConfiguration : SessionM (Except Fault Unit))
        session = session.takeOver (session.tree.write path defaultConfiguration.toUTF8) := rfl
    rw [htake] at hwrite
    cases hwritten : session.tree.write path defaultConfiguration.toUTF8 with
    | error fault =>
      rw [hwritten] at hwrite
      rw [run_bind_of_error hwrite] at h
      cases h
      refine Or.inl ⟨_, rfl, rfl, fun hpresent hforce => ?_⟩
      rw [hpresent, hforce] at hallowed
      exact absurd rfl hallowed
    | ok tree =>
      rw [hwritten] at hwrite
      rw [run_bind_of_ok hwrite, run_say] at h
      cases h
      refine Or.inr ⟨rfl, Tree.written_of_write hwritten, fun hforce location hlocate => ?_⟩
      have habsent : session.tree.isPresent path = false := by
        rw [hforce] at hallowed
        simpa using hallowed
      exact Tree.entry?_eq_none_of_write hwritten habsent hlocate

/-! ## All commands -/

/-- What may be changed in a tree by a run of a command that exits with a code. -/
def MayChange (command : Command) (code : UInt8) (before after : Tree) : Prop :=
  match command with
  | .validate _ _ => after = before
  | .printSchema _ => after = before
  | .init path force =>
    if code = 0 then
      Tree.Written path defaultConfiguration.toUTF8 before after ∧
        (force = false → ∀ location, after.locate path = .ok location →
          before.entry? location = none)
    else after = before ∧ (before.isPresent path = true → force = false → code = 2)
  | .generate sources _ preview =>
    after = before ∨ preview = false ∧ ∃ settings, settingsIn sources before = .ok settings ∧
      ∃ middle, Tree.GrownAlong settings.output before middle ∧
        if code = 0 then ∃ content : String, Tree.Written settings.output content.toUTF8 middle after
        else after = middle

theorem generateOnce_mayChange {result : Except Failure Unit}
    (h : session.run (generateOnce styled false settings) = (result, after)) :
    after.tree = session.tree ∨ ∃ middle, Tree.GrownAlong settings.output session.tree middle ∧
      match result with
      | .ok () => ∃ content : String, Tree.Written settings.output content.toUTF8 middle after.tree
      | .error _ => after.tree = middle := by
  rcases generateOnce_cases h with ⟨failure, -, -, rfl⟩ | ⟨product, -, hcases⟩
  · exact Or.inl (Session.tree_tell _ _)
  rcases hcases with ⟨_, rfl, -, middle, hgrown, hwritten⟩ | ⟨⟨fault, rfl⟩, -, hgrown⟩
  · exact Or.inr ⟨middle, hgrown, product.content, hwritten⟩
  · exact Or.inr ⟨after.tree, hgrown, rfl⟩

theorem sameTree_run_generate_preview (styled : Bool) (sources : Sources) (watch : Bool) :
    Keeps SameTree (run styled (.generate sources watch true) :
      ExceptT Failure SessionM Remainder).run := by
  rw [run]
  refine sameTree_bind (sameTree_of_reads (reads_settingsOf sources)) fun settings => ?_
  split
  · exact sameTree_bind (sameTree_beginWatching_preview styled settings) fun _ => sameTree_pure _
  · exact sameTree_bind (sameTree_generateOnce_preview styled settings) fun _ => sameTree_pure _

/-- A run that is to watch exits only where it cannot. -/
theorem tree_of_run_generate_watch {code : UInt8}
    (hhere : session.tree.entry? session.tree.here = some .directory)
    (hexit : exitCode? (session.run (run styled (.generate sources true false))).1 = some code) :
    (session.run (run styled (.generate sources true false))).2.tree = session.tree := by
  cases hsettings : settingsIn sources session.tree with
  | error failure => rw [run_generate_of_settings_error hsettings]
  | ok settings =>
    rcases hbegin : session.run (beginWatching styled false settings) with ⟨result, last⟩
    rw [run, run_bind_of_ok ((reads_settingsOf sources).run_eq_ok hsettings), if_pos rfl,
      run_bind_pure hbegin] at hexit ⊢
    cases result with
    | error failure => exact tree_of_beginWatching_eq_error hhere hbegin
    | ok value => cases hexit

theorem generate_mayChange {watch : Bool} {code : UInt8}
    (hhere : session.tree.entry? session.tree.here = some .directory)
    (hexit : exitCode? (session.run (run styled (.generate sources watch preview))).1 = some code) :
    MayChange (.generate sources watch preview) code session.tree
      (session.run (run styled (.generate sources watch preview))).2.tree := by
  rw [MayChange]
  cases preview with
  | true => exact Or.inl (sameTree_run_generate_preview styled sources watch session)
  | false =>
    cases watch with
    | true => exact Or.inl (tree_of_run_generate_watch hhere hexit)
    | false =>
      cases hsettings : settingsIn sources session.tree with
      | error failure =>
        left
        rw [run_generate_of_settings_error hsettings]
      | ok settings =>
        rcases honce : session.run (generateOnce styled false settings) with ⟨result, last⟩
        rw [run_generate_of_settingsIn hsettings honce] at hexit ⊢
        refine (generateOnce_mayChange honce).imp_right fun ⟨middle, hgrown, hmatch⟩ =>
          ⟨rfl, settings, rfl, middle, hgrown, ?_⟩
        cases result with
        | error failure =>
          obtain rfl := Option.some.inj hexit
          rw [if_neg (exitCode_ne_zero failure)]
          exact hmatch
        | ok value =>
          obtain rfl := Option.some.inj hexit
          rw [if_pos rfl]
          exact hmatch

theorem init_mayChange {force : Bool} {code : UInt8}
    (hexit : exitCode? (session.run (run styled (.init path force))).1 = some code) :
    MayChange (.init path force) code session.tree
      (session.run (run styled (.init path force))).2.tree := by
  rw [MayChange]
  rw [run] at hexit ⊢
  rcases hwrite : session.run (writeConfiguration styled force path) with ⟨result, last⟩
  rw [run_bind_pure hwrite] at hexit ⊢
  rcases writeConfiguration_cases hwrite with ⟨failure, rfl, htree, hcode⟩ | ⟨rfl, hwritten, hnew⟩
  · obtain rfl := Option.some.inj hexit
    rw [if_neg (exitCode_ne_zero failure)]
    exact ⟨htree, hcode⟩
  · obtain rfl := Option.some.inj hexit
    rw [if_pos rfl]
    exact ⟨hwritten, hnew⟩

/-- A run that exits has changed no more than its command may change: the commands that look
change nothing, a configuration is written at its path or nowhere, and a binding at its path
or nowhere, with new directories along the path at most. -/
theorem run_mayChange (styled : Bool) (command : Command) (session : Session) {code : UInt8}
    (hhere : session.tree.entry? session.tree.here = some .directory)
    (hexit : exitCode? (session.run (run styled command)).1 = some code) :
    MayChange command code session.tree (session.run (run styled command)).2.tree := by
  cases command with
  | generate sources watch preview => exact generate_mayChange hhere hexit
  | init path force => exact init_mayChange hexit
  | validate binding sources =>
    exact sameTree_bind (sameTree_say _) (fun _ =>
      sameTree_bind (sameTree_of_reads (reads_settingsOf sources)) fun settings =>
        sameTree_bind (sameTree_checkBinding styled settings _) fun _ => sameTree_pure _) session
  | printSchema sources =>
    exact sameTree_bind (sameTree_of_reads (reads_settingsOf sources)) (fun settings =>
      sameTree_bind (sameTree_printDocument settings) fun _ => sameTree_pure _) session

/-- Two bindings that fail, the first once a directory is made, and a configuration that is
refused and forced. -/
theorem run_mayChange_newProject :
    newSession.tree.entry? newSession.tree.here = some .directory ∧
      (exitCode? (newSession.run (run false (.generate blockedSources false false))).1 = some 1 ∧
        ((newSession.run (run false (.generate blockedSources false false))).2.tree.entry?
          ["project", "new"]).any Entry.isDirectory = true ∧
        MayChange (.generate blockedSources false false) 1 newSession.tree
          (newSession.run (run false (.generate blockedSources false false))).2.tree) ∧
      (exitCode? (newSession.run (run false (.generate missingSources true false))).1 = some 1 ∧
        MayChange (.generate missingSources true false) 1 newSession.tree
          (newSession.run (run false (.generate missingSources true false))).2.tree) ∧
      (exitCode? (newSession.run (run false (.init ⟨"schema.json"⟩ false))).1 = some 2 ∧
        MayChange (.init ⟨"schema.json"⟩ false) 2 newSession.tree
          (newSession.run (run false (.init ⟨"schema.json"⟩ false))).2.tree) ∧
      (exitCode? (newSession.run (run false (.init ⟨"schema.json"⟩ true))).1 = some 0 ∧
        MayChange (.init ⟨"schema.json"⟩ true) 0 newSession.tree
          (newSession.run (run false (.init ⟨"schema.json"⟩ true))).2.tree) := by
  have hhere : newSession.tree.entry? newSession.tree.here = some .directory := rfl
  have hblocked :
      exitCode? (newSession.run (run false (.generate blockedSources false false))).1 = some 1 := by
    decide +kernel
  have hmissing :
      exitCode? (newSession.run (run false (.generate missingSources true false))).1 = some 1 := by
    decide +kernel
  have hrefused :
      exitCode? (newSession.run (run false (.init ⟨"schema.json"⟩ false))).1 = some 2 := by
    decide +kernel
  have hforced :
      exitCode? (newSession.run (run false (.init ⟨"schema.json"⟩ true))).1 = some 0 := by
    decide +kernel
  exact ⟨hhere,
    ⟨hblocked, by decide +kernel,
      run_mayChange false (.generate blockedSources false false) newSession hhere hblocked⟩,
    ⟨hmissing, run_mayChange false (.generate missingSources true false) newSession hhere hmissing⟩,
    ⟨hrefused, run_mayChange false (.init ⟨"schema.json"⟩ false) newSession hhere hrefused⟩,
    ⟨hforced, run_mayChange false (.init ⟨"schema.json"⟩ true) newSession hhere hforced⟩⟩

end Command

end SchemaBinding
