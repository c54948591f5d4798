import SchemaBinding.Proofs.Files.Parents
import SchemaBinding.Proofs.Results
import SchemaBinding.Project

/-!
# What a project reads and delivers

Settings, schema and binding are functions of the tree: what makes them leaves
the session as it is.  A delivery that succeeds leaves the content at its path,
and besides it new directories at most; where the content stands already there
is nothing to deliver.
-/

namespace SchemaBinding

open Files

variable {α : Type} {session after : Session} {settings : Settings} {tree : Tree} {path : Path}
  {content : String}

/-! ## Single accesses -/

theorem run_orFail (failure : Fault → Failure) (access : SessionM (Except Fault α))
    (session : Session) :
    session.run (orFail failure access) =
      ((access session).1.mapError failure, (access session).2) := by
  rcases h : access session with ⟨fault | value, middle⟩
  all_goals
    have hlift : session.run (liftM access : ExceptT Failure SessionM (Except Fault α)) =
        (.ok (access session).1, (access session).2) := rfl
    rw [h] at hlift
    rw [orFail, run_bind_of_ok hlift]
    rfl

theorem exists_fault_of_orFail {failure : Fault → Failure}
    {access : SessionM (Except Fault α)} {told : Failure}
    (h : session.run (orFail failure access) = (.error told, after)) :
    ∃ fault, told = failure fault := by
  rw [run_orFail] at h
  cases hresult : (access session).1 with
  | error fault =>
    rw [hresult] at h
    cases h
    exact ⟨fault, rfl⟩
  | ok value =>
    rw [hresult] at h
    cases h

theorem keeps_orFail {relation : Session → Session → Prop} {access : SessionM (Except Fault α)}
    (h : Keeps relation access) (failure : Fault → Failure) :
    Keeps relation (orFail failure access).run := by
  intro session
  show relation session (session.run (orFail failure access)).2
  rw [run_orFail]
  exact h session

theorem reads_orFail_readText (failure : Fault → Failure) (path : Path) :
    Reads (orFail failure (FileAccess.readText path : SessionM (Except Fault String)))
      fun tree => (tree.readText path).mapError failure :=
  fun session => run_orFail failure _ session

/-! ## Settings, schema and binding -/

/-- The settings of a configuration in a tree. -/
def Settings.foundAt (path : Path) (tree : Tree) : Except Failure Settings := do
  let text ← (tree.readText path).mapError (.settings ∘ .unreadable path)
  (ofText text).mapError fun fault => .settings (.invalidDocument path fault.message)

theorem Settings.reads_readFrom (path : Path) :
    Reads (Settings.readFrom path) (Settings.foundAt path) := by
  refine .bind (reads_orFail_readText _ path) fun text => ?_
  cases ofText text with
  | ok settings => exact .pure settings
  | error fault => exact .throw _

/-- The settings that are found in a tree. -/
def Settings.inTree (path? : Option Path) (tree : Tree) : Except Failure Settings :=
  let path := path?.getD usualConfiguration
  if tree.isPresent path then foundAt path tree
  else if path?.isSome then .error (.settings (.notFound path))
  else .ok {}

theorem Settings.reads_load (path? : Option Path) :
    Reads (Settings.load path?) (Settings.inTree path?) := by
  intro session
  rw [Settings.load, run_bind_of_ok (reads_isPresent _ session), inTree]
  split
  · exact Settings.reads_readFrom _ session
  · split <;> rfl

namespace Settings

/-- The entries of the configuration of a run: those of its document, and none where no
document is asked for and the usual one is missing. -/
inductive Configured (path? : Option Path) (tree : Tree) : Toml.Entries → Prop
  | missing (hpath : path? = none) (habsent : tree.isPresent usualConfiguration = false) :
    Configured path? tree []
  | read {text : String} {entries : Toml.Entries}
    (hread : tree.readText (path?.getD usualConfiguration) = .ok text)
    (hentries : Toml.read text = .ok entries) (husable : unusable? entries = none) :
    Configured path? tree entries

theorem ofText_eq_ok_iff {text : String} :
    ofText text = .ok settings ↔ ∃ entries, Toml.read text = .ok entries ∧
      unusable? entries = none ∧ ofEntries entries = .ok settings := by
  constructor
  · intro h
    obtain ⟨entries, hentries, h⟩ := bind_eq_ok h
    cases husable : unusable? entries with
    | none =>
      rw [husable] at h
      exact ⟨entries, hentries, husable, h⟩
    | some written =>
      rw [husable] at h
      cases h
  · rintro ⟨entries, hentries, husable, hsettings⟩
    rw [ofText, hentries]
    dsimp only [bind, Except.bind]
    rw [husable]
    exact hsettings

theorem foundAt_eq_ok_iff {path : Path} :
    foundAt path tree = .ok settings ↔ ∃ text, tree.readText path = .ok text ∧
      ofText text = .ok settings := by
  constructor
  · intro h
    obtain ⟨text, hread, h⟩ := bind_eq_ok h
    exact ⟨text, mapError_eq_ok_iff.mp hread, mapError_eq_ok_iff.mp h⟩
  · rintro ⟨text, hread, hsettings⟩
    rw [foundAt, mapError_eq_ok_iff.mpr hread]
    exact mapError_eq_ok_iff.mpr hsettings

/-- A run finds the settings that its configuration stands for, and no others. -/
theorem inTree_eq_ok_iff {path? : Option Path} :
    inTree path? tree = .ok settings ↔ ∃ entries, Configured path? tree entries ∧
      ofEntries entries = .ok settings := by
  rw [inTree]
  constructor
  · intro h
    split at h
    · obtain ⟨text, hread, htext⟩ := foundAt_eq_ok_iff.mp h
      obtain ⟨entries, hentries, husable, hsettings⟩ := ofText_eq_ok_iff.mp htext
      exact ⟨entries, .read hread hentries husable, hsettings⟩
    next habsent =>
      cases path? with
      | some path => cases h
      | none =>
        cases h
        exact ⟨[], .missing rfl (Bool.not_eq_true _ ▸ habsent), rfl⟩
  · rintro ⟨entries, hconfigured, hsettings⟩
    cases hconfigured with
    | missing hpath habsent =>
      subst hpath
      rw [Option.getD_none, habsent, if_neg Bool.false_ne_true]
      obtain rfl : {} = settings := Except.ok.inj hsettings
      rfl
    | read hread hentries husable =>
      rw [if_pos (Tree.isPresent_of_readText hread)]
      exact foundAt_eq_ok_iff.mpr ⟨_, hread, ofText_eq_ok_iff.mpr ⟨_, hentries, husable, hsettings⟩⟩

end Settings

/-- The schema of an introspection result in a tree. -/
def schemaIn (path : Path) (tree : Tree) : Except Failure Schema := do
  let text ← (tree.readText path).mapError (.unreadableSchema path)
  (Introspection.loadText text).mapError (.invalidSchema path)

theorem reads_loadSchema (path : Path) : Reads (loadSchema path) (schemaIn path) := by
  refine .bind (reads_orFail_readText _ path) fun text => ?_
  cases Introspection.loadText text with
  | ok schema => exact .pure schema
  | error error => exact .throw _

theorem schemaIn_eq_ok_iff {path : Path} {schema : Schema} :
    schemaIn path tree = .ok schema ↔ ∃ text, tree.readText path = .ok text ∧
      Introspection.loadText text = .ok schema := by
  constructor
  · intro h
    obtain ⟨text, hread, h⟩ := bind_eq_ok h
    exact ⟨text, mapError_eq_ok_iff.mp hread, mapError_eq_ok_iff.mp h⟩
  · rintro ⟨text, hread, hschema⟩
    rw [schemaIn, mapError_eq_ok_iff.mpr hread]
    exact mapError_eq_ok_iff.mpr hschema

theorem Settings.options_eq_ok_iff {options : Binding.Options} :
    settings.options = .ok options ↔ settings.options? = some options := by
  rw [Settings.options]
  cases settings.options? with
  | none => exact ⟨nofun, nofun⟩
  | some found => exact ⟨fun h => congrArg _ (Except.ok.inj h), fun h => congrArg _ (Option.some.inj h)⟩

/-- The binding that settings stand for in a tree. -/
def Settings.productIn (settings : Settings) (tree : Tree) : Except Failure Product := do
  settings.product (← schemaIn settings.schema tree)

theorem Settings.reads_generate (settings : Settings) :
    Reads settings.generate settings.productIn := by
  refine .bind (reads_loadSchema _) fun schema => ?_
  cases h : settings.product schema with
  | ok product => exact .pure product
  | error failure => exact .throw _

theorem Settings.productIn_eq_ok_iff {product : Product} :
    settings.productIn tree = .ok product ↔ ∃ schema options,
      schemaIn settings.schema tree = .ok schema ∧ settings.options = .ok options ∧
        product = ⟨settings.output, Binding.document options settings.paths schema,
          schema.types.size⟩ := by
  rw [productIn]
  cases schemaIn settings.schema tree with
  | error failure => exact ⟨nofun, nofun⟩
  | ok schema =>
    show settings.product schema = .ok product ↔ _
    rw [Settings.product]
    cases settings.options with
    | error failure => exact ⟨nofun, nofun⟩
    | ok options =>
      constructor
      · rintro ⟨rfl⟩
        exact ⟨schema, options, rfl, rfl, rfl⟩
      · rintro ⟨_, _, ⟨rfl⟩, ⟨rfl⟩, rfl⟩
        rfl

/-! ## Deliveries -/

theorem grownAlong_prepareDirectory (path : Path) :
    Keeps (Session.GrownAlong path) (prepareDirectory path : ExceptT Failure SessionM Unit).run := by
  have hpure : Keeps (Session.GrownAlong path) (pure () : ExceptT Failure SessionM Unit).run :=
    fun session => Session.GrownAlong.refl path session
  rw [prepareDirectory]
  split
  · exact hpure
  next parent hparent =>
    have habove := Path.isAbove_of_parent? hparent
    split
    · exact hpure
    refine .run_bind Session.GrownAlong.trans ?_ fun present => ?_
    · exact fun session => Session.GrownAlong.refl path session
    split
    · exact hpure
    refine keeps_orFail ?_ _
    refine .makeFirst (Session.GrownAlong.refl path) Session.GrownAlong.trans fun front hfront => ?_
    rcases Path.isAbove_of_mem_ancestors hfront with rfl | hfront
    · exact grownAlong_makeDirectory habove
    · exact grownAlong_makeDirectory (hfront.trans habove)

theorem exists_fault_of_prepareDirectory {failure : Failure}
    (h : session.run (prepareDirectory path) = (.error failure, after)) :
    ∃ parent fault, path.parent? = some parent ∧ failure = .writing (.directory parent fault) := by
  rw [prepareDirectory] at h
  split at h
  · cases h
  next parent hparent =>
    split at h
    · cases h
    rw [run_bind_of_ok (reads_isPresent _ session)] at h
    split at h
    · cases h
    obtain ⟨fault, rfl⟩ := exists_fault_of_orFail h
    exact ⟨parent, fault, hparent, rfl⟩

/-- Whether a file of a tree can be read and is a given text. -/
def Files.Tree.holds (tree : Tree) (path : Path) (content : String) : Bool :=
  match tree.readText path with
  | .ok text => text = content
  | .error _ => false

theorem Files.Tree.holds_eq_true_iff {tree : Tree} :
    tree.holds path content = true ↔ tree.readText path = .ok content := by
  rw [Tree.holds]
  split
  next text htext => rw [htext, decide_eq_true_iff, Except.ok.injEq]
  next fault hfault =>
    rw [hfault]
    exact ⟨nofun, nofun⟩

theorem reads_holds (path : Path) (content : String) :
    Reads (liftM (holds path content : SessionM Bool) : ExceptT Failure SessionM Bool)
      fun tree => .ok (tree.holds path content) := by
  intro session
  have h : (holds path content : SessionM Bool) session =
      (session.tree.holds path content, session) := by
    rw [holds, bind_apply, Tree.holds]
    show (match session.tree.readText path with
      | .ok text => pure (decide (text = content))
      | .error _ => pure false : SessionM Bool) session = _
    cases session.tree.readText path <;> rfl
  show (Except.ok ((holds path content : SessionM Bool) session).1,
    ((holds path content : SessionM Bool) session).2) = _
  rw [h]

/-- Where the content stands already, nothing is changed. -/
theorem run_deliver_of_readText (h : session.tree.readText path = .ok content) :
    session.run (deliver false path content) = (.ok .unchanged, session) := by
  rw [deliver, if_neg Bool.false_ne_true, run_bind_of_ok (reads_holds _ _ session),
    Tree.holds_eq_true_iff.mpr h, if_pos rfl]
  rfl

theorem run_deliver_of_write {middle : Session} {tree : Tree}
    (hread : session.tree.readText path ≠ .ok content)
    (hprepare : session.run (prepareDirectory path) = (.ok (), middle))
    (hwrite : middle.tree.write path content.toUTF8 = .ok tree) :
    session.run (deliver false path content) =
      (.ok (.written content.utf8ByteSize), { middle with tree }) := by
  have hwritten : middle.run (orFail (.writing ∘ .file path) (FileAccess.writeText path content)) =
      (.ok (), { middle with tree }) := by
    have htake : (FileAccess.writeText path content : SessionM (Except Fault Unit)) middle =
        (.ok (), { middle with tree }) := by
      show middle.takeOver (middle.tree.write path content.toUTF8) = _
      rw [hwrite]
      rfl
    rw [run_orFail, htake]
    rfl
  rw [deliver, if_neg Bool.false_ne_true, run_bind_of_ok (reads_holds _ _ session),
    if_neg (mt Tree.holds_eq_true_iff.mp hread), run_bind_of_ok hprepare, run_bind_of_ok hwritten]
  rfl

/-- What a delivery may do to a tree: directories along the path, and then the file, unless
one of the two cannot be made. -/
theorem deliver_cases {result : Except Failure Delivery}
    (h : session.run (deliver false path content) = (result, after)) :
    after.printed = session.printed ∧
      ((∃ delivery, result = .ok delivery ∧ ∃ middle,
          Tree.GrownAlong path session.tree middle ∧
          Tree.Written path content.toUTF8 middle after.tree) ∨
        (∃ fault, result = .error (.writing fault)) ∧
          Tree.GrownAlong path session.tree after.tree) := by
  by_cases hholds : session.tree.holds path content = true
  · have hread := Tree.holds_eq_true_iff.mp hholds
    rw [run_deliver_of_readText hread] at h
    cases h
    exact ⟨rfl, Or.inl ⟨_, rfl, _, Tree.GrownAlong.refl path _, Tree.written_of_readText hread⟩⟩
  rw [deliver, if_neg Bool.false_ne_true, run_bind_of_ok (reads_holds _ _ session),
    if_neg hholds] at h
  have hgrown : Session.GrownAlong path session (session.run (prepareDirectory path)).2 :=
    grownAlong_prepareDirectory path session
  rcases hprepare : session.run (prepareDirectory path) with ⟨failure | prepared, middle⟩
  · rw [run_bind_of_error hprepare] at h
    cases h
    rw [hprepare] at hgrown
    obtain ⟨parent, fault, -, rfl⟩ := exists_fault_of_prepareDirectory hprepare
    exact ⟨hgrown.printed, Or.inr ⟨⟨_, rfl⟩, hgrown.tree⟩⟩
  rw [run_bind_of_ok hprepare] at h
  rw [hprepare] at hgrown
  have hwrite := run_orFail (.writing ∘ .file path) (FileAccess.writeText path content) middle
  have htake : (FileAccess.writeText path content : SessionM (Except Fault Unit)) middle =
      middle.takeOver (middle.tree.write path content.toUTF8) := rfl
  rw [htake] at hwrite
  cases hwritten : middle.tree.write path content.toUTF8 with
  | error fault =>
    rw [hwritten] at hwrite
    rw [run_bind_of_error hwrite] at h
    cases h
    exact ⟨hgrown.printed, Or.inr ⟨⟨_, rfl⟩, hgrown.tree⟩⟩
  | ok tree =>
    rw [hwritten] at hwrite
    rw [run_bind_of_ok hwrite] at h
    cases h
    exact ⟨hgrown.printed, Or.inl ⟨_, rfl, middle.tree, hgrown.tree, Tree.written_of_write hwritten⟩⟩

/-- The content stands at its path, and besides it there are new directories at most. -/
structure Delivered (before after : Tree) (path : Path) (content : String) : Prop where
  readText : after.readText path = .ok content
  rewritten : ∃ location, after.locate path = .ok location ∧
    Tree.Rewritten before after location

theorem delivered_of_written {before middle after : Tree}
    (hgrown : Tree.GrownAlong path before middle)
    (hwritten : Tree.Written path content.toUTF8 middle after) :
    Delivered before after path content := by
  obtain ⟨location, hlocate, hentry, hrewritten⟩ := hwritten.rewritten
  exact ⟨Tree.readText_of_file hlocate hentry, location, hlocate,
    hrewritten.of_grown hgrown.grown⟩

/-! ## What is found again -/

variable {before after : Tree} {output : Path}

theorem locate_usualConfiguration_eq_ok_iff {tree : Tree} {location : Location} :
    tree.locate usualConfiguration = .ok location ↔
      tree.entry? tree.here = some .directory ∧
        (tree.entry? (tree.here ++ ["graphql-bindgen.toml"])).isSome ∧
        location = tree.here ++ ["graphql-bindgen.toml"] := by
  have hlocate : tree.locate usualConfiguration = tree.enter tree.here "graphql-bindgen.toml" :=
    Tree.locate_name rfl rfl rfl
  have hshort : Tree.isTooLong "graphql-bindgen.toml" = false := rfl
  rw [hlocate, Tree.enter_name_eq_ok_iff (by decide) (by decide), hshort]
  simp only [true_and]

/-- The usual configuration does not appear where it is spared. -/
theorem isPresent_usualConfiguration_of_delivered (h : Delivered before after output content)
    (hspares : Tree.Spares before after output usualConfiguration)
    (hhere : before.entry? before.here = some .directory)
    (hafter : after.isPresent usualConfiguration = true) :
    before.isPresent usualConfiguration = true := by
  obtain ⟨location, houtput, hrewritten⟩ := h.rewritten
  obtain ⟨found, hlocate⟩ := Tree.isPresent_eq_true_iff.mp hafter
  obtain ⟨-, hentry, rfl⟩ := locate_usualConfiguration_eq_ok_iff.mp hlocate
  have hbefore := hrewritten.isSome_of_spares houtput hspares hlocate hentry
  rw [hrewritten.persists.here] at hbefore
  exact Tree.isPresent_eq_true_iff.mpr
    ⟨_, locate_usualConfiguration_eq_ok_iff.mpr ⟨hhere, hbefore, rfl⟩⟩

/-- A file at a path that is spared reads as before. -/
theorem Delivered.readText_of_spares {text : String} (h : Delivered before after output content)
    (hspares : Tree.Spares before after output path) (hread : before.readText path = .ok text) :
    after.readText path = .ok text := by
  obtain ⟨location, houtput, hrewritten⟩ := h.rewritten
  exact hrewritten.readText_of_spares houtput hspares hread

theorem foundAt_of_delivered (h : Delivered before after output content)
    (hspares : Tree.Spares before after output path)
    (hfound : Settings.foundAt path before = .ok settings) :
    Settings.foundAt path after = .ok settings := by
  obtain ⟨text, hread, hsettings⟩ := Settings.foundAt_eq_ok_iff.mp hfound
  exact Settings.foundAt_eq_ok_iff.mpr ⟨text, h.readText_of_spares hspares hread, hsettings⟩

/-- Settings whose configuration is spared are found again. -/
theorem inTree_of_delivered {path? : Option Path}
    (h : Delivered before after output content)
    (hspares : Tree.Spares before after output (path?.getD usualConfiguration))
    (hhere : before.entry? before.here = some .directory)
    (hfound : Settings.inTree path? before = .ok settings) :
    Settings.inTree path? after = .ok settings := by
  obtain ⟨location, houtput, hrewritten⟩ := h.rewritten
  rw [Settings.inTree] at hfound ⊢
  by_cases hpresent : before.isPresent (path?.getD usualConfiguration) = true
  · obtain ⟨found, hlocate⟩ := Tree.isPresent_eq_true_iff.mp hpresent
    have hafter := Tree.isPresent_eq_true_iff.mpr ⟨found, hrewritten.persists.locate hlocate⟩
    rw [if_pos hpresent] at hfound
    rw [if_pos hafter]
    exact foundAt_of_delivered h hspares hfound
  · rw [if_neg hpresent] at hfound
    cases path? with
    | some path => cases hfound
    | none =>
      have hafter : ¬ after.isPresent usualConfiguration = true := fun hafter =>
        hpresent (isPresent_usualConfiguration_of_delivered h hspares hhere hafter)
      rw [Option.getD_none, if_neg hafter]
      exact hfound

/-- A binding whose schema is spared is made again. -/
theorem productIn_of_delivered {product : Product} (h : Delivered before after output content)
    (hspares : Tree.Spares before after output settings.schema)
    (hfound : settings.productIn before = .ok product) :
    settings.productIn after = .ok product := by
  obtain ⟨schema, options, hschema, hoptions, hproduct⟩ := Settings.productIn_eq_ok_iff.mp hfound
  obtain ⟨text, hread, hdecoded⟩ := schemaIn_eq_ok_iff.mp hschema
  have hafter := schemaIn_eq_ok_iff.mpr ⟨text, h.readText_of_spares hspares hread, hdecoded⟩
  exact Settings.productIn_eq_ok_iff.mpr ⟨schema, options, hafter, hoptions, hproduct⟩

end SchemaBinding
