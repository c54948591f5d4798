import SchemaBinding.Command.Run
import SchemaBinding.Proofs.Project.Runs

/-!
# Steps of runs

What a run says, and how it writes, shows or checks a binding.  The settings and
the binding are functions of the tree, and so is what a check comes to; only what
is delivered can change the tree.
-/

namespace SchemaBinding

open Files

variable {session after : Session} {sources : Command.Sources} {settings : Settings}
  {product : Product} {styled preview : Bool}

/-! ## What runs say -/

/-- The session after lines of output. -/
def Files.Session.tell (session : Session) (lines : List String) : Session :=
  lines.foldl (fun told line => { told with printed := told.printed ++ (line ++ "\n") }) session

@[simp]
theorem Files.Session.tree_tell (session : Session) (lines : List String) :
    (session.tell lines).tree = session.tree := by
  induction lines generalizing session with
  | nil => rfl
  | cons line lines ih => exact ih _

theorem Files.Session.printed_tell (session : Session) (lines : List String) :
    (session.tell lines).printed = session.printed ++ String.join (lines.map (· ++ "\n")) := by
  induction lines generalizing session with
  | nil => exact String.append_empty.symm
  | cons line lines ih =>
    show (Session.tell _ lines).printed = _
    rw [ih, List.map_cons, String.join_cons, String.append_assoc]

theorem Files.Session.tell_append (session : Session) (first second : List String) :
    session.tell (first ++ second) = (session.tell first).tell second :=
  List.foldl_append

namespace Command

theorem run_say (line : String) (session : Session) :
    session.run (say line) = (.ok (), session.tell [line]) := rfl

/-- What a run says before it reads a schema. -/
def readingLine (styled : Bool) (settings : Settings) : String :=
  paint styled .cyan "Reading schema" ++ " " ++ settings.schema.text

/-- What a run says before it writes or shows a binding. -/
def outset (styled : Bool) (settings : Settings) (product : Product) : List String :=
  [paint styled .cyan "Reading schema" ++ " " ++ settings.schema.text,
    "  Rendered " ++ paint styled .green (toString product.typeCount) ++ " type(s)"]

/-- What a run says that writes or shows a binding. -/
def report (styled : Bool) (settings : Settings) (product : Product) (delivery : Delivery) :
    List String :=
  outset styled settings product ++ ["\n".intercalate (deliveryLines styled product delivery)]

/-! ## Settings and bindings -/

/-- The settings of a run that are found in a tree. -/
def settingsIn (sources : Sources) (tree : Tree) : Except Failure Settings := do
  return (← Settings.inTree sources.config tree).override sources.input sources.output

theorem reads_settingsOf (sources : Sources) :
    Reads (settingsOf sources) (settingsIn sources) :=
  .bind (Settings.reads_load _) fun _ => .pure _

theorem path_of_productIn {tree : Tree} (h : settings.productIn tree = .ok product) :
    product.path = settings.output := by
  obtain ⟨schema, options, -, -, rfl⟩ := Settings.productIn_eq_ok_iff.mp h
  rfl

/-! ## Generating once -/

theorem run_generate_tell (lines : List String) :
    (session.tell lines).run settings.generate =
      (settings.productIn session.tree, session.tell lines) := by
  rw [Settings.reads_generate settings, Session.tree_tell]

/-- Without a binding nothing but the first line is said. -/
theorem run_generateOnce_of_error {failure : Failure}
    (hproduct : settings.productIn session.tree = .error failure) :
    session.run (generateOnce styled preview settings) =
      (.error failure, session.tell [readingLine styled settings]) := by
  rw [generateOnce, run_bind_of_ok (run_say _ _)]
  exact run_bind_of_error (by rw [run_generate_tell, hproduct]; rfl) _

theorem run_generateOnce_of_productIn (hproduct : settings.productIn session.tree = .ok product) :
    session.run (generateOnce styled preview settings) =
      (session.tell (outset styled settings product)).run
        (deliver preview product.path product.content >>= fun delivery =>
          say ("\n".intercalate (deliveryLines styled product delivery))) := by
  have hgenerate : (session.tell [readingLine styled settings]).run settings.generate =
      (.ok product, session.tell [readingLine styled settings]) := by
    rw [run_generate_tell, hproduct]
  rw [generateOnce, run_bind_of_ok (run_say _ _)]
  exact run_bind_of_ok hgenerate _

theorem run_generateOnce_of_deliver {preview : Bool} {delivery : Delivery}
    (hproduct : settings.productIn session.tree = .ok product)
    (hdeliver : (session.tell (outset styled settings product)).run
      (deliver preview product.path product.content) = (.ok delivery, after)) :
    session.run (generateOnce styled preview settings) =
      (.ok (), after.tell ["\n".intercalate (deliveryLines styled product delivery)]) := by
  rw [run_generateOnce_of_productIn hproduct, run_bind_of_ok hdeliver, run_say]

theorem run_generateOnce_of_deliver_error {failure : Failure}
    (hproduct : settings.productIn session.tree = .ok product)
    (hdeliver : (session.tell (outset styled settings product)).run
      (deliver preview product.path product.content) = (.error failure, after)) :
    session.run (generateOnce styled preview settings) = (.error failure, after) := by
  rw [run_generateOnce_of_productIn hproduct, run_bind_of_error hdeliver]

/-- A binding that is only shown changes nothing. -/
theorem run_generateOnce_preview (hproduct : settings.productIn session.tree = .ok product) :
    session.run (generateOnce styled true settings) =
      (.ok (), session.tell (report styled settings product .previewed)) := by
  rw [run_generateOnce_of_deliver hproduct rfl, report, Session.tell_append]

/-- What writing a binding may do to a tree. -/
theorem generateOnce_cases {result : Except Failure Unit}
    (h : session.run (generateOnce styled false settings) = (result, after)) :
    (∃ failure, settings.productIn session.tree = .error failure ∧ result = .error failure ∧
      after = session.tell [readingLine styled settings]) ∨
    ∃ product, settings.productIn session.tree = .ok product ∧
      ((∃ delivery, result = .ok () ∧
          after.printed = (session.tell (report styled settings product delivery)).printed ∧
          ∃ middle, Tree.GrownAlong settings.output session.tree middle ∧
            Tree.Written settings.output product.content.toUTF8 middle after.tree) ∨
        ((∃ fault, result = .error (.writing fault)) ∧
          after.printed = (session.tell (outset styled settings product)).printed ∧
          Tree.GrownAlong settings.output session.tree after.tree)) := by
  cases hproduct : settings.productIn session.tree with
  | error failure =>
    rw [run_generateOnce_of_error hproduct] at h
    cases h
    exact Or.inl ⟨failure, rfl, rfl, rfl⟩
  | ok product =>
    refine Or.inr ⟨product, rfl, ?_⟩
    have hpath := path_of_productIn hproduct
    rcases hdeliver : (session.tell (outset styled settings product)).run
      (deliver false product.path product.content) with ⟨delivered, last⟩
    obtain ⟨hprinted, hcases⟩ := deliver_cases hdeliver
    rw [Session.tree_tell, hpath] at hcases
    rcases hcases with ⟨delivery, rfl, middle, hgrown, hwritten⟩ | ⟨⟨fault, rfl⟩, hgrown⟩
    · rw [run_generateOnce_of_deliver hproduct hdeliver] at h
      cases h
      refine Or.inl ⟨delivery, rfl, ?_, middle, hgrown, by rwa [Session.tree_tell]⟩
      rw [report, Session.tell_append, Session.printed_tell, Session.printed_tell, hprinted]
    · rw [run_generateOnce_of_deliver_error hproduct hdeliver] at h
      cases h
      exact Or.inr ⟨⟨fault, rfl⟩, hprinted, hgrown⟩

/-! ## Checking a binding -/

/-- What comparing the file at a path with the binding comes to. -/
def comparisonIn (settings : Settings) (path : Path) (tree : Tree) : Except Failure Unit := do
  let old ← (tree.readText path).mapError .access
  let product ← settings.productIn tree
  if Text.sameTrimmed old product.content then .ok ()
  else .error (.validation "Binding is out of date")

/-- What a check comes to in a tree. -/
def checkIn (settings : Settings) (path : Path) (tree : Tree) : Except Failure Unit :=
  if tree.isPresent path then comparisonIn settings path tree
  else .error (.validation ("Binding file not found: " ++ path.text))

theorem looks_checkBinding (styled : Bool) (settings : Settings) (path : Path) :
    Looks (checkBinding styled settings path : ExceptT Failure SessionM Unit)
      (checkIn settings path) := by
  intro session
  rw [checkBinding, run_bind_of_ok (reads_isPresent _ session), checkIn]
  split
  · suffices h : Looks _ (comparisonIn settings path) from h session
    refine .bind (reads_orFail_readText _ path).looks fun old => ?_
    refine .bind (Settings.reads_generate settings).looks fun product _ => ?_
    split
    · exact ⟨rfl, rfl⟩
    · exact ⟨rfl, rfl⟩
  · exact ⟨rfl, rfl⟩

/-! ## Whole runs -/

/-- A run without settings fails in the same way, whatever it is to do with its binding. -/
theorem run_generate_of_settings_error {failure : Failure} {watch preview : Bool}
    (h : settingsIn sources session.tree = .error failure) :
    session.run (run styled (.generate sources watch preview)) = (.error failure, session) := by
  rw [run, run_bind_of_error ((reads_settingsOf sources session).trans (by rw [h]))]

/-- A program after which nothing but a fixed result is handed back. -/
theorem run_bind_pure {program : ExceptT Failure SessionM Unit} {result : Except Failure Unit}
    (h : session.run program = (result, after)) (remainder : Remainder) :
    session.run (program >>= fun _ => pure remainder) =
      (result.map fun _ => remainder, after) := by
  cases result with
  | error failure => exact run_bind_of_error h _
  | ok value => exact run_bind_of_ok h _

theorem run_generate_of_settingsIn {preview : Bool} {result : Except Failure Unit}
    (hsettings : settingsIn sources session.tree = .ok settings)
    (hrun : session.run (generateOnce styled preview settings) = (result, after)) :
    session.run (run styled (.generate sources false preview)) =
      (result.map fun _ => .nothing, after) := by
  rw [run, run_bind_of_ok ((reads_settingsOf sources).run_eq_ok hsettings),
    if_neg Bool.false_ne_true, run_bind_pure hrun]

/-- The code that a run exits with; none where it goes on watching. -/
def exitCode? : Except Failure Remainder → Option UInt8
  | .ok .nothing => some 0
  | .ok (.watching _ _) => none
  | .error failure => some failure.exitCode

theorem exitCode_ne_zero (failure : Failure) : failure.exitCode ≠ 0 := by
  have hone : (1 : UInt8) ≠ 0 := by decide
  have htwo : (2 : UInt8) ≠ 0 := by decide
  cases failure with
  | validation reason => exact htwo
  | _ => exact hone

/-! ## A project to begin with -/

/-- A tree with an empty schema, without a configuration and a binding. -/
def newProject : Tree where
  entries := [(["project"], .directory),
    (["project", "schema.json"], .file "\x7b\"__schema\": \x7b\"types\": []\x7d\x7d".toUTF8)]
  here := ["project"]

/-- A run that begins in the new project. -/
def newSession : Session :=
  ⟨newProject, ""⟩

/-- Sources whose binding would lie beyond a file, by way of a directory that is not there. -/
def blockedSources : Sources where
  output := some ⟨"new/../schema.json/binding.ts"⟩

/-- Sources whose schema lies in a directory that is not there. -/
def missingSources : Sources where
  input := some ⟨"new/schema.json"⟩

end Command

end SchemaBinding
