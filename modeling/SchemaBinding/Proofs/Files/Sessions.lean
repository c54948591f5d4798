import SchemaBinding.Files.Session

/-!
# Programs on sessions

A program that fails keeps the session it has come to.  What a program may do
to a session is a relation between the first session and the last; one that
every session has to itself and that carries over is kept by a program whose
parts keep it.  A program that only reads is a function of the tree.
-/

namespace SchemaBinding.Files

variable {α β ε : Type} {session middle after : Session}

/-! ## One program after another -/

theorem bind_apply (program : SessionM α) (next : α → SessionM β) (session : Session) :
    (program >>= next) session = next (program session).1 (program session).2 := rfl

/-- What a program comes to from a session, and the session that it leaves. -/
def Session.run (session : Session) (program : ExceptT ε SessionM α) : Except ε α × Session :=
  program.run session

theorem run_bind_of_ok {program : ExceptT ε SessionM α} {value : α}
    (h : session.run program = (.ok value, middle)) (next : α → ExceptT ε SessionM β) :
    session.run (program >>= next) = middle.run (next value) := by
  rw [Session.run, ExceptT.run_bind, bind_apply, ← Session.run, h]
  rfl

theorem run_bind_of_error {program : ExceptT ε SessionM α} {failure : ε}
    (h : session.run program = (.error failure, middle)) (next : α → ExceptT ε SessionM β) :
    session.run (program >>= next) = (.error failure, middle) := by
  rw [Session.run, ExceptT.run_bind, bind_apply, ← Session.run, h]
  rfl

theorem run_bind_eq_ok {program : ExceptT ε SessionM α} {next : α → ExceptT ε SessionM β} {result : β}
    (h : session.run (program >>= next) = (.ok result, after)) :
    ∃ value middle, session.run program = (.ok value, middle) ∧
      middle.run (next value) = (.ok result, after) := by
  rcases hprogram : session.run program with ⟨failure | value, middle⟩
  · rw [run_bind_of_error hprogram] at h
    cases h
  · rw [run_bind_of_ok hprogram] at h
    exact ⟨value, middle, rfl, h⟩

theorem run_tryCatch_of_ok {program : ExceptT ε SessionM α} {value : α}
    (h : session.run program = (.ok value, middle)) (handler : ε → ExceptT ε SessionM α) :
    session.run (tryCatch program handler) = (.ok value, middle) := by
  have hprogram : program session = (Except.ok value, middle) := h
  show ExceptT.tryCatch program handler session = _
  rw [ExceptT.tryCatch, ExceptT.mk, bind_apply, hprogram]
  rfl

/-- A program that is caught leaves the session that it has come to. -/
theorem run_tryCatch_of_error {program : ExceptT ε SessionM α} {failure : ε}
    (h : session.run program = (.error failure, middle)) (handler : ε → ExceptT ε SessionM α) :
    session.run (tryCatch program handler) = middle.run (handler failure) := by
  have hprogram : program session = (Except.error failure, middle) := h
  show ExceptT.tryCatch program handler session = _
  rw [ExceptT.tryCatch, ExceptT.mk, bind_apply, hprogram]
  rfl

/-! ## What a program keeps -/

/-- Wherever the program begins, it ends in a session that its first one is related to. -/
def Keeps (relation : Session → Session → Prop) (program : SessionM α) : Prop :=
  ∀ session, relation session (program session).2

section Keeps

variable {relation : Session → Session → Prop}
  (hrefl : ∀ session, relation session session)
  (htrans : ∀ before middle after, relation before middle → relation middle after →
    relation before after)

include hrefl in
theorem Keeps.pure (value : α) : Keeps relation (pure value) :=
  fun session => hrefl session

include htrans in
theorem Keeps.bind {program : SessionM α} {next : α → SessionM β}
    (hprogram : Keeps relation program) (hnext : ∀ value, Keeps relation (next value)) :
    Keeps relation (program >>= next) := by
  intro session
  rw [bind_apply]
  exact htrans _ _ _ (hprogram session) (hnext _ _)

include htrans in
theorem Keeps.run_bind {program : ExceptT ε SessionM α} {next : α → ExceptT ε SessionM β}
    (hprogram : Keeps relation program.run) (hnext : ∀ value, Keeps relation (next value).run) :
    Keeps relation (program >>= next).run := by
  intro session
  show relation session (session.run (program >>= next)).2
  have hfirst : relation session (session.run program).2 := hprogram session
  rcases hrun : session.run program with ⟨failure | value, middle⟩
  · rw [hrun] at hfirst
    rw [run_bind_of_error hrun]
    exact hfirst
  · rw [hrun] at hfirst
    rw [run_bind_of_ok hrun]
    exact htrans _ _ _ hfirst (hnext value middle)

include hrefl in
theorem Keeps.isDirectory (path : Path) :
    Keeps relation (FileAccess.isDirectory path : SessionM Bool) :=
  fun session => hrefl session

include hrefl htrans in
theorem Keeps.unlessDirectory (path : Path) (fault : Fault) :
    Keeps relation (unlessDirectory path fault : SessionM (Except Fault Unit)) :=
  .bind htrans (.isDirectory hrefl path) fun _ => .pure hrefl _

include hrefl htrans in
/-- Making directories does no more than making some of them one by one. -/
theorem Keeps.makeFirst {paths : List Path}
    (hpaths : ∀ path ∈ paths,
      Keeps relation (FileAccess.makeDirectory path : SessionM (Except Fault Unit))) :
    Keeps relation (makeFirst paths : SessionM (Except Fault Unit)) := by
  induction paths with
  | nil => exact .pure hrefl _
  | cons path parents ih =>
    have hpath := hpaths path List.mem_cons_self
    have hparents := ih fun parent hparent => hpaths parent (List.mem_cons_of_mem _ hparent)
    rw [Files.makeFirst]
    split
    · exact .pure hrefl _
    refine .bind htrans hpath fun made => ?_
    split
    · exact .pure hrefl _
    · refine .bind htrans hparents fun prepared => ?_
      split
      · exact .pure hrefl _
      · refine .bind htrans hpath fun again => ?_
        split
        · exact .pure hrefl _
        · exact .unlessDirectory hrefl htrans path _
    · exact .unlessDirectory hrefl htrans path _

end Keeps

/-! ## Readers -/

/-- The program finds in the tree what it comes to, and leaves the session as it is. -/
def Reads (program : ExceptT ε SessionM α) (found : Tree → Except ε α) : Prop :=
  ∀ session : Session, session.run program = (found session.tree, session)

section Reads

variable {program : ExceptT ε SessionM α} {found : Tree → Except ε α}

theorem Reads.run_eq_ok {value : α} (h : Reads program found)
    (hfound : found session.tree = .ok value) : session.run program = (.ok value, session) := by
  rw [h, hfound]

theorem Reads.fst_run (h : Reads program found) (session : Session) :
    (session.run program).1 = found session.tree := by
  rw [h session]

theorem Reads.of_run_eq_ok {value : α} (h : Reads program found)
    (hrun : session.run program = (.ok value, after)) :
    found session.tree = .ok value ∧ after = session := by
  rw [h, Prod.mk.injEq] at hrun
  exact ⟨hrun.1, hrun.2.symm⟩

theorem Reads.pure (value : α) :
    Reads (pure value : ExceptT ε SessionM α) fun _ => .ok value :=
  fun _ => rfl

theorem Reads.throw (failure : ε) :
    Reads (throw failure : ExceptT ε SessionM α) fun _ => .error failure :=
  fun _ => rfl

theorem Reads.bind {next : α → ExceptT ε SessionM β} {foundNext : α → Tree → Except ε β}
    (hprogram : Reads program found) (hnext : ∀ value, Reads (next value) (foundNext value)) :
    Reads (program >>= next) fun tree => found tree >>= fun value => foundNext value tree := by
  intro session
  have hrun := hprogram session
  show _ = (found session.tree >>= fun value => foundNext value session.tree, session)
  cases hfound : found session.tree with
  | error failure =>
    rw [hfound] at hrun
    exact run_bind_of_error hrun next
  | ok value =>
    rw [hfound] at hrun
    rw [run_bind_of_ok hrun]
    exact hnext value session

end Reads

theorem reads_isPresent (path : Path) :
    Reads (liftM (FileAccess.isPresent path : SessionM Bool) : ExceptT ε SessionM Bool)
      fun tree => .ok (tree.isPresent path) :=
  fun _ => rfl

/-! ## Programs that look -/

/-- The program finds in the tree what it comes to, and leaves the tree as it is. -/
def Looks (program : ExceptT ε SessionM α) (found : Tree → Except ε α) : Prop :=
  ∀ session : Session, (session.run program).1 = found session.tree ∧
    (session.run program).2.tree = session.tree

section Looks

variable {program : ExceptT ε SessionM α} {found : Tree → Except ε α}

theorem Reads.looks (h : Reads program found) : Looks program found := by
  intro session
  rw [h session]
  exact ⟨rfl, rfl⟩

theorem Looks.bind {next : α → ExceptT ε SessionM β} {foundNext : α → Tree → Except ε β}
    (hprogram : Looks program found) (hnext : ∀ value, Looks (next value) (foundNext value)) :
    Looks (program >>= next) fun tree => found tree >>= fun value => foundNext value tree := by
  intro session
  show _ = (found session.tree >>= fun value => foundNext value session.tree) ∧ _
  obtain ⟨hfound, htree⟩ := hprogram session
  rcases hrun : session.run program with ⟨failure | value, middle⟩
  · rw [hrun] at hfound htree
    rw [run_bind_of_error hrun, ← hfound]
    exact ⟨rfl, htree⟩
  · rw [hrun] at hfound htree
    obtain ⟨hlast, hsame⟩ := hnext value middle
    rw [run_bind_of_ok hrun, ← hfound, hlast, htree]
    exact ⟨rfl, hsame.trans htree⟩

end Looks

end SchemaBinding.Files
