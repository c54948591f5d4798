import SchemaBinding.Proofs.Project.Runs

/-!
# Writing a file

A delivery answers in one of four ways.  It is only shown where that was asked
for, and there is nothing to do where the content stands already; both leave
everything as it is.  Otherwise the file is written, or there is an error.  Then
there may be new directories, on the way that the path takes, but beside the
file that was written all other files are as they were.
-/

namespace SchemaBinding

open Files

variable {session after : Session} {path : Path} {content : String} {preview : Bool}

namespace Files.Tree

/-- A tree with a file where a path leads, in place of a file or of nothing, and with new
directories where the path leads up to one of its slashes.  All else is as it was. -/
structure WrittenAlong (path : Path) (bytes : ByteArray) (before after : Tree) : Prop where
  here : after.here = before.here
  file : ∃ location, after.locate path = .ok location ∧
    before.entry? location ≠ some .directory ∧ after.entry? location = some (.file bytes) ∧
    ∀ other, other ≠ location → after.entry? other = before.entry? other ∨
      before.entry? other = none ∧ after.entry? other = some .directory ∧
        ∃ front : Path, front.Heads path ∧ after.locate front = .ok other

theorem Written.along {before middle after : Tree} {bytes : ByteArray}
    (hgrown : GrownAlong path before middle) (h : Written path bytes middle after) :
    WrittenAlong path bytes before after := by
  obtain ⟨location, hlocate, hentry, hfile, helsewhere⟩ := h.file
  refine ⟨h.here.trans hgrown.here, location, hlocate, ?_, hfile, ?_⟩
  · intro hdirectory
    exact hentry (hgrown.grown.persists.directory location hdirectory)
  · intro other hother
    rw [helsewhere other hother]
    refine (hgrown.entry? other).imp_right ?_
    rintro ⟨hnone, hnew, front, hheads, hfront⟩
    exact ⟨hnone, hnew, front, hheads, h.persists.locate hfront⟩

theorem WrittenAlong.readText {before after : Tree}
    (h : WrittenAlong path content.toUTF8 before after) : after.readText path = .ok content := by
  obtain ⟨location, hlocate, -, hfile, -⟩ := h.file
  exact readText_of_file hlocate hfile

end Files.Tree

/-- The fault is one of the path itself, or of its parent. -/
def WriteFault.Concerns (path : Path) : WriteFault → Prop
  | directory parent _ => path.parent? = some parent
  | file written _ => written = path

theorem exists_concerns_of_deliver {failure : Failure}
    (h : session.run (deliver false path content) = (.error failure, after)) :
    ∃ fault : WriteFault, fault.Concerns path ∧ failure = .writing fault := by
  rw [deliver, if_neg Bool.false_ne_true, run_bind_of_ok (reads_holds _ _ session)] at h
  split at h
  · cases h
  rcases hprepare : session.run (prepareDirectory path) with ⟨told | prepared, middle⟩
  · rw [run_bind_of_error hprepare] at h
    cases h
    obtain ⟨parent, fault, hparent, rfl⟩ := exists_fault_of_prepareDirectory hprepare
    exact ⟨.directory parent fault, hparent, rfl⟩
  · rw [run_bind_of_ok hprepare] at h
    rcases hwrite : middle.run (orFail (.writing ∘ .file path) (FileAccess.writeText path content))
      with ⟨told | written, last⟩
    · rw [run_bind_of_error hwrite] at h
      cases h
      obtain ⟨fault, rfl⟩ := exists_fault_of_orFail hwrite
      exact ⟨.file path fault, rfl, rfl⟩
    · rw [run_bind_of_ok hwrite] at h
      cases h

/-- Where the content does not stand yet, a delivery that succeeds has written it. -/
theorem delivery_eq_written {delivery : Delivery}
    (hread : session.tree.readText path ≠ .ok content)
    (h : session.run (deliver false path content) = (.ok delivery, after)) :
    delivery = .written content.utf8ByteSize := by
  rw [deliver, if_neg Bool.false_ne_true, run_bind_of_ok (reads_holds _ _ session),
    if_neg (mt Tree.holds_eq_true_iff.mp hread)] at h
  obtain ⟨-, prepared, -, hprepared⟩ := run_bind_eq_ok h
  obtain ⟨-, written, -, hwritten⟩ := run_bind_eq_ok hprepared
  cases hwritten
  rfl

/-- A delivery is shown only if that is asked for, it leaves a file alone that has the content
already, and otherwise it writes the content or fails.  When it fails, at the path or at its
parent, there are new directories at most; when it writes, all other files are as they were.
The same delivery has nothing to do then. -/
theorem deliver_contract {result : Except Failure Delivery}
    (h : session.run (deliver preview path content) = (result, after)) :
    after.printed = session.printed ∧
    (result = .ok .previewed ↔ preview = true) ∧
    (result = .ok .unchanged ↔
      preview = false ∧ session.tree.readText path = .ok content) ∧
    (result = .ok .previewed ∨ result = .ok .unchanged → after = session) ∧
    (preview = false → session.tree.readText path ≠ .ok content →
      (result = .ok (.written content.utf8ByteSize) ∧
          after.tree.readText path = .ok content ∧
          Tree.WrittenAlong path content.toUTF8 session.tree after.tree) ∨
        (∃ fault : WriteFault, fault.Concerns path ∧ result = .error (.writing fault)) ∧
          Tree.GrownAlong path session.tree after.tree) ∧
    ∀ delivery, result = .ok delivery → delivery ≠ .previewed →
      after.run (deliver false path content) = (.ok .unchanged, after) := by
  cases preview with
  | true =>
    obtain ⟨rfl, rfl⟩ : .ok .previewed = result ∧ session = after := by
      cases h
      exact ⟨rfl, rfl⟩
    refine ⟨rfl, by simp, by simp, fun _ => rfl, by simp, ?_⟩
    intro delivery hdelivery hshown
    exact absurd (Except.ok.inj hdelivery).symm hshown
  | false =>
    by_cases hread : session.tree.readText path = .ok content
    · rw [run_deliver_of_readText hread] at h
      cases h
      refine ⟨rfl, by simp, by simp [hread], fun _ => rfl, ?_, ?_⟩
      · intro _ hunread
        exact absurd hread hunread
      · intro _ _ _
        exact run_deliver_of_readText hread
    · obtain ⟨hprinted, hcases⟩ := deliver_cases h
      rcases hcases with ⟨delivery, rfl, middle, hgrown, hwritten⟩ | ⟨⟨fault, rfl⟩, hgrown⟩
      · obtain rfl := delivery_eq_written hread h
        have halong := hwritten.along hgrown
        refine ⟨hprinted, by simp, by simp [hread], by simp, ?_, ?_⟩
        · intro _ _
          exact Or.inl ⟨rfl, halong.readText, halong⟩
        · intro _ _ _
          exact run_deliver_of_readText halong.readText
      · obtain ⟨_, hconcerns, ⟨⟩⟩ := exists_concerns_of_deliver h
        refine ⟨hprinted, by simp, by simp [hread], by simp, ?_, by simp⟩
        intro _ _
        exact Or.inr ⟨⟨fault, hconcerns, rfl⟩, hgrown⟩

/-- A working directory, the root, with one file in it. -/
def draftSession : Session :=
  ⟨{ entries := [(["draft"], .file "a".toUTF8)] }, ""⟩

/-- A file that is written by way of a directory that is not there, and one that would lie
beyond a file: for both of them the directory is made. -/
theorem deliver_contract_draftSession :
    (∃ after, draftSession.run (deliver false ⟨"new/../draft"⟩ "b") = (.ok (.written 1), after) ∧
      after.tree.readText ⟨"new/../draft"⟩ = .ok "b" ∧
      (after.tree.entry? ["new"]).any Entry.isDirectory = true ∧
      after.run (deliver false ⟨"new/../draft"⟩ "b") = (.ok .unchanged, after)) ∧
    (∃ fault after,
      draftSession.run (deliver false ⟨"new/../draft/b"⟩ "") = (.error (.writing fault), after) ∧
      (after.tree.entry? ["new"]).any Entry.isDirectory = true ∧
      Tree.GrownAlong ⟨"new/../draft/b"⟩ draftSession.tree after.tree) ∧
    draftSession.run (deliver false ⟨"./draft"⟩ "a") = (.ok .unchanged, draftSession) ∧
    draftSession.run (deliver true ⟨"draft"⟩ "b") = (.ok .previewed, draftSession) := by
  refine ⟨?_, ?_, ?_, ?_⟩
  · have hok : (draftSession.run (deliver false ⟨"new/../draft"⟩ "b")).1.isOk = true := by
      decide +kernel
    have hnew : ((draftSession.run (deliver false ⟨"new/../draft"⟩ "b")).2.tree.entry?
        ["new"]).any Entry.isDirectory = true := by
      decide +kernel
    have hunread : draftSession.tree.readText ⟨"new/../draft"⟩ ≠ .ok "b" := by
      have habsent : draftSession.tree.readText ⟨"new/../draft"⟩ = .error .notFound := rfl
      simp [habsent]
    rcases hrun : draftSession.run (deliver false ⟨"new/../draft"⟩ "b") with ⟨result, after⟩
    rw [hrun] at hok hnew
    obtain ⟨-, -, -, -, hcases, hagain⟩ := deliver_contract hrun
    rcases hcases rfl hunread with ⟨rfl, hread, -⟩ | ⟨⟨fault, -, rfl⟩, -⟩
    · exact ⟨after, rfl, hread, hnew, hagain _ rfl (by simp)⟩
    · cases hok
  · have herror : (draftSession.run (deliver false ⟨"new/../draft/b"⟩ "")).1.isOk = false := by
      decide +kernel
    have hnew : ((draftSession.run (deliver false ⟨"new/../draft/b"⟩ "")).2.tree.entry?
        ["new"]).any Entry.isDirectory = true := by
      decide +kernel
    have hunread : draftSession.tree.readText ⟨"new/../draft/b"⟩ ≠ .ok "" := by
      have habsent : draftSession.tree.readText ⟨"new/../draft/b"⟩ = .error .notFound := rfl
      simp [habsent]
    rcases hrun : draftSession.run (deliver false ⟨"new/../draft/b"⟩ "") with ⟨result, after⟩
    rw [hrun] at herror hnew
    obtain ⟨-, -, -, -, hcases, -⟩ := deliver_contract hrun
    rcases hcases rfl hunread with ⟨rfl, -, -⟩ | ⟨⟨fault, -, rfl⟩, hgrown⟩
    · cases herror
    · exact ⟨fault, after, rfl, hnew, hgrown⟩
  · rcases hrun : draftSession.run (deliver false ⟨"./draft"⟩ "a") with ⟨result, after⟩
    obtain ⟨-, -, hunchanged, hsame, -, -⟩ := deliver_contract hrun
    obtain rfl := hunchanged.mpr ⟨rfl, rfl⟩
    rw [hsame (Or.inr rfl)]
  · rcases hrun : draftSession.run (deliver true ⟨"draft"⟩ "b") with ⟨result, after⟩
    obtain ⟨-, hshown, -, hsame, -, -⟩ := deliver_contract hrun
    obtain rfl := hshown.mpr rfl
    rw [hsame (Or.inl rfl)]

end SchemaBinding
