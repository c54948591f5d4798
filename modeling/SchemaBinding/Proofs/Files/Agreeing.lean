import SchemaBinding.Proofs.Files.Trees

/-!
# Trees that agree where one looks

Files to which a path does not lead do not matter for what is found there.  The
places on a way are directories, except for the last one, so trees of the same
directories lead a path to the same place, unless a file that appears or goes
away is the very one that the path leads to.
-/

namespace SchemaBinding.Files.Tree

variable {tree other : Tree} {paths : Path → Prop} {place location : Location} {path : Path}

/-- Two trees with the same directories, whose files differ only where none of some paths
leads. -/
structure AgreeAt (paths : Path → Prop) (tree other : Tree) : Prop where
  here : other.here = tree.here
  entry? : ∀ location, other.entry? location = tree.entry? location ∨
    tree.entry? location ≠ some .directory ∧ other.entry? location ≠ some .directory ∧
      ∀ path, paths path → tree.locate path ≠ .ok location ∧ other.locate path ≠ .ok location

namespace AgreeAt

theorem symm (h : AgreeAt paths tree other) : AgreeAt paths other tree := by
  refine ⟨h.here.symm, fun location => ?_⟩
  rcases h.entry? location with hsame | ⟨htree, hother, hnowhere⟩
  · exact Or.inl hsame.symm
  · exact Or.inr ⟨hother, htree, fun path hpath => (hnowhere path hpath).symm⟩

theorem directory (h : AgreeAt paths tree other)
    (hdirectory : tree.entry? location = some .directory) :
    other.entry? location = some .directory := by
  rcases h.entry? location with hsame | ⟨hnot, -, -⟩
  · rw [hsame, hdirectory]
  · exact absurd hdirectory hnot

/-- What a way leads through is a directory, and what it ends at is there in both trees. -/
theorem walk (h : AgreeAt paths tree other) {segments : List String}
    (hwalk : tree.walk place segments = .ok location)
    (hend : other.entry? location = tree.entry? location) :
    other.walk place segments = .ok location := by
  induction segments generalizing place with
  | nil => exact hwalk
  | cons segment segments ih =>
    rw [Tree.walk, List.foldlM_cons] at hwalk ⊢
    cases hstep : tree.enter place segment with
    | error fault => rw [hstep] at hwalk; cases hwalk
    | ok next =>
      rw [hstep] at hwalk
      have hrest : tree.walk next segments = .ok location := hwalk
      have hnext : (tree.entry? next).isSome → (other.entry? next).isSome := by
        intro hthere
        cases segments with
        | nil =>
          obtain rfl := Except.ok.inj hrest
          rwa [hend]
        | cons second later =>
          rw [Tree.walk, List.foldlM_cons] at hrest
          cases henter : tree.enter next second with
          | error fault => rw [henter] at hrest; cases hrest
          | ok _ =>
            rw [h.directory (directory_of_enter henter)]
            rfl
      rw [enter_of_kept hstep (h.directory (directory_of_enter hstep)) hnext]
      exact ih hrest

theorem locate (h : AgreeAt paths tree other) (hpath : paths path)
    (hlocate : tree.locate path = .ok location) :
    other.locate path = .ok location ∧ other.entry? location = tree.entry? location := by
  have hend : other.entry? location = tree.entry? location := by
    rcases h.entry? location with hsame | ⟨-, -, hnowhere⟩
    · exact hsame
    · exact absurd hlocate (hnowhere path hpath).1
  refine ⟨?_, hend⟩
  rw [Tree.locate] at hlocate ⊢
  cases hfault : pathFault? path with
  | some fault => rw [hfault] at hlocate; cases hlocate
  | none =>
    rw [hfault] at hlocate
    rw [Tree.start, h.here]
    exact h.walk hlocate hend

theorem isPresent_eq (h : AgreeAt paths tree other) (hpath : paths path) :
    other.isPresent path = tree.isPresent path := by
  rw [Bool.eq_iff_iff, isPresent_eq_true_iff, isPresent_eq_true_iff]
  constructor
  · rintro ⟨location, hlocate⟩
    exact ⟨location, (h.symm.locate hpath hlocate).1⟩
  · rintro ⟨location, hlocate⟩
    exact ⟨location, (h.locate hpath hlocate).1⟩

theorem readText (h : AgreeAt paths tree other) (hpath : paths path) {text : String}
    (hread : tree.readText path = .ok text) : other.readText path = .ok text := by
  obtain ⟨location, bytes, hlocate, hentry, htext⟩ := readText_eq_ok hread
  obtain ⟨hlocate, hsame⟩ := h.locate hpath hlocate
  obtain rfl := eq_toUTF8_of_fromUTF8? htext
  exact readText_of_file hlocate (hsame.trans hentry)

end AgreeAt

end SchemaBinding.Files.Tree
