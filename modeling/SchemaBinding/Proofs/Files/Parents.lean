import Mathlib.Data.String.Basic
import SchemaBinding.Proofs.Files.Sessions
import SchemaBinding.Proofs.Files.Trees
import SchemaBinding.Proofs.Results
import SchemaBinding.Proofs.Text.Lines

/-!
# Parents of paths

The parent of a path is empty, or it is the root, or it is the path up to one
of its slashes.  The way to such a parent is the first part of the way that the
path takes, so whoever can follow the path can follow its parents.  Directories
that are made along a path are made where it leads up to one of its slashes.
-/

namespace SchemaBinding

open Files

namespace Path

variable {text parent : List Char} {front path other : Path}

/-! ## The text of a parent -/

/-- Blanks that are skipped end in a slash, unless nothing is left behind them. -/
theorem skipBlank_cases
    (text : List Char) :
    skipBlank text = [] ∨ skipBlank text = text ∨
      ∃ blanks, text = blanks ++ '/' :: skipBlank text := by
  fun_induction skipBlank text with
  | case1 rest ih =>
    rcases ih with hnone | hall | ⟨blanks, hblanks⟩
    · exact Or.inl hnone
    · exact Or.inr (Or.inr ⟨[], by rw [hall, List.nil_append]⟩)
    · exact Or.inr (Or.inr ⟨'/' :: blanks, by rw [List.cons_append, ← hblanks]⟩)
  | case2 => exact Or.inl rfl
  | case3 rest ih =>
    rcases ih with hnone | hall | ⟨blanks, hblanks⟩
    · exact Or.inl hnone
    · exact Or.inr (Or.inr ⟨['.'], by rw [hall]; rfl⟩)
    · exact Or.inr (Or.inr ⟨'.' :: '/' :: blanks, by
        rw [List.cons_append, List.cons_append, ← hblanks]⟩)
  | case4 rest => exact Or.inr (Or.inl rfl)

/-- Behind a name there is a slash to be skipped, if there is anything. -/
theorem skipBlank_dropWhile_cases
    (kept : List Char) :
    skipBlank (kept.dropWhile (· != '/')) = [] ∨
      ∃ blanks, kept.dropWhile (· != '/') =
        blanks ++ '/' :: skipBlank (kept.dropWhile (· != '/')) := by
  rcases skipBlank_cases (kept.dropWhile (· != '/')) with hnone | hall | hblanks
  · exact Or.inl hnone
  · left
    have hskipped := head?_skipBlank_ne_slash (kept.dropWhile (· != '/'))
    have hname := List.head?_dropWhile_not (· != '/') kept
    rw [hall] at hskipped ⊢
    cases hdrop : kept.dropWhile (· != '/') with
    | nil => rfl
    | cons c cs =>
      rw [hdrop] at hskipped hname
      exact absurd (by simpa using hname) (by simpa using hskipped)
  · exact Or.inr hblanks

theorem anchored_append (text : List Char) : (anchored text).1 ++ (anchored text).2 = text := by
  fun_cases anchored text <;> rfl

/-- Only a slash, or a dot in front of one, is cut off from a text that goes on. -/
theorem anchored_cases
    (text : List Char) :
    (anchored text).1 = [] ∨ (anchored text).1 = ['/'] ∨ (anchored text).2 = [] ∨
      ∃ rest, (anchored text).2 = '/' :: rest := by
  fun_cases anchored text with
  | case1 body => exact Or.inr (Or.inl rfl)
  | case2 => exact Or.inr (Or.inr (Or.inl rfl))
  | case3 body => exact Or.inr (Or.inr (Or.inr ⟨body, rfl⟩))
  | case4 => exact Or.inl rfl

theorem eq_reverse_skipBlank_append
    {body : List Char} (h : skipBlank body.reverse ≠ []) :
    ∃ blanks, body = (skipBlank body.reverse).reverse ++ blanks := by
  rcases skipBlank_cases body.reverse with hnone | hall | ⟨blanks, hblanks⟩
  · exact absurd hnone h
  · exact ⟨[], by rw [hall, List.reverse_reverse, List.append_nil]⟩
  · refine ⟨'/' :: blanks.reverse, ?_⟩
    have hreverse := congrArg List.reverse hblanks
    rw [List.reverse_reverse] at hreverse
    simpa using hreverse

/-- A parent is the empty text, the root, or the text up to one of its slashes. -/
theorem parentText_cases (h : parentText text = some parent) :
    parent = [] ∨ parent = ['/'] ∨ ∃ rest, text = parent ++ '/' :: rest := by
  have hall := anchored_append text
  have hanchor := anchored_cases text
  rw [parentText] at h
  generalize anchored text = halves at h hall hanchor
  obtain ⟨anchor, body⟩ := halves
  dsimp only at h hall hanchor
  split at h
  · split at h
    · exact Or.inl (Option.some.inj h).symm
    · cases h
  next hsome =>
    have hparent := Option.some.inj h
    have hbody : body ≠ [] := fun hbody => hsome (by rw [hbody]; rfl)
    obtain ⟨blanks, hkept⟩ := eq_reverse_skipBlank_append hsome
    generalize skipBlank body.reverse = kept at hparent hkept
    have hname := List.takeWhile_append_dropWhile (p := (· != '/')) (l := kept)
    rcases skipBlank_dropWhile_cases kept with hnone | ⟨more, hmore⟩
    · -- nothing but the name and blanks, so only what was cut off is left
      rw [hnone, List.reverse_nil, List.append_nil] at hparent
      rw [← hparent]
      rcases hanchor with hfree | hroot | hempty | ⟨rest, hrest⟩
      · exact Or.inl hfree
      · exact Or.inr (Or.inl hroot)
      · exact absurd hempty hbody
      · exact Or.inr (Or.inr ⟨rest, by rw [← hall, hrest]⟩)
    · right
      right
      rw [← hall, hkept, ← hname, hmore, ← hparent]
      exact ⟨more.reverse ++ (kept.takeWhile (· != '/')).reverse ++ blanks, by simp⟩

/-! ## Paths that are cut short -/

/-- The first path is the second one up to one of its slashes. -/
def Heads (front path : Path) : Prop :=
  ∃ rest, path.text.toList = front.text.toList ++ '/' :: rest

theorem Heads.trans (hfirst : front.Heads other) (hsecond : other.Heads path) :
    front.Heads path := by
  obtain ⟨between, hbetween⟩ := hfirst
  obtain ⟨rest, hrest⟩ := hsecond
  exact ⟨between ++ '/' :: rest, by rw [hrest, hbetween, List.append_assoc, List.cons_append]⟩

/-- A path is empty, or the root, or another one up to one of its slashes. -/
def IsAbove (front path : Path) : Prop :=
  front.text = "" ∨ front.text = "/" ∨ front.Heads path

theorem IsAbove.trans (hfirst : front.IsAbove other) (hsecond : other.IsAbove path) :
    front.IsAbove path := by
  rcases hfirst with hempty | hroot | hheads
  · exact Or.inl hempty
  · exact Or.inr (Or.inl hroot)
  rcases hsecond with hempty | hroot | hrest
  · obtain ⟨rest, hrest⟩ := hheads
    rw [hempty] at hrest
    simp at hrest
  · obtain ⟨rest, hrest⟩ := hheads
    rw [hroot] at hrest
    left
    cases htext : front.text.toList with
    | nil => exact String.toList_eq_nil_iff.mp htext
    | cons c cs =>
      rw [htext] at hrest
      simp at hrest
  · exact Or.inr (Or.inr (hheads.trans hrest))

theorem isAbove_of_parent? {parent : Path} (h : path.parent? = some parent) :
    parent.IsAbove path := by
  rw [parent?, Option.map_eq_some_iff] at h
  obtain ⟨text, htext, rfl⟩ := h
  rcases parentText_cases htext with rfl | rfl | ⟨rest, hrest⟩
  · exact Or.inl rfl
  · exact Or.inr (Or.inl rfl)
  · exact Or.inr (Or.inr ⟨rest, by rw [hrest, String.toList_ofList]⟩)

theorem isAbove_of_mem_ancestors (h : front ∈ path.ancestors) : front = path ∨ front.IsAbove path := by
  have htexts : ∀ text : List Char, ∀ ancestor ∈ ancestorTexts text,
      ancestor = text ∨ IsAbove ⟨String.ofList ancestor⟩ ⟨String.ofList text⟩ := by
    intro text
    fun_induction ancestorTexts text with
    | case1 text hnone =>
      intro ancestor hancestor
      exact Or.inl (List.mem_singleton.mp hancestor)
    | case2 text parent hparent ih =>
      intro ancestor hancestor
      rcases List.mem_cons.mp hancestor with hself | hmem
      · exact Or.inl hself
      have habove : IsAbove ⟨String.ofList parent⟩ ⟨String.ofList text⟩ :=
        isAbove_of_parent? (by rw [parent?, String.toList_ofList, hparent]; rfl)
      rcases ih ancestor hmem with rfl | hmore
      · exact Or.inr habove
      · exact Or.inr (hmore.trans habove)
  obtain ⟨text, hmem, rfl⟩ := List.mem_map.mp h
  rcases htexts _ text hmem with rfl | habove
  · left
    rw [String.ofList_toList]
  · right
    rwa [String.ofList_toList] at habove

end Path

/-! ## Ways to parents -/

namespace Files

namespace Tree

variable {tree : Tree} {location : Location} {front path : Path}

theorem walk_append
    (tree : Tree) (place : Location) (first second : List String) :
    tree.walk place (first ++ second) =
      tree.walk place first >>= fun middle => tree.walk middle second :=
  List.foldlM_append

theorem pathFault?_eq_none_iff :
    pathFault? path = none ↔
      path.hasNul = false ∧ path.text ≠ "" ∧ path.text.utf8ByteSize < pathLimit := by
  rw [pathFault?]
  cases path.hasNul with
  | true => simp
  | false =>
    by_cases htext : path.text = ""
    · simp [htext]
    · simp [htext]

/-- Where characters of a path are left out, no fault comes up. -/
theorem pathFault?_of_sublist (h : front.text.toList.Sublist path.text.toList)
    (htext : front.text ≠ "") (hpath : pathFault? path = none) : pathFault? front = none := by
  obtain ⟨hnul, -, hshort⟩ := pathFault?_eq_none_iff.mp hpath
  refine pathFault?_eq_none_iff.mpr ⟨?_, htext, ?_⟩
  · rw [Path.hasNul, List.contains_eq_mem, decide_eq_false_iff_not] at hnul ⊢
    exact fun hmem => hnul (h.subset hmem)
  · have hle := String.utf8Len_le_of_sublist h
    rw [String.utf8Len_toList, String.utf8Len_toList] at hle
    exact Nat.lt_of_le_of_lt hle hshort

theorem pathFault?_of_heads (h : front.Heads path) (htext : front.text ≠ "")
    (hpath : pathFault? path = none) : pathFault? front = none := by
  obtain ⟨rest, hrest⟩ := h
  exact pathFault?_of_sublist (hrest ▸ List.sublist_append_left _ _) htext hpath

theorem locate_eq_ok_iff :
    tree.locate path = .ok location ↔
      pathFault? path = none ∧ tree.walk (tree.start path) path.segments = .ok location := by
  rw [locate]
  cases pathFault? path with
  | some fault =>
    constructor
    · rintro ⟨⟩
    · rintro ⟨⟨⟩, -⟩
  | none => exact ⟨fun h => ⟨rfl, h⟩, fun h => h.2⟩

theorem start_of_heads (h : front.Heads path) (htext : front.text ≠ "") :
    tree.start front = tree.start path := by
  obtain ⟨rest, hrest⟩ := h
  have habsolute : front.isAbsolute = path.isAbsolute := by
    rw [Path.isAbsolute, Path.isAbsolute, hrest]
    cases hfront : front.text.toList with
    | nil => exact absurd (String.toList_eq_nil_iff.mp hfront) htext
    | cons c cs => rfl
  rw [start, start, habsolute]

/-- Who can follow a path can follow it up to any of its slashes. -/
theorem exists_locate_of_heads (h : front.Heads path) (htext : front.text ≠ "")
    (hlocate : tree.locate path = .ok location) : ∃ place, tree.locate front = .ok place := by
  have hsegments : ∃ segments, path.segments = front.segments ++ segments := by
    obtain ⟨rest, hrest⟩ := h
    exact ⟨(Text.split '/' rest).map String.ofList, by
      rw [Path.segments, Path.segments, hrest, Text.split_append_cons, List.map_append]⟩
  obtain ⟨segments, hsegments⟩ := hsegments
  obtain ⟨hfault, hwalk⟩ := locate_eq_ok_iff.mp hlocate
  rw [hsegments, walk_append, ← start_of_heads h htext] at hwalk
  obtain ⟨place, hplace, -⟩ := bind_eq_ok hwalk
  exact ⟨place, locate_eq_ok_iff.mpr ⟨pathFault?_of_heads h htext hfault, hplace⟩⟩

theorem locate_dot (hhere : tree.entry? tree.here = some .directory) :
    tree.locate ⟨"."⟩ = .ok tree.here := by
  have hlocate : tree.locate ⟨"."⟩ = tree.enter tree.here "." := locate_name rfl rfl rfl
  rw [hlocate, enter, hhere]
  rfl

/-- Who can follow a path can follow the path of the directory that holds what it leads to. -/
theorem exists_locate_directory (hhere : tree.entry? tree.here = some .directory)
    (hlocate : tree.locate path = .ok location) : ∃ place, tree.locate path.directory = .ok place := by
  rw [Path.directory]
  cases hparent : path.parent? with
  | none => exact ⟨_, locate_dot hhere⟩
  | some parent =>
    dsimp only
    split
    · exact ⟨_, locate_dot hhere⟩
    next htext =>
      rcases Path.isAbove_of_parent? hparent with hempty | hroot | hheads
      · exact absurd hempty htext
      · obtain ⟨text⟩ := parent
        obtain rfl : text = "/" := hroot
        exact ⟨[], rfl⟩
      · exact exists_locate_of_heads hheads htext hlocate

/-! ## Directories along a path -/

/-- A tree with new directories, each where the path leads up to one of its slashes, and
nothing else that is new. -/
structure GrownAlong (path : Path) (before after : Tree) : Prop where
  here : after.here = before.here
  entry? : ∀ location, after.entry? location = before.entry? location ∨
    before.entry? location = none ∧ after.entry? location = some .directory ∧
      ∃ front : Path, front.Heads path ∧ after.locate front = .ok location

variable {before middle after : Tree}

theorem GrownAlong.refl (path : Path) (tree : Tree) : GrownAlong path tree tree :=
  ⟨rfl, fun _ => Or.inl rfl⟩

theorem GrownAlong.grown (h : GrownAlong path before after) : Grown before after :=
  ⟨h.here, fun location => (h.entry? location).imp_right fun hnew => ⟨hnew.1, hnew.2.1⟩⟩

theorem GrownAlong.trans (hfirst : GrownAlong path before middle)
    (hsecond : GrownAlong path middle after) : GrownAlong path before after := by
  refine ⟨hsecond.here.trans hfirst.here, fun location => ?_⟩
  rcases hsecond.entry? location with hsame | ⟨hnone, hnew⟩
  · rw [hsame]
    rcases hfirst.entry? location with hold | ⟨hnone, hnew, front, hheads, hlocate⟩
    · exact Or.inl hold
    · exact Or.inr ⟨hnone, hnew, front, hheads, hsecond.grown.persists.locate hlocate⟩
  · rcases hfirst.entry? location with hold | ⟨-, hdirectory, -⟩
    · exact Or.inr ⟨hold ▸ hnone, hnew⟩
    · rw [hdirectory] at hnone
      cases hnone

/-- No directory can be made above all others, and one that is made is where its path leads. -/
theorem grownAlong_of_makeDirectory (hfront : front.IsAbove path)
    (h : tree.makeDirectory front = .ok after) : GrownAlong path tree after := by
  obtain ⟨text⟩ := front
  rcases hfront with rfl | rfl | hheads
  · cases h
  · cases h
  obtain ⟨location, hslot, hname, hentry, rfl⟩ := exists_slot_of_makeDirectory h
  have hset (other : Location) : Tree.entry? (tree.set location .directory) other =
      if other = location then some .directory else tree.entry? other :=
    lookup_set (ne_nil_of_slot? hslot) .directory other
  have hnew : Tree.entry? (tree.set location .directory) location = some .directory := by
    rw [hset, if_pos rfl]
  refine ⟨rfl, fun other => ?_⟩
  by_cases hother : other = location
  · subst hother
    exact Or.inr ⟨hentry, hnew, _, hheads,
      locate_slot_of_directory hslot hname (makeDirectory_eq_ok h).persists hnew⟩
  · rw [hset, if_neg hother]
    exact Or.inl rfl

end Tree

/-- A session in which nothing but directories along a path may be new. -/
structure Session.GrownAlong (path : Path) (before after : Session) : Prop where
  printed : after.printed = before.printed
  tree : Tree.GrownAlong path before.tree after.tree

theorem Session.GrownAlong.refl (path : Path) (session : Session) :
    Session.GrownAlong path session session :=
  ⟨rfl, Tree.GrownAlong.refl path _⟩

theorem Session.GrownAlong.trans {path : Path} (before middle after : Session)
    (hfirst : Session.GrownAlong path before middle)
    (hsecond : Session.GrownAlong path middle after) : Session.GrownAlong path before after :=
  ⟨hsecond.printed.trans hfirst.printed, hfirst.tree.trans hsecond.tree⟩

theorem grownAlong_makeDirectory {front path : Path} (hfront : front.IsAbove path) :
    Keeps (Session.GrownAlong path)
      (FileAccess.makeDirectory front : SessionM (Except Fault Unit)) := by
  intro session
  show Session.GrownAlong path session (session.takeOver (session.tree.makeDirectory front)).2
  cases hmade : session.tree.makeDirectory front with
  | error fault => exact Session.GrownAlong.refl path session
  | ok tree => exact ⟨rfl, Tree.grownAlong_of_makeDirectory hfront hmade⟩

end Files

end SchemaBinding
