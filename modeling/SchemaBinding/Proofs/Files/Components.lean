import SchemaBinding.Proofs.Files.Segments
import SchemaBinding.Proofs.Results

/-!
# Components of paths

A path says its way in components: the root or a dot that it starts with, the
names of its segments and the steps up.  Empty segments and other lone dots are
no components.  The directory of a path with a name at its end is the path up to
that name, so the two put together have the components of the path, and lead
where the path leads.
-/

namespace SchemaBinding

open Files

namespace Path

variable {path : Path} {name : String}

/-- A part of a path that counts. -/
inductive Component where
  | root
  /-- The dot that a path starts with. -/
  | here
  | up
  | name (name : String)
deriving DecidableEq, Repr

/-- What a segment says; one that is empty or a lone dot says nothing. -/
def Component.ofSegment? (segment : String) : Option Component :=
  if segment = "" ∨ segment = "." then none
  else if segment = ".." then some .up
  else some (.name segment)

/-- What a path starts with, before its segments say anything. -/
def lead (path : Path) : List Component :=
  if path.isAbsolute then [.root]
  else if path.segments.head? = some "." then [.here]
  else []

/-- The way of a path, without the blanks in it. -/
def components (path : Path) : List Component :=
  path.lead ++ path.segments.filterMap Component.ofSegment?

theorem lead_of_segments {first : String} {rest : List String} (h : path.segments = first :: rest)
    (hrest : rest ≠ []) :
    path.lead = if first = "" then [.root] else if first = "." then [.here] else [] := by
  rw [lead, isAbsolute_of_segments h, h]
  simp [hrest]

/-! ## Components of a path with a name at its end -/

theorem filterMap_ofSegment?_of_blank {segments : List String}
    (h : ∀ segment ∈ segments, IsBlankSegment segment) :
    segments.filterMap Component.ofSegment? = [] :=
  List.filterMap_eq_nil_iff.mpr fun segment hsegment => if_pos (h segment hsegment)

theorem ofSegment?_of_not_blank {segment : String} (h : ¬ IsBlankSegment segment) :
    Component.ofSegment? segment = some (if segment = ".." then .up else .name segment) := by
  have hname : ¬ (segment = "" ∨ segment = ".") := h
  rw [Component.ofSegment?, if_neg hname]
  split <;> rfl

theorem components_of_segments (front : List String) {between behind : List String}
    {last : String} (hbetween : ∀ segment ∈ between, IsBlankSegment segment)
    (hbehind : ∀ segment ∈ behind, IsBlankSegment segment) (hlast : ¬ IsBlankSegment last)
    (h : path.segments = front ++ between ++ last :: behind) :
    path.components = path.lead ++ front.filterMap Component.ofSegment? ++
      [if last = ".." then .up else .name last] := by
  rw [components, h, List.filterMap_append, List.filterMap_append,
    List.filterMap_cons_some (ofSegment?_of_not_blank hlast),
    filterMap_ofSegment?_of_blank hbetween, filterMap_ofSegment?_of_blank hbehind,
    List.append_nil, List.append_assoc]

theorem getLast?_lead_ne_name (path : Path) (name : String) :
    path.lead.getLast? ≠ some (.name name) := by
  rw [lead]
  split
  · nofun
  · split
    · nofun
    · nofun

/-- The last name of a path is its last component, if that is a name. -/
theorem fileName?_eq_some_iff :
    path.fileName? = some name ↔ path.components.getLast? = some (.name name) := by
  rw [fileName?_eq_some_iff_skipBlank]
  by_cases hkept : skipBlank (anchored path.text.toList).2.reverse = []
  · rw [components, filterMap_ofSegment?_of_blank (isBlankSegment_of_skipBlank hkept),
      List.append_nil]
    exact iff_of_false (fun h => h.1 hkept) (getLast?_lead_ne_name path name)
  · obtain ⟨last, hlast⟩ : ∃ last : String, last.toList =
        ((skipBlank (anchored path.text.toList).2.reverse).takeWhile (· != '/')).reverse :=
      ⟨String.ofList _, String.toList_ofList⟩
    obtain ⟨front, between, behind, hbetween, hbehind, hblank, hsegments, -⟩ :=
      exists_segments_of_skipBlank hkept hlast
    rw [components_of_segments front hbetween hbehind hblank hsegments, List.getLast?_concat, ← hlast,
      String.toList_inj, Option.some.injEq]
    split
    next hup => exact ⟨fun ⟨_, hname, hnot⟩ => absurd (hname.trans hup) hnot, nofun⟩
    next hup =>
      rw [Component.name.injEq]
      exact ⟨fun ⟨_, hname, _⟩ => hname.symm, fun hname => ⟨hkept, hname.symm, hname ▸ hup⟩⟩

/-- The segments of a path with a name at its end. -/
theorem exists_segments_of_fileName? (h : path.fileName? = some name) :
    ∃ front between behind, (∀ segment ∈ between, IsBlankSegment segment) ∧
      (∀ segment ∈ behind, IsBlankSegment segment) ∧ ¬ IsBlankSegment name ∧ name ≠ ".." ∧
      path.segments = front ++ between ++ name :: behind ∧
      (front = [] ∧ between = [] ∧ (path.directory.join ⟨name⟩).segments = [".", name] ∨
        front ≠ [] ∧ (path.directory.join ⟨name⟩).segments = front ++ [name]) := by
  obtain ⟨hkept, hname, hup⟩ := fileName?_eq_some_iff_skipBlank.mp h
  obtain ⟨front, between, behind, hbetween, hbehind, hblank, hdirectory⟩ :=
    exists_segments_of_skipBlank hkept hname
  exact ⟨front, between, behind, hbetween, hbehind, hblank, hup, hdirectory⟩

/-- Put behind the directory of a path, its last name has the components of the path; where there
is nothing in front of the name, there is a dot then. -/
theorem components_directory_join (h : path.fileName? = some name) :
    (path.directory.join ⟨name⟩).components = path.components ∨
      path.components = [.name name] ∧
        (path.directory.join ⟨name⟩).components = [.here, .name name] := by
  obtain ⟨front, between, behind, hbetween, hbehind, hblank, hup, hsegments, hcases⟩ :=
    exists_segments_of_fileName? h
  have hpath := components_of_segments front hbetween hbehind hblank hsegments
  have hnone : ∀ segment ∈ ([] : List String), IsBlankSegment segment := nofun
  rw [if_neg hup] at hpath
  rw [hpath]
  rcases hcases with ⟨rfl, rfl, hjoin⟩ | ⟨hfront, hjoin⟩
  · right
    have hname : name ≠ "" ∧ name ≠ "." := not_or.mp hblank
    have hlead : path.lead = [] := by
      rw [lead, isAbsolute_of_segments hsegments, hsegments]
      simp [hname.1, hname.2]
    have hjoined := components_of_segments ["."] hnone hnone hblank hjoin
    rw [lead_of_segments hjoin (by simp), if_neg hup] at hjoined
    exact ⟨by rw [hlead]; rfl, hjoined⟩
  · left
    obtain ⟨first, rest, rfl⟩ := List.exists_cons_of_ne_nil hfront
    have hjoined := components_of_segments (first :: rest) hnone hnone hblank
      (hjoin.trans (by rw [List.append_nil]))
    rw [hjoined, if_neg hup, lead_of_segments hsegments (by simp), lead_of_segments hjoin (by simp)]

theorem directory_join_text_ne (h : path.fileName? = some name) :
    (path.directory.join ⟨name⟩).text ≠ "" := by
  obtain ⟨front, between, behind, -, -, -, -, -, hcases⟩ := exists_segments_of_fileName? h
  intro hempty
  have hsegments : (path.directory.join ⟨name⟩).segments = [""] := by
    rw [segments, hempty]
    rfl
  rcases hcases with ⟨-, -, hjoin⟩ | ⟨hfront, hjoin⟩
  · have hlength := congrArg List.length (hjoin.symm.trans hsegments)
    simp at hlength
  · obtain ⟨first, rest, rfl⟩ := List.exists_cons_of_ne_nil hfront
    have hlength := congrArg List.length (hjoin.symm.trans hsegments)
    simp at hlength

end Path

/-! ## The way of a path with a name at its end -/

namespace Files.Tree

variable {tree : Tree} {place location : Location} {path : Path} {name : String}

/-- Blanks in front of a segment ask for a directory, as the segment does. -/
theorem walk_blanks_cons {blanks rest : List String} {segment : String}
    (h : ∀ blank ∈ blanks, Path.IsBlankSegment blank) :
    tree.walk place (blanks ++ segment :: rest) = tree.walk place (segment :: rest) := by
  induction blanks with
  | nil => rfl
  | cons blank blanks ih =>
    have hblank : blank = "" ∨ blank = "." := h blank List.mem_cons_self
    have hrest := ih fun other hother => h other (List.mem_cons_of_mem blank hother)
    rw [List.cons_append, walk, List.foldlM_cons]
    cases hplace : tree.entry? place with
    | none => simp [walk, enter, hplace, bind, Except.bind]
    | some entry =>
      cases entry with
      | file bytes => simp [walk, enter, hplace, bind, Except.bind]
      | directory =>
        have henter : tree.enter place blank = .ok place := by
          rw [enter, hplace]
          exact if_pos hblank
        rw [henter]
        exact hrest

/-- Two characters more than a name that an entry can have are far from being too many. -/
theorem pathFault?_of_name_behind_dot {joined : Path} (hjoined : joined.text = "./" ++ name)
    (hnul : '\x00' ∉ name.toList) (hshort : isTooLong name = false) : pathFault? joined = none := by
  refine pathFault?_eq_none_iff.mpr ⟨?_, by simp [hjoined], ?_⟩
  · rw [Path.hasNul, hjoined, String.toList_append, List.contains_eq_mem,
      decide_eq_false_iff_not, List.mem_append, not_or]
    exact ⟨by decide, hnul⟩
  · rw [hjoined, String.utf8ByteSize_append]
    have htwo : "./".utf8ByteSize = 2 := rfl
    rw [isTooLong, decide_eq_false_iff_not, nameLimit] at hshort
    rw [htwo, pathLimit]
    omega

theorem nul_not_mem_of_mem_segments {segment : String} (hfault : pathFault? path = none)
    (h : segment ∈ path.segments) : '\x00' ∉ segment.toList := by
  have hnul := (pathFault?_eq_none_iff.mp hfault).1
  rw [Path.hasNul, List.contains_eq_mem, decide_eq_false_iff_not] at hnul
  exact fun hmem => hnul ((Path.infix_of_mem_segments h).mem hmem)

/-- Where a path leads somewhere, its name behind its directory is not too long either. -/
theorem pathFault?_directory_join (h : path.fileName? = some name)
    (hlocate : tree.locate path = .ok location) :
    pathFault? (path.directory.join ⟨name⟩) = none := by
  obtain ⟨hfault, hwalk⟩ := locate_eq_ok_iff.mp hlocate
  have hall := Path.toList_eq_intercalate_segments (path.directory.join ⟨name⟩)
  obtain ⟨front, between, behind, -, -, hblank, hup, hsegments, hcases⟩ :=
    Path.exists_segments_of_fileName? h
  rcases hcases with ⟨rfl, rfl, hjoin⟩ | ⟨-, hjoin⟩
  · have hname : name ∈ path.segments := by
      rw [hsegments]
      exact List.mem_cons_self
    have hjoined : (path.directory.join ⟨name⟩).text = "./" ++ name := by
      rw [← String.toList_inj, hall, hjoin, String.toList_append, List.map_cons, List.map_singleton,
        List.intercalate_cons_cons, List.intercalate_singleton]
      rfl
    rw [hsegments, List.append_nil, List.nil_append, walk, List.foldlM_cons] at hwalk
    obtain ⟨next, hnext, -⟩ := bind_eq_ok hwalk
    exact pathFault?_of_name_behind_dot hjoined (nul_not_mem_of_mem_segments hfault hname)
      ((enter_name_eq_ok_iff hblank hup).mp hnext).2.1
  · refine pathFault?_of_sublist ?_ (Path.directory_join_text_ne h) hfault
    rw [hall, hjoin, Path.toList_eq_intercalate_segments path, hsegments]
    refine Text.sublist_intercalate (List.Sublist.map _ ?_)
    rw [List.append_assoc]
    refine List.Sublist.append_left ?_ front
    exact (List.singleton_sublist.mpr List.mem_cons_self).trans (List.sublist_append_right _ _)

/-- Behind the name at the end of a path there are slashes and dots at most. -/
theorem behind_eq_nil {front behind : List String} (htext : path.text ≠ "")
    (hsegments : path.segments = front ++ behind)
    (hbehind : ∀ segment ∈ behind, Path.IsBlankSegment segment)
    (hslash : path.endsInSlash = false) (hdot : path.segments.getLast? ≠ some ".") :
    behind = [] := by
  by_contra hsome
  have hlast : path.segments.getLast? = some (behind.getLast hsome) := by
    rw [hsegments, List.getLast?_append, List.getLast?_eq_some_getLast hsome]
    rfl
  rcases hbehind _ (List.getLast_mem hsome) with hempty | hlone
  · rw [hempty] at hlast
    rw [endsInSlash_of_getLast? htext hlast] at hslash
    cases hslash
  · rw [hlone] at hlast
    exact hdot hlast

/-- The segments of a path and those of its name behind its directory lead the same way. -/
theorem walk_directory_join (tree : Tree) (h : path.fileName? = some name)
    (hslash : path.endsInSlash = false) (hdot : path.segments.getLast? ≠ some ".") :
    tree.walk (tree.start (path.directory.join ⟨name⟩)) (path.directory.join ⟨name⟩).segments =
      tree.walk (tree.start path) path.segments := by
  obtain ⟨front, between, behind, hbetween, hbehind, hblank, hup, hsegments, hcases⟩ :=
    Path.exists_segments_of_fileName? h
  have htext : path.text ≠ "" := by
    obtain ⟨text⟩ := path
    rintro rfl
    cases h
  obtain rfl : behind = [] := by
    rw [← List.singleton_append, ← List.append_assoc] at hsegments
    exact behind_eq_nil htext hsegments hbehind hslash hdot
  rcases hcases with ⟨rfl, rfl, hjoin⟩ | ⟨hfront, hjoin⟩
  · have hstart : tree.start (path.directory.join ⟨name⟩) = tree.start path := by
      rw [start, start, Path.isAbsolute_of_segments hjoin, Path.isAbsolute_of_segments hsegments]
      simp
    have hlone : ∀ blank ∈ ["."], Path.IsBlankSegment blank := by
      simp [Path.IsBlankSegment]
    rw [hstart, hjoin, hsegments]
    exact walk_blanks_cons hlone
  · have hstart : tree.start (path.directory.join ⟨name⟩) = tree.start path := by
      obtain ⟨first, rest, rfl⟩ := List.exists_cons_of_ne_nil hfront
      rw [start, start, Path.isAbsolute_of_segments hjoin, Path.isAbsolute_of_segments hsegments]
      simp
    rw [hstart, hjoin, hsegments, List.append_assoc, walk_append, walk_append]
    exact bind_congr fun middle => (walk_blanks_cons hbetween).symm

end Files.Tree

namespace Path

variable {path : Path} {name : String}

theorem directory_text_ne (path : Path) : path.directory.text ≠ "" := by
  rw [directory]
  cases path.parent? with
  | none => decide
  | some parent =>
    dsimp only
    split
    · decide
    next htext => exact htext

/-- The directory of a path with a name at its end is one to be opened, and it holds what the
path leads to: the name behind it is a path of the same components, but for a dot in front where
the path is a lone name, and it has the same name at its end.  Without a slash or a dot at its
end, a path that the system takes leads in every tree where that path leads. -/
theorem directory_holds (path : Path) {name : String} (h : path.fileName? = some name) :
    path.directory.text ≠ "" ∧
      ((path.directory.join ⟨name⟩).components = path.components ∨
        path.components = [.name name] ∧
          (path.directory.join ⟨name⟩).components = .here :: path.components) ∧
      (path.directory.join ⟨name⟩).fileName? = some name ∧
      (path.endsInSlash = false → path.segments.getLast? ≠ some "." →
        ∀ (tree : Tree) (location : Location), tree.locate path = .ok location ↔
          Tree.pathFault? path = none ∧
            tree.locate (path.directory.join ⟨name⟩) = .ok location) := by
  have hcomponents := components_directory_join h
  refine ⟨directory_text_ne path, ?_, ?_, fun hslash hdot tree location => ?_⟩
  · refine hcomponents.imp_right fun ⟨hpath, hjoin⟩ => ⟨hpath, ?_⟩
    rw [hjoin, hpath]
  · rw [fileName?_eq_some_iff] at h ⊢
    rcases hcomponents with hsame | ⟨-, hjoin⟩
    · rw [hsame, h]
    · rw [hjoin]
      rfl
  · have hwalk := Tree.walk_directory_join tree h hslash hdot
    constructor
    · intro hlocate
      obtain ⟨hfault, hpath⟩ := Tree.locate_eq_ok_iff.mp hlocate
      refine ⟨hfault, Tree.locate_eq_ok_iff.mpr ⟨?_, hwalk.trans hpath⟩⟩
      exact Tree.pathFault?_directory_join h hlocate
    · rintro ⟨hfault, hjoin⟩
      exact Tree.locate_eq_ok_iff.mpr
        ⟨hfault, hwalk.symm.trans (Tree.locate_eq_ok_iff.mp hjoin).2⟩

/-- A path with blanks and a step up before its name, and a path that is a lone name. -/
theorem directory_holds_detour :
    (Path.mk "./api//../spec/./schema.json").fileName? = some "schema.json" ∧
      (Path.mk "./api//../spec/./schema.json").directory = ⟨"./api//../spec"⟩ ∧
      (Path.mk "./api//../spec/schema.json").components =
        (Path.mk "./api//../spec/./schema.json").components ∧
      (∀ (tree : Tree) (location : Location),
        tree.locate ⟨"./api//../spec/./schema.json"⟩ = .ok location ↔
          Tree.pathFault? ⟨"./api//../spec/./schema.json"⟩ = none ∧
            tree.locate ⟨"./api//../spec/schema.json"⟩ = .ok location) ∧
      (Path.mk "schema.json").fileName? = some "schema.json" ∧
      (Path.mk "schema.json").directory = ⟨"."⟩ ∧
      (Path.mk "./schema.json").components = .here :: (Path.mk "schema.json").components := by
  have hdetour : (Path.mk "./api//../spec/./schema.json").fileName? = some "schema.json" := by
    decide
  have hlone : (Path.mk "schema.json").fileName? = some "schema.json" := by decide
  have hdirectory : (Path.mk "./api//../spec/./schema.json").directory = ⟨"./api//../spec"⟩ := by
    decide
  have hdot : (Path.mk "schema.json").directory = ⟨"."⟩ := by decide
  obtain ⟨-, hcomponents, -, hway⟩ := directory_holds _ hdetour
  obtain ⟨-, hlead, -, -⟩ := directory_holds _ hlone
  rw [hdirectory] at hcomponents hway
  rw [hdot] at hlead
  refine ⟨hdetour, hdirectory, ?_, hway (by decide) (by decide), hlone, hdot, ?_⟩
  · exact hcomponents.resolve_right fun h => absurd h.1 (by decide)
  · exact (hlead.resolve_left (by decide)).2

end Path

end SchemaBinding
