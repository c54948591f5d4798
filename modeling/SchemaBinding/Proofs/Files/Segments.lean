import Mathlib.Data.List.TakeWhile
import SchemaBinding.Proofs.Files.Parents

/-!
# Segments of paths

Skipping blanks at the end of a text takes its last pieces between slashes away,
as far as they are blank.  So the segments of a path that is not blank are those
of its directory, blanks, one segment that is not blank, and blanks again.  Put
behind the directory that segment makes a path of the same segments, but for the
blanks.
-/

namespace SchemaBinding

namespace Path

variable {path : Path} {name : String} {text kept body : List Char}

/-- A path from the directory of another one; an absolute path stands for itself. -/
def join (directory path : Path) : Path :=
  if path.isAbsolute then path
  else if directory.text = "" ∨ directory.endsInSlash then ⟨directory.text ++ path.text⟩
  else ⟨directory.text ++ "/" ++ path.text⟩

/-! ## Pieces between slashes -/

/-- A piece between slashes that says nothing. -/
def IsBlank (piece : List Char) : Prop :=
  piece = [] ∨ piece = ['.']

/-- The pieces of a text between slashes; the empty text has none. -/
def parts (text : List Char) : List (List Char) :=
  if text = [] then [] else Text.split '/' text

/-- Skipping blanks takes blank pieces off the end of a text that is given backwards. -/
theorem exists_split_reverse (text : List Char) :
    ∃ blanks, (∀ piece ∈ blanks, IsBlank piece) ∧
      Text.split '/' text.reverse = parts (skipBlank text).reverse ++ blanks := by
  fun_induction skipBlank text with
  | case1 rest ih =>
    obtain ⟨blanks, hblanks, hsplit⟩ := ih
    refine ⟨blanks ++ [[]], ?_, ?_⟩
    · intro piece hpiece
      rcases List.mem_append.mp hpiece with hmem | hlast
      · exact hblanks piece hmem
      · exact Or.inl (List.mem_singleton.mp hlast)
    · rw [List.reverse_cons, Text.split_append_cons, hsplit, List.append_assoc]
      rfl
  | case2 => exact ⟨[['.']], by simp [IsBlank], rfl⟩
  | case3 rest ih =>
    obtain ⟨blanks, hblanks, hsplit⟩ := ih
    refine ⟨blanks ++ [['.']], ?_, ?_⟩
    · intro piece hpiece
      rcases List.mem_append.mp hpiece with hmem | hlast
      · exact hblanks piece hmem
      · exact Or.inr (List.mem_singleton.mp hlast)
    · rw [List.reverse_cons, List.reverse_cons, List.append_assoc, List.singleton_append,
        Text.split_append_cons, hsplit, List.append_assoc]
      rfl
  | case4 rest =>
    by_cases hrest : rest = []
    · exact ⟨[[]], by simp [IsBlank], by rw [hrest]; rfl⟩
    · have hreverse : rest.reverse ≠ [] := by simpa using hrest
      exact ⟨[], by simp, by rw [parts, if_neg hreverse, List.append_nil]⟩

/-- A text that ends in a name, given backwards: what is in front, blanks, and the name. -/
theorem exists_split_reverse_of_name (kept : List Char) :
    ∃ between, (∀ piece ∈ between, IsBlank piece) ∧
      Text.split '/' kept.reverse =
        parts (skipBlank (kept.dropWhile (· != '/'))).reverse ++ between ++
          [(kept.takeWhile (· != '/')).reverse] := by
  have hname : '/' ∉ (kept.takeWhile (· != '/')).reverse := by
    intro hmem
    have hnot := List.mem_takeWhile_imp (List.mem_reverse.mp hmem)
    simp at hnot
  have hkept := List.takeWhile_append_dropWhile (p := (· != '/')) (l := kept)
  have hnext := List.head?_dropWhile_not (· != '/') kept
  cases hrest : kept.dropWhile (· != '/') with
  | nil =>
    rw [hrest, List.append_nil] at hkept
    refine ⟨[], by simp, ?_⟩
    rw [hkept, Text.split_of_not_mem (hkept ▸ hname)]
    rfl
  | cons c rest =>
    rw [hrest] at hkept hnext
    obtain rfl : c = '/' := by simpa using hnext
    obtain ⟨between, hbetween, hsplit⟩ := exists_split_reverse rest
    refine ⟨between, hbetween, ?_⟩
    have hreverse : kept.reverse = rest.reverse ++ '/' :: (kept.takeWhile (· != '/')).reverse := by
      conv_lhs => rw [← hkept]
      simp
    rw [hreverse, Text.split_append_cons, Text.split_of_not_mem hname, hsplit, skipBlank]

theorem exists_split_of_skipBlank (h : skipBlank body.reverse ≠ []) :
    ∃ between behind, (∀ piece ∈ between, IsBlank piece) ∧ (∀ piece ∈ behind, IsBlank piece) ∧
      Text.split '/' body =
        parts (skipBlank ((skipBlank body.reverse).dropWhile (· != '/'))).reverse ++ between ++
          ((skipBlank body.reverse).takeWhile (· != '/')).reverse :: behind := by
  obtain ⟨behind, hbehind, hbody⟩ := exists_split_reverse body.reverse
  obtain ⟨between, hbetween, hkept⟩ := exists_split_reverse_of_name (skipBlank body.reverse)
  refine ⟨between, behind, hbetween, hbehind, ?_⟩
  have hreverse : (skipBlank body.reverse).reverse ≠ [] := by simpa using h
  rw [List.reverse_reverse, parts, if_neg hreverse, hkept] at hbody
  rw [hbody, List.append_assoc, List.singleton_append]

/-- What is left when blanks are skipped ends in no blank. -/
theorem not_isBlank_takeWhile_skipBlank (h : skipBlank text ≠ []) :
    ¬ IsBlank ((skipBlank text).takeWhile (· != '/')).reverse := by
  fun_induction skipBlank text with
  | case1 rest ih => exact ih h
  | case2 => exact absurd rfl h
  | case3 rest ih => exact ih h
  | case4 rest hslash hdot hdotSlash =>
    obtain ⟨c, cs, rfl⟩ := List.exists_cons_of_ne_nil h
    have hc : c ≠ '/' := fun hc => hslash cs (by rw [hc])
    rw [List.takeWhile_cons_of_pos (by simpa using hc)]
    rintro (hnone | hlone)
    · simp at hnone
    · have hparts : c :: cs.takeWhile (· != '/') = ['.'] := by
        simpa using congrArg List.reverse hlone
      obtain ⟨rfl, hnext⟩ := List.cons.inj hparts
      cases cs with
      | nil => exact hdot rfl
      | cons d ds =>
        by_cases hd : d = '/'
        · exact hdotSlash ds (by rw [hd])
        · rw [List.takeWhile_cons_of_pos (by simpa using hd)] at hnext
          cases hnext

/-! ## Segments -/

/-- A segment that says nothing. -/
def IsBlankSegment (segment : String) : Prop :=
  segment = "" ∨ segment = "."

theorem isBlankSegment_ofList {piece : List Char} (h : IsBlank piece) :
    IsBlankSegment (String.ofList piece) := by
  rcases h with rfl | rfl
  · exact Or.inl rfl
  · exact Or.inr rfl

theorem segments_join {directory : Path} (hname : '/' ∉ name.toList) (htext : directory.text ≠ "")
    (hslash : directory.endsInSlash = false) :
    (directory.join ⟨name⟩).segments = directory.segments ++ [name] := by
  have hrelative : (Path.mk name).isAbsolute = false := by
    rw [isAbsolute, decide_eq_false_iff_not]
    exact fun hhead => hname (List.mem_of_mem_head? hhead)
  have hjoin : (directory.join ⟨name⟩).text.toList = directory.text.toList ++ '/' :: name.toList := by
    rw [join, if_neg (by rw [hrelative]; exact Bool.false_ne_true), if_neg (by simp [htext, hslash])]
    simp
  rw [segments, hjoin, Text.split_append_cons, Text.split_of_not_mem hname, List.map_append,
    List.map_singleton, String.ofList_toList, segments]

theorem toList_eq_intercalate_segments (path : Path) :
    path.text.toList = ['/'].intercalate (path.segments.map String.toList) := by
  have hpieces : path.segments.map String.toList = Text.split '/' path.text.toList := by
    rw [segments, List.map_map]
    exact List.map_id'' (fun _ => String.toList_ofList) _
  rw [hpieces, Text.intercalate_split]

theorem infix_of_mem_segments {segment : String} (h : segment ∈ path.segments) :
    segment.toList <:+: path.text.toList := by
  obtain ⟨piece, hpiece, rfl⟩ := List.mem_map.mp h
  rw [String.toList_ofList]
  exact (Text.within_of_mem_split _).2 piece hpiece

theorem not_mem_of_mem_segments {segment : String} (h : segment ∈ path.segments) :
    '/' ∉ segment.toList := by
  obtain ⟨piece, hpiece, rfl⟩ := List.mem_map.mp h
  rw [String.toList_ofList]
  exact Text.separator_not_mem_of_mem_split hpiece

/-- A path is absolute where its first segment is empty and more of them follow. -/
theorem isAbsolute_of_segments {first : String} {rest : List String}
    (h : path.segments = first :: rest) : path.isAbsolute = decide (first = "" ∧ rest ≠ []) := by
  have hslash : '/' ∉ first.toList := not_mem_of_mem_segments (by rw [h]; exact List.mem_cons_self)
  rw [isAbsolute, toList_eq_intercalate_segments, h, decide_eq_decide, List.map_cons]
  cases rest with
  | nil =>
    rw [List.map_nil, List.intercalate_singleton]
    exact iff_of_false (fun hhead => hslash (List.mem_of_mem_head? hhead)) (fun hrest => hrest.2 rfl)
  | cons next rest =>
    rw [List.map_cons, List.intercalate_cons_cons]
    cases hfirst : first.toList with
    | nil => simp [String.toList_eq_nil_iff.mp hfirst]
    | cons c cs =>
      have hc : c ≠ '/' := fun hc => hslash (by rw [hfirst, hc]; exact List.mem_cons_self)
      have hne : first ≠ "" := fun hempty => by
        rw [hempty] at hfirst
        cases hfirst
      simp [hc, hne]

/-! ## Directories -/

/-- What a path with a name at its end is kept of when the blanks behind the name are skipped. -/
theorem fileName?_eq_some_iff_skipBlank :
    path.fileName? = some name ↔
      skipBlank (anchored path.text.toList).2.reverse ≠ [] ∧
        name.toList = ((skipBlank (anchored path.text.toList).2.reverse).takeWhile
          (· != '/')).reverse ∧ name ≠ ".." := by
  rw [fileName?]
  generalize skipBlank (anchored path.text.toList).2.reverse = kept
  cases kept with
  | nil => simp
  | cons c cs =>
    dsimp only
    generalize ((c :: cs).takeWhile (· != '/')).reverse = found
    split
    next hup =>
      subst hup
      refine ⟨nofun, fun ⟨_, hname, hnot⟩ => absurd (String.toList_inj.mp ?_) hnot⟩
      rw [hname]
      rfl
    next hup =>
      rw [Option.some.injEq]
      constructor
      · rintro rfl
        refine ⟨List.cons_ne_nil _ _, String.toList_ofList, fun hnot => hup ?_⟩
        rw [← String.toList_ofList (l := found), hnot]
        rfl
      · rintro ⟨-, hname, -⟩
        rw [← hname, String.ofList_toList]

/-- The text in front of the name at the end of a path and of the blanks there. -/
def frontText (text : List Char) : List Char :=
  (skipBlank ((skipBlank (anchored text).2.reverse).dropWhile (· != '/'))).reverse

theorem parent?_eq_some (h : skipBlank (anchored path.text.toList).2.reverse ≠ []) :
    path.parent? =
      some ⟨String.ofList ((anchored path.text.toList).1 ++ frontText path.text.toList)⟩ := by
  rw [parent?, parentText, frontText]
  generalize anchored path.text.toList = halves at h ⊢
  obtain ⟨anchor, body⟩ := halves
  dsimp only at h ⊢
  cases hkept : skipBlank body.reverse with
  | nil => exact absurd hkept h
  | cons c cs => rfl

theorem getLast?_frontText_ne_slash (text : List Char) :
    (frontText text).getLast? ≠ some '/' := by
  rw [frontText, List.getLast?_reverse]
  exact head?_skipBlank_ne_slash _

/-- A text from which nothing is cut off begins with no blank, unless it is nothing else. -/
theorem not_isBlank_of_anchored {piece next : List Char} {rest : List (List Char)}
    (h : (anchored text).1 = []) (hsplit : Text.split '/' text = piece :: next :: rest) :
    ¬ IsBlank piece := by
  have hall := Text.intercalate_split '/' text
  rw [hsplit, List.intercalate_cons_cons] at hall
  rintro (rfl | rfl)
  · rw [← hall] at h
    cases h
  · rw [← hall] at h
    cases h

theorem anchored_eq_cases (text : List Char) :
    (∃ body, text = '/' :: body ∧ anchored text = (['/'], body)) ∨
      (text = ['.'] ∧ anchored text = (['.'], [])) ∨
      (∃ body, text = '.' :: '/' :: body ∧ anchored text = (['.'], '/' :: body)) ∨
      anchored text = ([], text) := by
  fun_cases anchored text with
  | case1 body => exact Or.inl ⟨body, rfl, rfl⟩
  | case2 => exact Or.inr (Or.inl ⟨rfl, rfl⟩)
  | case3 body => exact Or.inr (Or.inr (Or.inl ⟨body, rfl, rfl⟩))
  | case4 => exact Or.inr (Or.inr (Or.inr rfl))

theorem directory_eq_dot (h : path.parent? = some ⟨""⟩) : path.directory = ⟨"."⟩ := by
  rw [directory, h]
  rfl

theorem directory_eq_of_parent? {parent : Path} (h : path.parent? = some parent)
    (htext : parent.text ≠ "") : path.directory = parent := by
  rw [directory, h]
  exact if_neg htext

/-- The name of a path is put behind the text in front of it. -/
theorem segments_directory_join (hname : '/' ∉ name.toList)
    (hkept : skipBlank (anchored path.text.toList).2.reverse ≠ [])
    (hfront : (anchored path.text.toList).1 = ['.'] ∨ frontText path.text.toList ≠ []) :
    (path.directory.join ⟨name⟩).segments =
      (Text.split '/' ((anchored path.text.toList).1 ++ frontText path.text.toList)).map
        String.ofList ++ [name] := by
  have hlast := getLast?_frontText_ne_slash path.text.toList
  have hparent := parent?_eq_some hkept
  generalize frontText path.text.toList = front at hfront hlast hparent ⊢
  generalize (anchored path.text.toList).1 = anchor at hfront hparent ⊢
  have hne : anchor ++ front ≠ [] := by
    rcases hfront with rfl | hfront
    · exact List.cons_ne_nil _ _
    · exact List.append_ne_nil_of_right_ne_nil _ hfront
  obtain ⟨directory, hdirectory⟩ : ∃ directory : Path, directory.text.toList = anchor ++ front :=
    ⟨⟨String.ofList _⟩, String.toList_ofList⟩
  rw [← hdirectory, String.ofList_toList] at hparent
  have htext : directory.text ≠ "" := fun hempty => hne (by rw [← hdirectory, hempty]; rfl)
  have hslash : directory.endsInSlash = false := by
    rw [endsInSlash, hdirectory, decide_eq_false_iff_not, List.getLast?_append]
    cases hend : front.getLast? with
    | some c =>
      rw [hend] at hlast
      simpa using hlast
    | none =>
      rcases hfront with rfl | hfront
      · simp
      · exact absurd (List.getLast?_eq_none_iff.mp hend) hfront
  rw [directory_eq_of_parent? hparent htext, segments_join hname htext hslash, segments, hdirectory]

/-- The pieces of a path are those of its directory, blanks, a name at its end, and more behind;
a path that begins with the name has none in front. -/
def LaidOut (path : Path) (name : String) (behind : List (List Char)) : Prop :=
  ∃ front between : List (List Char), (∀ piece ∈ between, IsBlank piece) ∧
    Text.split '/' path.text.toList = front ++ between ++ name.toList :: behind ∧
    (front = [] ∧ between = [] ∧ (path.directory.join ⟨name⟩).segments = [".", name] ∨
      front ≠ [] ∧ (path.directory.join ⟨name⟩).segments = front.map String.ofList ++ [name])

section LaidOut

variable {between behind : List (List Char)}
  (hkept : skipBlank (anchored path.text.toList).2.reverse ≠ []) (hname : '/' ∉ name.toList)
  (hbetween : ∀ piece ∈ between, IsBlank piece)
  (hbody : Text.split '/' (anchored path.text.toList).2 =
    parts (frontText path.text.toList) ++ between ++ name.toList :: behind)

include hkept hname hbetween hbody

theorem laidOut_of_absolute (htext : path.text.toList = '/' :: body)
    (hanchored : anchored path.text.toList = (['/'], body)) : LaidOut path name behind := by
  have hparent := parent?_eq_some hkept
  have hjoin := segments_directory_join hname hkept
  generalize frontText path.text.toList = front at hbody hparent hjoin
  rw [hanchored] at hbody hparent hjoin
  have hsplit : Text.split '/' path.text.toList =
      [] :: (parts front ++ between ++ name.toList :: behind) := by
    rw [htext, Text.split, if_pos rfl, hbody]
  refine ⟨[] :: parts front, between, hbetween, hsplit, Or.inr ⟨List.cons_ne_nil _ _, ?_⟩⟩
  by_cases hfront : front = []
  · subst hfront
    have hroot : path.directory = ⟨"/"⟩ := directory_eq_of_parent? hparent (by decide)
    have hrelative : ¬ (Path.mk name).isAbsolute = true := fun habsolute =>
      hname (List.mem_of_mem_head? (of_decide_eq_true habsolute))
    have hslash : (Path.mk "/").endsInSlash = true := rfl
    rw [hroot, join, if_neg hrelative, if_pos (Or.inr hslash), segments, String.toList_append]
    show (Text.split '/' ('/' :: name.toList)).map String.ofList = _
    rw [Text.split, if_pos rfl, Text.split_of_not_mem hname, List.map_cons, List.map_singleton,
      String.ofList_toList]
    rfl
  · rw [hjoin (Or.inr hfront), parts, if_neg hfront]
    rfl

theorem laidOut_of_dot (htext : path.text.toList = '.' :: '/' :: body)
    (hanchored : anchored path.text.toList = (['.'], '/' :: body))
    (hblank : ¬ IsBlank name.toList) : LaidOut path name behind := by
  have hjoin := segments_directory_join hname hkept
  generalize frontText path.text.toList = front at hbody hjoin
  rw [hanchored] at hbody hjoin
  replace hjoin := hjoin (Or.inl rfl)
  have hsplit : Text.split '/' path.text.toList = ['.'] :: Text.split '/' body := by
    rw [htext]
    rfl
  have hslash : Text.split '/' ('/' :: body) = [] :: Text.split '/' body := rfl
  rw [hslash] at hbody
  by_cases hfront : front = []
  · -- the first of the blanks is what is between the dot and its slash
    subst hfront
    cases between with
    | nil =>
      obtain ⟨hnone, -⟩ := List.cons.inj hbody
      exact absurd (Or.inl hnone.symm) hblank
    | cons piece between =>
      obtain ⟨-, hrest⟩ := List.cons.inj hbody
      refine ⟨[['.']], between, fun other hother => ?_, ?_, Or.inr ⟨List.cons_ne_nil _ _, hjoin⟩⟩
      · exact hbetween other (List.mem_cons_of_mem piece hother)
      · rw [hsplit, hrest]
        rfl
  · obtain ⟨first, others, hparts⟩ :=
      List.exists_cons_of_ne_nil (Text.split_ne_nil '/' front)
    rw [parts, if_neg hfront, hparts] at hbody
    obtain ⟨rfl, hrest⟩ := List.cons.inj hbody
    have hdotted : Text.split '/' (['.'] ++ front) = ['.'] :: others := by
      rw [List.singleton_append, Text.split_cons_of_ne (by decide), hparts]
      rfl
    refine ⟨['.'] :: others, between, hbetween, ?_, Or.inr ⟨List.cons_ne_nil _ _, ?_⟩⟩
    · rw [hsplit, hrest]
      rfl
    · rw [hjoin, hdotted]

theorem laidOut_of_bare (hanchored : anchored path.text.toList = ([], path.text.toList)) :
    LaidOut path name behind := by
  have hparent := parent?_eq_some hkept
  have hjoin := segments_directory_join hname hkept
  have hanchor : (anchored path.text.toList).1 = [] := by rw [hanchored]
  generalize frontText path.text.toList = front at hbody hparent hjoin
  rw [hanchored] at hbody hparent hjoin
  refine ⟨parts front, between, hbetween, hbody, ?_⟩
  by_cases hfront : front = []
  · subst hfront
    left
    refine ⟨rfl, ?_, by rw [directory_eq_dot hparent]; exact segments_join hname (by decide) rfl⟩
    cases between with
    | nil => rfl
    | cons piece between =>
      have hfirst := hbetween piece List.mem_cons_self
      cases between with
      | nil => exact absurd hfirst (not_isBlank_of_anchored hanchor hbody)
      | cons next rest => exact absurd hfirst (not_isBlank_of_anchored hanchor hbody)
  · right
    rw [hjoin (Or.inr hfront), parts, if_neg hfront]
    exact ⟨Text.split_ne_nil _ _, rfl⟩

end LaidOut

/-- Where a path is not blank, the segments in front of the last one that is not blank are those
of its directory, with blanks behind them; a path that begins with that segment has none. -/
theorem exists_segments_of_skipBlank
    (hkept : skipBlank (anchored path.text.toList).2.reverse ≠ [])
    (hname : name.toList =
      ((skipBlank (anchored path.text.toList).2.reverse).takeWhile (· != '/')).reverse) :
    ∃ front between behind, (∀ segment ∈ between, IsBlankSegment segment) ∧
      (∀ segment ∈ behind, IsBlankSegment segment) ∧ ¬ IsBlankSegment name ∧
      path.segments = front ++ between ++ name :: behind ∧
      (front = [] ∧ between = [] ∧ (path.directory.join ⟨name⟩).segments = [".", name] ∨
        front ≠ [] ∧ (path.directory.join ⟨name⟩).segments = front ++ [name]) := by
  have hblank := not_isBlank_takeWhile_skipBlank hkept
  obtain ⟨between, behind, hbetween, hbehind, hbody⟩ := exists_split_of_skipBlank hkept
  rw [← hname] at hblank hbody
  rw [← frontText] at hbody
  have hslash : '/' ∉ name.toList :=
    Text.separator_not_mem_of_mem_split (by rw [hbody]; simp)
  have hlaid : LaidOut path name behind := by
    rcases anchored_eq_cases path.text.toList with
      ⟨body, htext, hanchored⟩ | ⟨-, hanchored⟩ | ⟨body, htext, hanchored⟩ | hanchored
    · exact laidOut_of_absolute hkept hslash hbetween hbody htext hanchored
    · exact absurd (by rw [hanchored]; rfl) hkept
    · exact laidOut_of_dot hkept hslash hbetween hbody htext hanchored hblank
    · exact laidOut_of_bare hkept hslash hbetween hbody hanchored
  obtain ⟨front, between, hbetween, hsplit, hdirectory⟩ := hlaid
  refine ⟨front.map String.ofList, between.map String.ofList, behind.map String.ofList,
    ?_, ?_, ?_, ?_, ?_⟩
  · simpa using fun piece hpiece => isBlankSegment_ofList (hbetween piece hpiece)
  · simpa using fun piece hpiece => isBlankSegment_ofList (hbehind piece hpiece)
  · rintro (hempty | hdot)
    · exact hblank (Or.inl (by rw [hempty]; rfl))
    · exact hblank (Or.inr (by rw [hdot]; rfl))
  · rw [segments, hsplit]
    simp
  · simpa using hdirectory

theorem isBlankSegment_of_skipBlank
    (h : skipBlank (anchored path.text.toList).2.reverse = []) :
    ∀ segment ∈ path.segments, IsBlankSegment segment := by
  obtain ⟨blanks, hblanks, hbody⟩ :=
    exists_split_reverse (anchored path.text.toList).2.reverse
  rw [h, List.reverse_reverse] at hbody
  have hpieces : ∀ piece ∈ Text.split '/' path.text.toList, IsBlank piece := by
    rcases anchored_eq_cases path.text.toList with
      ⟨body, htext, hanchored⟩ | ⟨htext, -⟩ | ⟨body, htext, hanchored⟩ | hanchored
    · rw [hanchored] at hbody
      rw [htext, Text.split, if_pos rfl, hbody]
      intro piece hpiece
      rcases List.mem_cons.mp hpiece with rfl | hmem
      · exact Or.inl rfl
      · exact hblanks piece hmem
    · rw [htext]
      simp [Text.split, IsBlank]
    · rw [hanchored, Text.split, if_pos rfl] at hbody
      have hdotted : Text.split '/' ('.' :: '/' :: body) = ['.'] :: Text.split '/' body := rfl
      rw [htext, hdotted]
      intro piece hpiece
      rcases List.mem_cons.mp hpiece with rfl | hmem
      · exact Or.inr rfl
      · refine hblanks piece ?_
        rw [show blanks = parts [] ++ blanks from rfl]
        exact hbody ▸ List.mem_cons_of_mem _ hmem
    · rw [hanchored] at hbody
      rw [hbody]
      exact hblanks
  intro segment hsegment
  obtain ⟨piece, hpiece, rfl⟩ := List.mem_map.mp hsegment
  exact isBlankSegment_ofList (hpieces piece hpiece)

end Path

end SchemaBinding
