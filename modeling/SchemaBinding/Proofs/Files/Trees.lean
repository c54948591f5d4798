import SchemaBinding.Files.Tree
import SchemaBinding.Proofs.Results
import SchemaBinding.Proofs.Text.Lines

/-!
# Trees that change

Making directories adds to a tree, and writing a file changes what stands at
one location.  Neither takes anything away, and a directory stays one, so a path
that led somewhere still leads there.  A path that led nowhere may lead
somewhere afterwards, but only to what was added.
-/

namespace SchemaBinding.Files.Tree

variable {tree before middle after : Tree} {place location : Location} {path : Path}

/-! ## Setting one entry -/

theorem lookup_assign
    (location other : Location) (entry : Entry) (entries : List (Location × Entry)) :
    (assign location entry entries).lookup other =
      if other = location then some entry else entries.lookup other := by
  have hcons : ∀ (key : Location) (value : Entry) (rest : List (Location × Entry)),
      ((key, value) :: rest).lookup other = if other = key then some value else rest.lookup other := by
    intro key value rest
    rw [List.lookup_cons]
    by_cases hkey : other = key
    · rw [if_pos hkey, beq_iff_eq.mpr hkey]
    · rw [if_neg hkey, beq_false_of_ne hkey]
  induction entries with
  | nil => rw [assign, hcons]
  | cons old rest ih =>
    obtain ⟨key, value⟩ := old
    rw [assign]
    by_cases hkey : key = location
    · rw [if_pos hkey, hcons, hcons, hkey]
      split <;> rfl
    · rw [if_neg hkey, hcons, hcons, ih]
      by_cases hother : other = key
      · have hne : other ≠ location := fun h => hkey (hother.symm.trans h)
        rw [if_pos hother, if_neg hne, if_pos hother]
      · rw [if_neg hother, if_neg hother]

theorem lookup_set (hlocation : location ≠ []) (entry : Entry) (other : Location) :
    Tree.entry? (tree.set location entry) other =
      if other = location then some entry else tree.entry? other := by
  rw [Tree.entry?, Tree.entry?, set, lookup_assign]
  by_cases hroot : other = []
  · have hne : other ≠ location := fun h => hlocation (h.symm.trans hroot)
    rw [if_pos hroot, if_pos hroot, if_neg hne]
  · rw [if_neg hroot, if_neg hroot]

/-! ## Paths that lead somewhere -/

/-- What was there is there, and what was a directory is one. -/
structure Persists (before after : Tree) : Prop where
  here : after.here = before.here
  directory : ∀ location, before.entry? location = some .directory →
    after.entry? location = some .directory
  present : ∀ location, (before.entry? location).isSome → (after.entry? location).isSome

theorem Persists.refl (tree : Tree) : Persists tree tree :=
  ⟨rfl, fun _ h => h, fun _ h => h⟩

theorem Persists.trans (hfirst : Persists before middle) (hsecond : Persists middle after) :
    Persists before after where
  here := hsecond.here.trans hfirst.here
  directory location h := hsecond.directory location (hfirst.directory location h)
  present location h := hsecond.present location (hfirst.present location h)

/-- A name leads from a directory to the entry of it that has the name, and nowhere else. -/
theorem enter_name_eq_ok_iff {segment : String} (hblank : ¬ (segment = "" ∨ segment = "."))
    (hup : segment ≠ "..") :
    tree.enter place segment = .ok location ↔
      tree.entry? place = some .directory ∧ isTooLong segment = false ∧
        (tree.entry? (place ++ [segment])).isSome ∧ location = place ++ [segment] := by
  rw [enter]
  cases tree.entry? place with
  | none => simp
  | some entry =>
    cases entry with
    | file bytes => simp
    | directory =>
      simp only [if_neg hblank, if_neg hup]
      cases isTooLong segment with
      | true => simp
      | false =>
        cases (tree.entry? (place ++ [segment])).isSome with
        | false => simp
        | true => simp [eq_comm]

/-- An empty segment stays in the directory that it is in. -/
theorem enter_blank_eq_ok_iff :
    tree.enter place "" = .ok location ↔
      tree.entry? place = some .directory ∧ location = place := by
  rw [enter]
  cases tree.entry? place with
  | none => simp
  | some entry =>
    cases entry with
    | file bytes => simp
    | directory =>
      simp only [true_or, if_true, Except.ok.injEq, true_and]
      exact eq_comm

theorem directory_of_enter {segment : String} (h : tree.enter place segment = .ok location) :
    tree.entry? place = some .directory := by
  rw [enter] at h
  cases hplace : tree.entry? place with
  | none => rw [hplace] at h; cases h
  | some entry =>
    cases entry with
    | file bytes => rw [hplace] at h; cases h
    | directory => rfl

/-- A step depends on the place being a directory and on what it leads to being there. -/
theorem enter_of_kept {tree other : Tree} {segment : String}
    (hok : tree.enter place segment = .ok location)
    (hplace : other.entry? place = some .directory)
    (hnext : (tree.entry? location).isSome → (other.entry? location).isSome) :
    other.enter place segment = .ok location := by
  have hdirectory := directory_of_enter hok
  by_cases hblank : segment = "" ∨ segment = "."
  · rw [Tree.enter, hdirectory] at hok
    rw [Tree.enter, hplace]
    simpa only [if_pos hblank] using hok
  by_cases hup : segment = ".."
  · rw [Tree.enter, hdirectory] at hok
    rw [Tree.enter, hplace]
    simpa only [if_neg hblank, if_pos hup] using hok
  rw [enter_name_eq_ok_iff hblank hup] at hok ⊢
  obtain ⟨-, hshort, hentry, rfl⟩ := hok
  exact ⟨hplace, hshort, hnext hentry, rfl⟩

theorem Persists.enter (h : Persists before after) {segment : String}
    (hok : before.enter place segment = .ok location) :
    after.enter place segment = .ok location :=
  enter_of_kept hok (h.directory place (directory_of_enter hok)) (h.present location)

theorem Persists.walk (h : Persists before after) {segments : List String}
    (hok : before.walk place segments = .ok location) :
    after.walk place segments = .ok location := by
  induction segments generalizing place with
  | nil => exact hok
  | cons segment segments ih =>
    rw [Tree.walk, List.foldlM_cons] at hok ⊢
    obtain ⟨next, hstep, hok⟩ := bind_eq_ok hok
    rw [h.enter hstep]
    exact ih hok

theorem Persists.start (h : Persists before after) (path : Path) :
    after.start path = before.start path := by
  rw [Tree.start, Tree.start, h.here]

theorem Persists.locate (h : Persists before after) (hok : before.locate path = .ok location) :
    after.locate path = .ok location := by
  rw [Tree.locate] at hok ⊢
  cases hfault : pathFault? path with
  | some fault => rw [hfault] at hok; cases hok
  | none =>
    rw [hfault] at hok
    rw [h.start]
    exact h.walk hok

/-! ## New directories -/

/-- A tree with new directories, and nothing else that is new. -/
structure Grown (before after : Tree) : Prop where
  here : after.here = before.here
  entry? : ∀ location, after.entry? location = before.entry? location ∨
    before.entry? location = none ∧ after.entry? location = some .directory

theorem Grown.refl (tree : Tree) : Grown tree tree :=
  ⟨rfl, fun _ => Or.inl rfl⟩

theorem Grown.trans (hfirst : Grown before middle) (hsecond : Grown middle after) :
    Grown before after := by
  refine ⟨hsecond.here.trans hfirst.here, ?_⟩
  intro location
  rcases hsecond.entry? location with hsame | ⟨hnone, hnew⟩
  · rw [hsame]
    exact hfirst.entry? location
  · rcases hfirst.entry? location with hsame | ⟨-, hdirectory⟩
    · exact Or.inr ⟨hsame ▸ hnone, hnew⟩
    · rw [hdirectory] at hnone
      cases hnone

theorem Grown.persists (h : Grown before after) : Persists before after := by
  refine ⟨h.here, ?_, ?_⟩
  · intro location hdirectory
    rcases h.entry? location with hsame | ⟨hnone, -⟩
    · rw [hsame, hdirectory]
    · rw [hdirectory] at hnone
      cases hnone
  · intro location hpresent
    rcases h.entry? location with hsame | ⟨hnone, -⟩
    · rwa [hsame]
    · rw [hnone] at hpresent
      cases hpresent

/-! ## Slots -/

/-- The last segment is empty only where a path ends in a slash, or is empty itself. -/
theorem getLast?_split_eq_nil {separator : Char} {text : List Char}
    (h : (Text.split separator text).getLast? = some []) :
    text = [] ∨ text.getLast? = some separator := by
  obtain ⟨pieces, hpieces⟩ := List.getLast?_eq_some_iff.mp h
  have htext := Text.intercalate_split separator text
  rw [hpieces, Text.intercalate_concat, List.append_nil] at htext
  obtain rfl | ⟨front, piece, rfl⟩ := List.eq_nil_or_concat pieces
  · exact Or.inl htext.symm
  · right
    rw [← htext]
    simp

theorem endsInSlash_of_getLast? (htext : path.text ≠ "")
    (h : path.segments.getLast? = some "") : path.endsInSlash = true := by
  rw [Path.segments, List.getLast?_map, Option.map_eq_some_iff] at h
  obtain ⟨piece, hpiece, hempty⟩ := h
  have hnil : piece = [] := by
    rw [← String.toList_ofList (l := piece), hempty]
    rfl
  rw [hnil] at hpiece
  rcases getLast?_split_eq_nil hpiece with hnone | hlast
  · exact absurd (String.toList_eq_nil_iff.mp hnone) htext
  · rw [Path.endsInSlash, hlast]
    rfl

theorem text_ne_of_pathFault? (h : pathFault? path = none) : path.text ≠ "" := by
  intro htext
  rw [pathFault?, if_pos htext] at h
  split at h <;> cases h

/-- Without its empty segments at the end, a path ends in a segment that is not empty. -/
theorem exists_blanks_of_dropWhile
    {segments front : List String} {last : String}
    (h : segments.reverse.dropWhile (· = "") = last :: front) :
    last ≠ "" ∧ ∃ blanks, segments = front.reverse ++ [last] ++ blanks ∧
      ∀ segment ∈ blanks, segment = "" := by
  constructor
  · have hhead := List.head?_dropWhile_not (· = "") segments.reverse
    rw [h] at hhead
    simpa using hhead
  · refine ⟨(segments.reverse.takeWhile (· = "")).reverse, ?_, ?_⟩
    · have hall := List.takeWhile_append_dropWhile (p := (· = "")) (l := segments.reverse)
      rw [h] at hall
      have hreverse := congrArg List.reverse hall
      rw [List.reverse_reverse, List.reverse_append, List.reverse_cons] at hreverse
      exact hreverse.symm
    · intro segment hsegment
      simpa using List.all_eq_true.mp List.all_takeWhile _ (List.mem_reverse.mp hsegment)

/-- A path with a slot leads through a directory to its last segment, behind which there may
be slashes. -/
theorem slot?_eq_ok_some (h : tree.slot? path = .ok (some location)) :
    pathFault? path = none ∧ ∃ front last blanks, path.segments = front ++ [last] ++ blanks ∧
      (∀ segment ∈ blanks, segment = "") ∧ ¬ (last = "" ∨ last = ".") ∧ last ≠ ".." ∧
      ∃ place, tree.walk (tree.start path) front = .ok place ∧
        tree.entry? place = some .directory ∧ location = place ++ [last] := by
  rw [slot?] at h
  cases hfault : pathFault? path with
  | some fault => rw [hfault] at h; cases h
  | none =>
    rw [hfault] at h
    cases hkept : path.segments.reverse.dropWhile (· = "") with
    | nil => rw [hkept] at h; cases h
    | cons last front =>
      rw [hkept] at h
      obtain ⟨hlast, blanks, hsegments, hblanks⟩ := exists_blanks_of_dropWhile hkept
      obtain ⟨place, hwalk, hrest⟩ := bind_eq_ok h
      obtain ⟨directory, henter, hfound⟩ := bind_eq_ok hrest
      obtain ⟨hplace, hsame⟩ := enter_blank_eq_ok_iff.mp henter
      by_cases hdots : last = "." ∨ last = ".."
      · rw [if_pos hdots] at hfound
        cases hfound
      · rw [if_neg hdots, hsame] at hfound
        rw [not_or] at hdots
        exact ⟨rfl, front.reverse, last, blanks, hsegments, hblanks,
          fun hblank => hblank.elim hlast hdots.1, hdots.2, place, hwalk, hplace,
          (Option.some.inj (Except.ok.inj hfound)).symm⟩

/-! ## Written files -/

/-- A tree with a file at a location and with new directories, and nothing else that is new. -/
structure Rewritten (before after : Tree) (location : Location) : Prop where
  persists : Persists before after
  elsewhere : ∀ other, other ≠ location → after.entry? other = before.entry? other ∨
    before.entry? other = none ∧ after.entry? other = some .directory

theorem walk_blanks {blanks : List String} (hblanks : ∀ segment ∈ blanks, segment = "")
    (hplace : tree.entry? place = some .directory) : tree.walk place blanks = .ok place := by
  induction blanks with
  | nil => rfl
  | cons segment blanks ih =>
    obtain rfl : segment = "" := hblanks segment (by simp)
    rw [walk, List.foldlM_cons, enter_blank_eq_ok_iff.mpr ⟨hplace, rfl⟩]
    exact ih fun other hother => hblanks other (List.mem_cons_of_mem _ hother)

/-- A path leads to what is made in its slot, and from there through the blanks at its end. -/
theorem exists_locate_slot_eq
    (hslot : tree.slot? path = .ok (some location)) (hname : isUnnameable location = false)
    (h : Persists tree after) (hpresent : (after.entry? location).isSome) :
    ∃ blanks, (∀ segment ∈ blanks, segment = "") ∧ (path.endsInSlash = false → blanks = []) ∧
      after.locate path = after.walk location blanks := by
  obtain ⟨hfault, front, last, blanks, hsegments, hblanks, hblank, hup, place, hwalk, hplace,
    rfl⟩ := slot?_eq_ok_some hslot
  refine ⟨blanks, hblanks, ?_, ?_⟩
  · intro hslash
    by_cases hsome : blanks = []
    · exact hsome
    · have hlast : path.segments.getLast? = some "" := by
        rw [hsegments, List.getLast?_append, List.getLast?_eq_some_getLast hsome,
          hblanks _ (List.getLast_mem hsome)]
        rfl
      rw [endsInSlash_of_getLast? (text_ne_of_pathFault? hfault) hlast] at hslash
      cases hslash
  · have hshort : isTooLong last = false := by simpa [isUnnameable] using hname
    have hfront : after.walk (tree.start path) front = .ok place := h.walk hwalk
    have hlast := (enter_name_eq_ok_iff hblank hup).mpr
      ⟨h.directory place hplace, hshort, hpresent, rfl⟩
    rw [walk] at hfront
    rw [locate, hfault, h.start, hsegments, walk, List.foldlM_append, List.foldlM_append, hfront]
    simp only [bind, Except.bind, List.foldlM_cons, List.foldlM_nil, hlast]
    rfl

/-- Without a slash at its end, a path leads to what is made in its slot. -/
theorem locate_slot
    (hslot : tree.slot? path = .ok (some location)) (hslash : path.endsInSlash = false)
    (hname : isUnnameable location = false) (h : Persists tree after)
    (hpresent : (after.entry? location).isSome) : after.locate path = .ok location := by
  obtain ⟨blanks, -, hnone, hlocate⟩ := exists_locate_slot_eq hslot hname h hpresent
  rw [hlocate, hnone hslash]
  rfl

/-- A path leads to a directory that is made in its slot, slashes at its end or not. -/
theorem locate_slot_of_directory
    (hslot : tree.slot? path = .ok (some location)) (hname : isUnnameable location = false)
    (h : Persists tree after) (hdirectory : after.entry? location = some .directory) :
    after.locate path = .ok location := by
  obtain ⟨blanks, hblanks, -, hlocate⟩ :=
    exists_locate_slot_eq hslot hname h (by rw [hdirectory]; rfl)
  rw [hlocate, walk_blanks hblanks hdirectory]

theorem ne_nil_of_slot? (h : tree.slot? path = .ok (some location)) : location ≠ [] := by
  obtain ⟨-, front, last, blanks, -, -, -, -, place, -, -, rfl⟩ := slot?_eq_ok_some h
  simp

theorem persists_set
    (hlocation : location ≠ []) (hentry : tree.entry? location ≠ some .directory)
    (entry : Entry) : Persists tree (tree.set location entry) := by
  refine ⟨rfl, ?_, ?_⟩
  · intro other hother
    have hne : other ≠ location := by
      rintro rfl
      exact hentry hother
    rw [lookup_set hlocation, if_neg hne, hother]
  · intro other hother
    rw [lookup_set hlocation]
    split
    · rfl
    · exact hother

/-- A file is written into the slot of its path, which holds no directory. -/
theorem exists_slot_of_write {bytes : ByteArray} (h : tree.write path bytes = .ok after) :
    ∃ location, tree.slot? path = .ok (some location) ∧ path.endsInSlash = false ∧
      tree.entry? location ≠ some .directory ∧ isUnnameable location = false ∧
      after = tree.set location (.file bytes) := by
  obtain ⟨slot, hslot, h⟩ := bind_eq_ok h
  cases slot with
  | none => cases h
  | some location =>
    dsimp only at h
    by_cases hdirectory : (path.endsInSlash || (tree.entry? location).any Entry.isDirectory) = true
    · rw [if_pos hdirectory] at h
      cases h
    rw [if_neg hdirectory] at h
    rw [Bool.or_eq_true, not_or, Bool.not_eq_true, Bool.not_eq_true] at hdirectory
    obtain ⟨hslash, hfile⟩ := hdirectory
    cases hname : isUnnameable location with
    | true => rw [hname, if_pos rfl] at h; cases h
    | false =>
      rw [hname, if_neg Bool.false_ne_true] at h
      refine ⟨location, hslot, hslash, ?_, hname, (Except.ok.inj h).symm⟩
      intro hentry
      rw [hentry] at hfile
      cases hfile

/-- A tree in which a path leads to a file of these bytes, where no directory was before, and
all else is as it was. -/
structure Written (path : Path) (bytes : ByteArray) (before after : Tree) : Prop where
  here : after.here = before.here
  file : ∃ location, after.locate path = .ok location ∧
    before.entry? location ≠ some .directory ∧ after.entry? location = some (.file bytes) ∧
    ∀ other, other ≠ location → after.entry? other = before.entry? other

theorem written_of_write {bytes : ByteArray} (h : tree.write path bytes = .ok after) :
    Written path bytes tree after := by
  obtain ⟨location, hslot, hslash, hentry, hname, rfl⟩ := exists_slot_of_write h
  have hlocation := ne_nil_of_slot? hslot
  have hset : ∀ other, Tree.entry? (tree.set location (.file bytes)) other =
      if other = location then some (.file bytes) else tree.entry? other :=
    lookup_set hlocation (.file bytes)
  have hwritten : Tree.entry? (tree.set location (.file bytes)) location = some (.file bytes) := by
    rw [hset, if_pos rfl]
  have hlocate := locate_slot hslot hslash hname (persists_set hlocation hentry (.file bytes))
    (by rw [hwritten]; rfl)
  refine ⟨rfl, location, hlocate, hentry, hwritten, ?_⟩
  intro other hother
  rw [hset, if_neg hother]

theorem Written.persists {bytes : ByteArray} (h : Written path bytes before after) :
    Persists before after := by
  obtain ⟨location, -, hentry, hfile, helsewhere⟩ := h.file
  refine ⟨h.here, ?_, ?_⟩
  · intro other hother
    have hne : other ≠ location := by
      rintro rfl
      exact hentry hother
    rw [helsewhere other hne, hother]
  · intro other hother
    by_cases hsame : other = location
    · rw [hsame, hfile]
      rfl
    · rwa [helsewhere other hsame]

/-- A file is written at the location that its path leads to afterwards. -/
theorem Written.rewritten {bytes : ByteArray} (h : Written path bytes before after) :
    ∃ location, after.locate path = .ok location ∧
      after.entry? location = some (.file bytes) ∧ Rewritten before after location := by
  obtain ⟨location, hlocate, -, hfile, helsewhere⟩ := h.file
  exact ⟨location, hlocate, hfile, h.persists, fun other hother =>
    Or.inl (helsewhere other hother)⟩

/-- A directory is made in the slot of its path, which is empty. -/
theorem exists_slot_of_makeDirectory (h : tree.makeDirectory path = .ok after) :
    ∃ location, tree.slot? path = .ok (some location) ∧ isUnnameable location = false ∧
      tree.entry? location = none ∧ after = tree.set location .directory := by
  obtain ⟨slot, hslot, h⟩ := bind_eq_ok h
  cases slot with
  | none => cases h
  | some location =>
    dsimp only at h
    by_cases hname : isUnnameable location = true
    · rw [if_pos hname] at h
      cases h
    rw [if_neg hname] at h
    by_cases hentry : (tree.entry? location).isSome = true
    · rw [if_pos hentry] at h
      cases h
    rw [if_neg hentry] at h
    exact ⟨location, hslot, by simpa using hname, by simpa using hentry, (Except.ok.inj h).symm⟩

theorem makeDirectory_eq_ok (h : tree.makeDirectory path = .ok after) : Grown tree after := by
  obtain ⟨location, hslot, -, hentry, rfl⟩ := exists_slot_of_makeDirectory h
  refine ⟨rfl, fun other => ?_⟩
  rw [lookup_set (ne_nil_of_slot? hslot)]
  by_cases hother : other = location
  · rw [if_pos hother, hother]
    exact Or.inr ⟨hentry, rfl⟩
  · rw [if_neg hother]
    exact Or.inl rfl

theorem Rewritten.of_grown (hgrown : Grown before middle) (h : Rewritten middle after location) :
    Rewritten before after location := by
  refine ⟨hgrown.persists.trans h.persists, ?_⟩
  intro other hother
  rcases h.elsewhere other hother with hsame | ⟨hnone, hnew⟩
  · rw [hsame]
    exact hgrown.entry? other
  · rcases hgrown.entry? other with hsame | ⟨-, hdirectory⟩
    · exact Or.inr ⟨hsame ▸ hnone, hnew⟩
    · rw [hdirectory] at hnone
      cases hnone

/-! ## Reading again -/

/-- A text that was written is read, also by another path to it. -/
theorem readText_of_file {text : String} (hlocate : tree.locate path = .ok location)
    (hentry : tree.entry? location = some (.file text.toUTF8)) :
    tree.readText path = .ok text := by
  have htext : String.fromUTF8? text.toUTF8 = some text := by
    rw [String.fromUTF8?, dif_pos (show text.toUTF8.IsValidUTF8 from text.isValidUTF8)]
    rfl
  rw [readText, hlocate]
  simp only [bind, Except.bind, hentry, htext]
  rfl

theorem readText_eq_ok {text : String} (h : tree.readText path = .ok text) :
    ∃ location bytes, tree.locate path = .ok location ∧
      tree.entry? location = some (.file bytes) ∧ String.fromUTF8? bytes = some text := by
  obtain ⟨location, hlocate, h⟩ := bind_eq_ok h
  cases hentry : tree.entry? location with
  | none => rw [hentry] at h; cases h
  | some entry =>
    rw [hentry] at h
    cases entry with
    | directory => cases h
    | file bytes =>
      cases htext : String.fromUTF8? bytes with
      | none => simp only [htext] at h; cases h
      | some found =>
        simp only [htext] at h
        obtain rfl := Except.ok.inj h
        exact ⟨location, bytes, hlocate, hentry, htext⟩

/-- A text comes from no other bytes than its own. -/
theorem eq_toUTF8_of_fromUTF8? {bytes : ByteArray} {text : String}
    (h : String.fromUTF8? bytes = some text) : bytes = text.toUTF8 := by
  rw [String.fromUTF8?] at h
  split at h
  · obtain rfl := Option.some.inj h
    rfl
  · cases h

/-- Where the text stands already, writing it would change nothing. -/
theorem written_of_readText {text : String} (h : tree.readText path = .ok text) :
    Written path text.toUTF8 tree tree := by
  obtain ⟨location, bytes, hlocate, hentry, htext⟩ := readText_eq_ok h
  rw [eq_toUTF8_of_fromUTF8? htext] at hentry
  refine ⟨rfl, location, hlocate, ?_, hentry, fun _ _ => rfl⟩
  rw [hentry]
  nofun

theorem isPresent_eq_true_iff :
    tree.isPresent path = true ↔ ∃ location, tree.locate path = .ok location := by
  rw [isPresent]
  cases tree.locate path with
  | error fault => simp [Except.isOk, Except.toBool]
  | ok location => simp [Except.isOk, Except.toBool]

theorem readText_congr {other : Path} (h : tree.locate path = tree.locate other) :
    tree.readText path = tree.readText other := by
  rw [readText, readText, h]

/-- Where nothing was at a path, nothing is replaced by what is written there. -/
theorem entry?_eq_none_of_write {bytes : ByteArray} (h : tree.write path bytes = .ok after)
    (habsent : tree.isPresent path = false) (hlocate : after.locate path = .ok location) :
    tree.entry? location = none := by
  obtain ⟨slot, hslot, hslash, hentry, hname, rfl⟩ := exists_slot_of_write h
  have hset (other : Location) : Tree.entry? (tree.set slot (.file bytes)) other =
      if other = slot then some (.file bytes) else tree.entry? other :=
    lookup_set (ne_nil_of_slot? hslot) (.file bytes) other
  have hthere := locate_slot hslot hslash hname
    (persists_set (ne_nil_of_slot? hslot) hentry (.file bytes)) (by rw [hset, if_pos rfl]; rfl)
  obtain rfl : slot = location := Except.ok.inj (hthere.symm.trans hlocate)
  cases hold : tree.entry? slot with
  | none => rfl
  | some entry =>
    have hpresent := isPresent_eq_true_iff.mpr
      ⟨slot, locate_slot hslot hslash hname (Persists.refl tree) (by rw [hold]; rfl)⟩
    rw [habsent] at hpresent
    cases hpresent

theorem isPresent_of_readText {text : String} (h : tree.readText path = .ok text) :
    tree.isPresent path = true := by
  obtain ⟨location, -, hlocate, -, -⟩ := readText_eq_ok h
  exact isPresent_eq_true_iff.mpr ⟨location, hlocate⟩

/-! ## Paths that are spared -/

/-- The path leads neither to what is at another path nor to a directory that is new. -/
def Spares (before after : Tree) (output path : Path) : Prop :=
  ∀ location, after.locate path = .ok location → after.locate output ≠ .ok location ∧
    ¬ (before.entry? location = none ∧ after.entry? location = some .directory)

/-- A path that is a name leads where the name leads from the working directory. -/
theorem locate_name {name : String} (hfault : pathFault? path = none)
    (hsegments : path.segments = [name]) (hrelative : path.isAbsolute = false) :
    tree.locate path = tree.enter tree.here name := by
  rw [locate, hfault, hsegments, start, hrelative]
  simp only [Bool.false_eq_true, if_false, walk, List.foldlM_cons, List.foldlM_nil]
  cases tree.enter tree.here name <;> rfl

namespace Rewritten

variable {output : Path}

/-- A file at a path that is spared reads as before. -/
theorem readText_of_spares {text : String} (h : Rewritten before after location)
    (houtput : after.locate output = .ok location) (hspares : Spares before after output path)
    (hread : before.readText path = .ok text) : after.readText path = .ok text := by
  obtain ⟨found, bytes, hlocate, hentry, htext⟩ := readText_eq_ok hread
  have hlocate := h.persists.locate hlocate
  have hother : found ≠ location := by
    rintro rfl
    exact (hspares found hlocate).1 houtput
  have hafter : after.entry? found = some (.file bytes) := by
    rcases h.elsewhere found hother with hsame | ⟨hnone, -⟩
    · rw [hsame, hentry]
    · rw [hentry] at hnone
      cases hnone
  rw [readText, hlocate]
  simp only [bind, Except.bind, hafter, htext]
  rfl

/-- What a spared path leads to was there before. -/
theorem isSome_of_spares (h : Rewritten before after location)
    (houtput : after.locate output = .ok location) (hspares : Spares before after output path)
    {found : Location} (hlocate : after.locate path = .ok found)
    (hentry : (after.entry? found).isSome) : (before.entry? found).isSome := by
  obtain ⟨hdifferent, hold⟩ := hspares found hlocate
  have hother : found ≠ location := by
    rintro rfl
    exact hdifferent houtput
  rcases h.elsewhere found hother with hsame | hnew
  · rwa [hsame] at hentry
  · exact absurd hnew hold

end Rewritten

end SchemaBinding.Files.Tree
