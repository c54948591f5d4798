import Mathlib.Data.List.TakeWhile
import SchemaBinding.TypeRef

/-!
# Reading type references

The notation of a reference is read in one pass: the brackets in front of its
name are counted, and each mark behind the name wraps what has been read so far.
So the notation of a reference whose name holds no marks says which reference it
is, whatever the wrappers are and in whatever order they stand.
-/

namespace SchemaBinding.TypeRef

variable {ref other whole : TypeRef} {depth : Nat} {text : List Char}

/-- The characters that wrap a name. -/
def isMark (c : Char) : Bool :=
  c = '[' || c = ']' || c = '!'

/-- The name in a reference is not empty and holds no marks. -/
def HasPlainLeaf (ref : TypeRef) : Prop :=
  ref.leaf ≠ "" ∧ ∀ c ∈ ref.leaf.toList, isMark c = false

instance (ref : TypeRef) : Decidable ref.HasPlainLeaf :=
  decidable_of_iff (ref.leaf ≠ "" ∧ ref.leaf.toList.all (!isMark ·) = true)
    (by simp only [HasPlainLeaf, List.all_eq_true, Bool.not_eq_true'])

/-! ## The reader -/

/-- Wraps a reference as the marks behind it say, of which each closing bracket belongs to one
of the open ones. -/
def close (ref : TypeRef) : Nat → List Char → Option TypeRef
  | 0, [] => some ref
  | depth, '!' :: rest => close (.nonNull ref) depth rest
  | depth + 1, ']' :: rest => close (.list ref) depth rest
  | _, _ => none

/-- Reads a name and the marks behind it. -/
def readName (depth : Nat) (text : List Char) : Option TypeRef :=
  let name := text.takeWhile (!isMark ·)
  if name = [] then none
  else close (.named (String.ofList name)) depth (text.dropWhile (!isMark ·))

/-- Reads what stands behind so many open brackets. -/
def readOpened (depth : Nat) : List Char → Option TypeRef
  | '[' :: rest => readOpened (depth + 1) rest
  | text => readName depth text

/-- The reference that a text is the notation of. -/
def ofNotation? (text : String) : Option TypeRef :=
  readOpened 0 text.toList

/-! ## Notations are read -/

theorem readName_append
    {name : List Char} (hname : name ≠ []) (hplain : ∀ c ∈ name, isMark c = false)
    (hnext : ∀ c ∈ text.head?, isMark c = true) :
    readName depth (name ++ text) = close (.named (String.ofList name)) depth text := by
  have hall : ∀ c ∈ name, (!isMark c) = true := fun c hc => by rw [hplain c hc]; rfl
  have hstop : text.takeWhile (!isMark ·) = [] ∧ text.dropWhile (!isMark ·) = text := by
    cases text with
    | nil => exact ⟨rfl, rfl⟩
    | cons c rest =>
      have hmark : isMark c = true := hnext c rfl
      simp [hmark]
  rw [readName, List.takeWhile_append_of_pos hall, List.dropWhile_append_of_pos hall, hstop.1,
    hstop.2, List.append_nil, if_neg hname]

/-- Behind open brackets a notation is read up to its end, where marks may follow. -/
theorem readOpened_notate_append
    (h : ref.HasPlainLeaf) (hnext : ∀ c ∈ text.head?, isMark c = true) :
    readOpened depth (ref.notate.toList ++ text) = close ref depth text := by
  -- The text behind the reference grows when a wrapper is taken off.
  induction ref generalizing depth text with
  | named name =>
    obtain ⟨hname, hplain⟩ := h
    have hne : name.toList ≠ [] := fun hnil => hname (String.toList_eq_nil_iff.mp hnil)
    have hopen : readOpened depth (name.toList ++ text) = readName depth (name.toList ++ text) := by
      obtain ⟨c, cs, hcons⟩ := List.exists_cons_of_ne_nil hne
      have hc : c ≠ '[' := by
        rintro rfl
        have hmark := hplain '[' (by rw [leaf, hcons]; exact List.mem_cons_self)
        cases hmark
      rw [hcons, List.cons_append, readOpened]
      rintro rest ⟨⟩
      exact hc rfl
    rw [notate, hopen, readName_append hne hplain hnext, String.ofList_toList]
  | nonNull inner ih =>
    have hsplit : (nonNull inner).notate.toList ++ text = inner.notate.toList ++ '!' :: text := by
      rw [notate, String.toList_append, List.append_assoc]
      rfl
    rw [hsplit, ih h (by rintro c ⟨⟩; rfl), close]
  | list inner ih =>
    have hsplit : (list inner).notate.toList ++ text =
        '[' :: (inner.notate.toList ++ ']' :: text) := by
      rw [notate, String.toList_append, String.toList_append, List.append_assoc, List.append_assoc]
      rfl
    rw [hsplit, readOpened, ih h (by rintro c ⟨⟩; rfl), close]

theorem ofNotation?_notate (h : ref.HasPlainLeaf) : ofNotation? ref.notate = some ref := by
  have hread : readOpened 0 (ref.notate.toList ++ []) = close ref 0 [] :=
    readOpened_notate_append h (by simp)
  rwa [List.append_nil, close] at hread

/-! ## Nothing else is read -/

/-- Marks that are read are those that the wrapped reference has behind the inner one. -/
theorem notate_of_close (h : close ref depth text = some whole) :
    whole.notate.toList = List.replicate depth '[' ++ ref.notate.toList ++ text ∧
      whole.leaf = ref.leaf := by
  fun_induction close ref depth text with
  | case1 ref =>
    obtain rfl := Option.some.inj h
    simp
  | case2 ref depth rest ih =>
    obtain ⟨hnotate, hleaf⟩ := ih h
    refine ⟨?_, hleaf⟩
    rw [hnotate, notate, String.toList_append]
    simp
  | case3 ref depth rest ih =>
    obtain ⟨hnotate, hleaf⟩ := ih h
    refine ⟨?_, hleaf⟩
    rw [hnotate, notate, String.toList_append, String.toList_append, List.replicate_succ']
    simp
  | case4 => cases h

theorem notate_of_readOpened (h : readOpened depth text = some ref) :
    ref.notate.toList = List.replicate depth '[' ++ text ∧ ref.HasPlainLeaf := by
  fun_induction readOpened depth text with
  | case1 depth rest ih =>
    obtain ⟨hnotate, hplain⟩ := ih h
    refine ⟨?_, hplain⟩
    rw [hnotate, List.replicate_succ', List.append_assoc]
    rfl
  | case2 depth text hopen =>
    rw [readName] at h
    by_cases hname : text.takeWhile (!isMark ·) = []
    · rw [if_pos hname] at h
      cases h
    rw [if_neg hname] at h
    obtain ⟨hnotate, hleaf⟩ := notate_of_close h
    rw [notate, String.toList_ofList, List.append_assoc, List.takeWhile_append_dropWhile] at hnotate
    refine ⟨hnotate, ?_⟩
    rw [HasPlainLeaf, hleaf, leaf, String.toList_ofList]
    refine ⟨fun hempty => hname ?_, fun c hc => ?_⟩
    · rw [← String.toList_ofList (l := text.takeWhile _), hempty]
      rfl
    · simpa using List.mem_takeWhile_imp hc

/-- What is read is the notation of a reference with a plain name, and nothing else is. -/
theorem ofNotation?_eq_some_iff {text : String} :
    ofNotation? text = some ref ↔ ref.HasPlainLeaf ∧ ref.notate = text := by
  constructor
  · intro h
    obtain ⟨hnotate, hplain⟩ := notate_of_readOpened h
    exact ⟨hplain, String.toList_inj.mp hnotate⟩
  · rintro ⟨hplain, rfl⟩
    exact ofNotation?_notate hplain

/-! ## Parts of a notation -/

theorem getLast?_notate_eq_iff (h : ref.HasPlainLeaf) :
    ref.notate.toList.getLast? = some '!' ↔ ref.isNonNull = true := by
  cases ref with
  | named name =>
    obtain ⟨-, hplain⟩ := h
    refine ⟨fun hlast => ?_, nofun⟩
    have hmark := hplain '!' (List.mem_of_getLast? hlast)
    cases hmark
  | nonNull inner =>
    rw [notate, String.toList_append]
    exact iff_of_true (List.getLast?_concat ..) rfl
  | list inner =>
    have hlast : (list inner).notate.toList.getLast? = some ']' := by
      rw [notate, String.toList_append]
      exact List.getLast?_concat ..
    rw [hlast]
    exact ⟨nofun, nofun⟩

/-- Without its marks a notation is the name. -/
theorem filter_notate (h : ref.HasPlainLeaf) :
    ref.notate.toList.filter (!isMark ·) = ref.leaf.toList := by
  induction ref with
  | named name =>
    obtain ⟨-, hplain⟩ := h
    exact List.filter_eq_self.mpr fun c hc => by rw [hplain c hc]; rfl
  | nonNull inner ih =>
    have hmark : "!".toList.filter (!isMark ·) = [] := rfl
    rw [notate, String.toList_append, List.filter_append, ih h, hmark, List.append_nil, leaf]
  | list inner ih =>
    have hopen : "[".toList.filter (!isMark ·) = [] := rfl
    have hclose : "]".toList.filter (!isMark ·) = [] := rfl
    rw [notate, String.toList_append, String.toList_append, List.filter_append, List.filter_append,
      ih h, hopen, hclose, List.nil_append, List.append_nil, leaf]

/-- One reader gives back every reference with a plain name from its notation, the whole of it,
and reads nothing else.  So two of them are never written alike, the mark at the end of a
notation tells whether null is ruled out, and the characters between the marks are the name. -/
theorem notate_unambiguous :
    (∀ text ref, ofNotation? text = some ref ↔ ref.HasPlainLeaf ∧ ref.notate = text) ∧
    (∀ ref other : TypeRef, ref.HasPlainLeaf → other.HasPlainLeaf →
      ref.notate = other.notate → ref = other) ∧
    ∀ ref : TypeRef, ref.HasPlainLeaf →
      ofNotation? ref.notate = some ref ∧
      (ref.notate.toList.getLast? = some '!' ↔ ref.isNonNull = true) ∧
      String.ofList (ref.notate.toList.filter (!isMark ·)) = ref.leaf := by
  refine ⟨fun text ref => ofNotation?_eq_some_iff, fun ref other href hother hsame => ?_,
    fun ref h => ⟨ofNotation?_notate h, getLast?_notate_eq_iff h, ?_⟩⟩
  · have hread := ofNotation?_notate href
    rw [hsame, ofNotation?_notate hother] at hread
    exact (Option.some.inj hread).symm
  · rw [filter_notate h, String.ofList_toList]

/-- A list of lists whose items are ruled out to be null twice over. -/
theorem notate_unambiguous_nested :
    (nonNull (list (list (nonNull (nonNull (named "Int")))))).HasPlainLeaf ∧
    ofNotation? "[[Int!!]]!" = some (nonNull (list (list (nonNull (nonNull (named "Int")))))) ∧
    "[[Int!!]]!".toList.getLast? = some '!' ∧
    String.ofList ("[[Int!!]]!".toList.filter (!isMark ·)) = "Int" ∧
    (list (nonNull (named "Int"))).notate ≠ (nonNull (list (named "Int"))).notate := by
  have hplain : (nonNull (list (list (nonNull (nonNull (named "Int")))))).HasPlainLeaf := by decide
  obtain ⟨hread, hlast, hname⟩ := notate_unambiguous.2.2 _ hplain
  refine ⟨hplain, hread, hlast.mpr rfl, hname, fun hsame => ?_⟩
  cases notate_unambiguous.2.1 _ _ (by decide) (by decide) hsame

end SchemaBinding.TypeRef
