import SchemaBinding.Text.Lines

/-!
# Paths

A path keeps the text it was written with, since messages and headers show it.
Its segments stand between slashes.  An empty segment, and a lone dot that is
not the first segment, are blank: they name nothing and are passed over when
the parent of a path or its last name is sought.
-/

namespace SchemaBinding

structure Path where
  text : String
deriving DecidableEq, Repr, Inhabited

namespace Path

def isAbsolute (path : Path) : Bool :=
  path.text.toList.head? = some '/'

/-- A path that ends in a slash, and so asks for a directory. -/
def endsInSlash (path : Path) : Bool :=
  path.text.toList.getLast? = some '/'

/-- A path with a NUL character, which leads nowhere and cannot be made. -/
def hasNul (path : Path) : Bool :=
  path.text.toList.contains '\x00'

def segments (path : Path) : List String :=
  (Text.split '/' path.text.toList).map String.ofList

/-- Cuts off what comes before the segments that have a parent: the slash of an absolute
path, or the dot that a path starts with. -/
def anchored : List Char → List Char × List Char
  | '/' :: body => (['/'], body)
  | ['.'] => (['.'], [])
  | '.' :: '/' :: body => (['.'], '/' :: body)
  | body => ([], body)

/-- Drops the blank segments at the end of a text that is given backwards. -/
def skipBlank : List Char → List Char
  | '/' :: rest => skipBlank rest
  | ['.'] => []
  | '.' :: '/' :: rest => skipBlank rest
  | rest => rest

/-- The text before the last segment that is not blank; a lone dot goes as a whole. -/
def parentText (text : List Char) : Option (List Char) :=
  let (anchor, body) := anchored text
  match skipBlank body.reverse with
  | [] => if anchor = ['.'] then some [] else none
  | kept => some (anchor ++ (skipBlank (kept.dropWhile (· != '/'))).reverse)

/-- The path without its last segment; the root and the empty path have no parent. -/
def parent? (path : Path) : Option Path :=
  (parentText path.text.toList).map fun text => ⟨String.ofList text⟩

/-- The last segment, if it names something. -/
def fileName? (path : Path) : Option String :=
  match skipBlank (anchored path.text.toList).2.reverse with
  | [] => none
  | kept =>
    let name := (kept.takeWhile (· != '/')).reverse
    if name = ['.', '.'] then none else some (String.ofList name)

/-- The directory that holds what a path leads to, as it is written to be opened. -/
def directory (path : Path) : Path :=
  match path.parent? with
  | some parent => if parent.text = "" then ⟨"."⟩ else parent
  | none => ⟨"."⟩

theorem length_skipBlank_le
    (text : List Char) : (skipBlank text).length ≤ text.length := by
  fun_induction skipBlank text with
  | case1 rest ih => simp only [List.length_cons]; omega
  | case2 => simp
  | case3 rest ih => simp only [List.length_cons]; omega
  | case4 rest => exact Nat.le_refl _

theorem head?_skipBlank_ne_slash
    (text : List Char) : (skipBlank text).head? ≠ some '/' := by
  fun_induction skipBlank text with
  | case1 rest ih => exact ih
  | case2 => simp
  | case3 rest ih => exact ih
  | case4 rest h _ _ =>
    intro hr
    cases rest with
    | nil => simp at hr
    | cons c cs =>
      simp only [List.head?_cons, Option.some.injEq] at hr
      subst hr
      exact h cs rfl

theorem length_anchored
    (text : List Char) :
    (anchored text).1.length + (anchored text).2.length = text.length := by
  fun_cases anchored text <;> simp <;> omega

theorem length_parentText_lt
    {text parent : List Char} (h : parentText text = some parent) :
    parent.length < text.length := by
  have hlen := length_anchored text
  simp only [parentText] at h
  split at h
  · split at h
    · rename_i ha
      cases h
      rw [ha] at hlen
      simp at hlen ⊢
      omega
    · cases h
  · rename_i kept hne
    cases h
    have hle := length_skipBlank_le (anchored text).2.reverse
    have hhead := head?_skipBlank_ne_slash (anchored text).2.reverse
    generalize skipBlank (anchored text).2.reverse = kept at hne hle hhead ⊢
    cases kept with
    | nil => exact absurd rfl hne
    | cons c cs =>
      have hc : (c != '/') = true := by
        simp only [List.head?_cons, ne_eq, Option.some.injEq] at hhead
        simp [hhead]
      have hdrop := length_skipBlank_le (cs.dropWhile (· != '/'))
      have hsuffix := (List.dropWhile_sublist (l := cs) (· != '/')).length_le
      simp only [List.dropWhile_cons, hc, if_true, List.length_append, List.length_reverse] at hle ⊢
      simp only [List.length_cons] at hle
      omega

/-- The path and its parents up to the last one, from the longest. -/
def ancestorTexts (text : List Char) : List (List Char) :=
  match _h : parentText text with
  | none => [text]
  | some parent => text :: ancestorTexts parent
termination_by text.length
decreasing_by exact length_parentText_lt _h

def ancestors (path : Path) : List Path :=
  (ancestorTexts path.text.toList).map fun text => ⟨String.ofList text⟩

end Path

end SchemaBinding
