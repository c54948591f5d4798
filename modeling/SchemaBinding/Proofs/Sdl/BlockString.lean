import SchemaBinding.Proofs.Sdl.Pieces
import SchemaBinding.Proofs.Text.Lines
import SchemaBinding.Sdl.Description

/-!
# Reading the block string of a description

A description is printed as one block string, whatever it says.  Escaping
leaves no fence bare, and the layout keeps what follows the text from
completing one: the text is closed right behind it only where it does not end
in a quotation mark or a backslash.  Escaping a text line by line is the same
as escaping it at once, so the string that is read is the laid out text itself.
-/

namespace SchemaBinding.Sdl

open Reader

/-! ## Escaped texts and their lines -/

@[simp]
theorem escapeFence_nil : escapeFence [] = [] := rfl

@[simp]
theorem escapeFence_fence (rest : List Char) :
    escapeFence ('"' :: '"' :: '"' :: rest) = '\\' :: '"' :: '"' :: '"' :: escapeFence rest :=
  rfl

theorem escapeFence_cons {c : Char} {rest : List Char}
    (h : ∀ tail, c = '"' → rest = '"' :: '"' :: tail → False) :
    escapeFence (c :: rest) = c :: escapeFence rest := by
  rw [escapeFence]
  exact h

theorem escapeFence_cons_of_ne
    {c : Char} (hc : c ≠ '"') (cs : List Char) :
    escapeFence (c :: cs) = c :: escapeFence cs :=
  escapeFence_cons fun _ h _ => hc h

/-- A text is taken apart from the left into fences and characters that start none. -/
@[elab_as_elim]
theorem fenceInduction
    {motive : List Char → Prop}
    (fence : ∀ rest, motive rest → motive ('"' :: '"' :: '"' :: rest))
    (char : ∀ c rest, (∀ tail, c = '"' → rest = '"' :: '"' :: tail → False) → motive rest →
      motive (c :: rest))
    (nil : motive []) (text : List Char) : motive text := by
  induction text using escapeFence.induct with
  | case1 rest ih => exact fence rest ih
  | case2 c rest hfence ih => exact char c rest hfence ih
  | case3 => exact nil

theorem escapeFence_append_cons
    {c : Char} (hc : c ≠ '"') (cs ds : List Char) :
    escapeFence (cs ++ c :: ds) = escapeFence cs ++ c :: escapeFence ds := by
  induction cs using fenceInduction with
  | fence rest ih => simp [ih]
  | char d rest hfence ih =>
    rw [List.cons_append, escapeFence_cons, ih, escapeFence_cons hfence, List.cons_append]
    -- a fence that `c` is no part of lies in `d :: rest`
    rintro tail rfl heq
    match rest with
    | [] => exact hc (List.cons.inj heq).1
    | [e] =>
      obtain ⟨-, hsecond⟩ := List.cons.inj heq
      exact hc (List.cons.inj hsecond).1
    | e :: e' :: rest =>
      obtain ⟨rfl, rfl, -⟩ := by simpa only [List.cons_append, List.cons.injEq] using heq
      exact hfence rest rfl rfl
  | nil => exact escapeFence_cons_of_ne hc ds

theorem escapeFence_eq_nil_iff {text : List Char} : escapeFence text = [] ↔ text = [] := by
  induction text using fenceInduction with
  | fence rest _ => simp
  | char c rest hfence _ => simp [escapeFence_cons hfence]
  | nil => simp

theorem getLast?_escapeFence (text : List Char) :
    (escapeFence text).getLast? = text.getLast? := by
  induction text using fenceInduction with
  | fence rest ih => simp [List.getLast?_cons, ih]
  | char c rest hfence ih => simp [escapeFence_cons hfence, List.getLast?_cons, ih]
  | nil => rfl

theorem endsOpen_escapeFence (text : List Char) :
    endsOpen (escapeFence text) = endsOpen text := by
  simp only [endsOpen, getLast?_escapeFence]

theorem startsBlank_escapeFence (text : List Char) :
    startsBlank (escapeFence text) = startsBlank text := by
  induction text using fenceInduction with
  | fence rest _ => rfl
  | char c rest hfence _ => rw [escapeFence_cons hfence, startsBlank, startsBlank]
  | nil => rfl

theorem mem_escapeFence_iff
    {c : Char} (hc : c ≠ '\\') (text : List Char) : c ∈ escapeFence text ↔ c ∈ text := by
  induction text using fenceInduction with
  | fence rest ih => simp [hc, ih]
  | char d rest hfence ih => simp [escapeFence_cons hfence, ih]
  | nil => rfl

theorem split_escapeFence (text : List Char) :
    Text.split '\n' (escapeFence text) = (Text.split '\n' text).map escapeFence := by
  induction text using fenceInduction with
  | fence rest ih =>
    simp only [escapeFence_fence, Text.split_cons_of_ne (show '\\' ≠ '\n' by decide),
      Text.split_cons_of_ne (show '"' ≠ '\n' by decide), ih]
    cases Text.split '\n' rest <;> simp
  | char c rest hfence ih =>
    rw [escapeFence_cons hfence]
    by_cases hc : c = '\n'
    · simp [Text.split, hc, ih]
    · rw [Text.split_cons_of_ne hc, Text.split_cons_of_ne hc, ih, List.map_cons, escapeFence_cons]
      · cases Text.split '\n' rest <;> simp
      · -- the first piece is a front of the rest, so it holds no fence that the rest does not
        rintro tail rfl heq
        obtain ⟨behind, hbehind⟩ := Text.headD_split_prefix '\n' rest
        exact hfence (tail ++ behind) rfl (by rw [← hbehind, heq]; rfl)
  | nil => rfl

theorem dropReturn_escapeFence (line : List Char) :
    Text.dropReturn (escapeFence line) = escapeFence (Text.dropReturn line) := by
  rw [Text.dropReturn, Text.dropReturn, getLast?_escapeFence]
  split
  next hlast =>
    obtain ⟨front, rfl⟩ := List.getLast?_eq_some_iff.mp hlast
    simp [escapeFence_append_cons (show '\r' ≠ '"' by decide)]
  next => rfl

theorem closeLines_map_escapeFence (pieces : List (List Char)) :
    Text.closeLines (pieces.map escapeFence) = (Text.closeLines pieces).map escapeFence := by
  induction pieces with
  | nil => rfl
  | cons piece pieces ih =>
    cases pieces with
    | nil =>
      simp only [List.map_cons, List.map_nil, Text.closeLines, escapeFence_eq_nil_iff]
      split <;> rfl
    | cons next pieces =>
      rw [List.map_cons] at ih
      rw [List.map_cons, List.map_cons, Text.closeLines_cons_cons, Text.closeLines_cons_cons, ih,
        dropReturn_escapeFence, List.map_cons]

theorem lines_escapeFence (text : List Char) :
    Text.lines (escapeFence text) = (Text.lines text).map escapeFence := by
  rw [Text.lines, Text.lines, split_escapeFence, closeLines_map_escapeFence]

/-! ## Reading escaped texts -/

theorem map_prepend_map_prepend (front back : List Char) (taken : Option Taken) :
    (taken.map (Taken.prepend back)).map (Taken.prepend front) =
      taken.map (Taken.prepend (front ++ back)) := by
  cases taken <;> simp [Taken.prepend]

/-- Characters that are neither quotation marks nor backslashes. -/
def IsPlain (cs : List Char) : Prop :=
  ∀ c ∈ cs, c ≠ '"' ∧ c ≠ '\\'

theorem takeBlock_append_of_isPlain
    {front : List Char} (h : IsPlain front) (cs : List Char) :
    takeBlock (front ++ cs) = (takeBlock cs).map (Taken.prepend front) := by
  induction front with
  | nil =>
    rw [List.nil_append]
    cases takeBlock cs <;> rfl
  | cons c front ih =>
    obtain ⟨hquote, hslash⟩ := h c (by simp)
    have hfront : IsPlain front := fun d hd => h d (List.mem_cons_of_mem c hd)
    rw [List.cons_append, takeBlock, ih hfront, map_prepend_map_prepend]
    · rfl
    · exact fun _ hc _ => hslash hc
    · exact fun _ hc _ => hquote hc

/-- Escaping leaves no fence at the start, nor does the text behind complete one. -/
theorem not_fence_prefix_escapeFence
    {text behind : List Char} (hne : text ≠ [])
    (hopen : behind.head? = some '"' → endsOpen text = false) :
    ¬ fence <+: escapeFence text ++ behind := by
  rintro ⟨tail, htail⟩
  have hbehind : behind.head? = some '"' → text.getLast? ≠ some '"' := by
    intro hhead hlast
    simpa [endsOpen, hlast] using hopen hhead
  match text with
  | [] => exact hne rfl
  | [c] =>
    simp only [fence, escapeFence, List.cons_append, List.nil_append, List.cons.injEq] at htail
    obtain ⟨rfl, rfl⟩ := htail
    exact hbehind rfl rfl
  | [c, d] =>
    simp only [fence, escapeFence, List.cons_append, List.nil_append, List.cons.injEq] at htail
    obtain ⟨rfl, rfl, rfl⟩ := htail
    exact hbehind rfl rfl
  | c :: d :: e :: rest =>
    by_cases hc : c = '"'
    · by_cases hd : d = '"'
      · by_cases he : e = '"'
        · simp [hc, hd, he, fence] at htail
        · have hesc := escapeFence_append_cons he [c, d] rest
          simp only [List.cons_append, List.nil_append] at hesc
          simp only [hesc, fence, escapeFence, List.cons_append, List.nil_append,
            List.cons.injEq] at htail
          exact he htail.2.2.1.symm
      · have hesc := escapeFence_append_cons hd [c] (e :: rest)
        simp only [List.cons_append, List.nil_append] at hesc
        simp only [hesc, fence, escapeFence, List.cons_append, List.nil_append,
          List.cons.injEq] at htail
        exact hd htail.2.1.symm
    · rw [escapeFence_cons_of_ne hc] at htail
      exact hc (List.cons.inj htail).1.symm

/-- Reading undoes escaping, in front of anything that does not turn the end of
the text into a part of a fence. -/
theorem takeBlock_escapeFence_append
    {text behind : List Char} (hopen : behind.head? = some '"' → endsOpen text = false) :
    takeBlock (escapeFence text ++ behind) = (takeBlock behind).map (Taken.prepend text) := by
  induction text using fenceInduction with
  | fence rest ih =>
    have hrest : behind.head? = some '"' → endsOpen rest = false := by
      intro hhead
      have htext := hopen hhead
      cases rest with
      | nil => cases htext
      | cons c rest => simpa [endsOpen, List.getLast?_cons] using htext
    simp only [escapeFence_fence, List.cons_append, takeBlock, ih hrest, map_prepend_map_prepend,
      List.nil_append]
  | char c rest hfence ih =>
    have hbare : ¬ fence <+: c :: escapeFence rest ++ behind := by
      have h := not_fence_prefix_escapeFence (List.cons_ne_nil c rest) hopen
      rwa [escapeFence_cons hfence] at h
    have hrest : behind.head? = some '"' → endsOpen rest = false := by
      intro hhead
      have htext := hopen hhead
      cases rest with
      | nil => rfl
      | cons d rest => simpa [endsOpen, List.getLast?_cons] using htext
    rw [escapeFence_cons hfence, List.cons_append, takeBlock, ih hrest, map_prepend_map_prepend]
    · rfl
    · rintro tail rfl heq
      cases rest with
      | nil =>
        have hhead : behind.head? = some '"' := by
          rw [show behind = _ from heq]
          rfl
        cases hopen hhead
      | cons d rest =>
        exact not_fence_prefix_escapeFence (by simp) hrest ⟨tail, heq.symm⟩
    · rintro tail rfl heq
      exact hbare ⟨tail, by rw [List.cons_append, heq]; rfl⟩
  | nil =>
    rw [escapeFence_nil, List.nil_append]
    cases takeBlock behind <;> rfl

/-! ## The text of a block string -/

/-- What stands between the fences of a description that is laid out in rows. -/
def laidOut (indent text : List Char) : List Char :=
  let rows := Text.lines text
  let first := if startsBlank text then rows.headD [] else []
  let rest := if startsBlank text then rows.drop 1 else rows
  first ++ ['\n'] ++ rest.flatMap (layOutLine indent) ++ indent

/-- The text of the block string of a description. -/
def blockText (indent text : List Char) : List Char :=
  if '\n' ∈ text ∨ startsBlank text ∨ endsOpen text then laidOut indent text else text

theorem layOut_eq (indent text : List Char) :
    layOut indent text = indent ++ fence ++ laidOut indent text ++ fence ++ ['\n'] := by
  simp [layOut, laidOut]

theorem takeBlock_lineEnd (behind : List Char) :
    takeBlock ('\n' :: behind) = (takeBlock behind).map (Taken.prepend ['\n']) := by
  have hplain : IsPlain ['\n'] := by simp [IsPlain]
  exact takeBlock_append_of_isPlain hplain behind

theorem takeBlock_layOutLine_append
    {indent : List Char} (hindent : IsPlain indent) (line behind : List Char) :
    takeBlock (layOutLine indent (escapeFence line) ++ behind) =
      (takeBlock behind).map (Taken.prepend (layOutLine indent line)) := by
  by_cases hline : line = []
  · simpa [layOutLine, hline] using takeBlock_lineEnd behind
  · have hopen : ('\n' :: behind).head? = some '"' → endsOpen line = false := by
      intro hhead
      cases hhead
    simp only [layOutLine, escapeFence_eq_nil_iff, if_neg hline, List.append_assoc,
      List.cons_append, List.nil_append]
    rw [takeBlock_append_of_isPlain hindent, takeBlock_escapeFence_append hopen,
      takeBlock_lineEnd, map_prepend_map_prepend, map_prepend_map_prepend, List.append_assoc]

theorem takeBlock_rows_append
    {indent : List Char} (hindent : IsPlain indent) (rows : List (List Char))
    (behind : List Char) :
    takeBlock ((rows.map escapeFence).flatMap (layOutLine indent) ++ behind) =
      (takeBlock behind).map (Taken.prepend (rows.flatMap (layOutLine indent))) := by
  induction rows with
  | nil =>
    simp only [List.map_nil, List.flatMap_nil, List.nil_append]
    cases takeBlock behind <;> rfl
  | cons row rows ih =>
    rw [List.map_cons, List.flatMap_cons, List.append_assoc, takeBlock_layOutLine_append hindent,
      ih, map_prepend_map_prepend, List.flatMap_cons]

theorem takeBlock_laidOut
    {indent : List Char} (hindent : IsPlain indent) (text x : List Char) :
    takeBlock (laidOut indent (escapeFence text) ++ (fence ++ x)) =
      some (laidOut indent text, x) := by
  have hfirst : (if startsBlank text then ((Text.lines text).map escapeFence).headD [] else []) =
      escapeFence (if startsBlank text then (Text.lines text).headD [] else []) := by
    split
    · cases Text.lines text <;> simp
    · rfl
  have hrest : (if startsBlank text then ((Text.lines text).map escapeFence).drop 1
      else (Text.lines text).map escapeFence) =
      (if startsBlank text then (Text.lines text).drop 1 else Text.lines text).map escapeFence := by
    split
    · rw [List.map_drop]
    · rfl
  simp only [laidOut, startsBlank_escapeFence, lines_escapeFence, hfirst, hrest,
    List.append_assoc, List.cons_append, List.nil_append]
  rw [takeBlock_escapeFence_append (by simp), takeBlock_lineEnd,
    takeBlock_rows_append hindent, takeBlock_append_of_isPlain hindent]
  simp [fence, takeBlock, Taken.prepend]

theorem blockString_eq (indent text : List Char) :
    blockString indent text =
      indent ++ fence ++
        (if '\n' ∈ text ∨ startsBlank text ∨ endsOpen text then laidOut indent (escapeFence text)
          else escapeFence text) ++
        fence ++ ['\n'] := by
  simp only [blockString, mem_escapeFence_iff (show '\n' ≠ '\\' by decide),
    startsBlank_escapeFence, endsOpen_escapeFence]
  split
  · exact layOut_eq indent (escapeFence text)
  · rfl

theorem scan_fence_append
    {body text x : List Char} (h : takeBlock body = some (text, x)) :
    scan (fence ++ body) = (scan x).map (.blockString text :: ·) := by
  have hlength := length_add_three_le_of_takeBlock h
  have htoken : takeToken '"' ('"' :: '"' :: body) = some (.blockString text, x) := by
    have hquoted : takeQuoted ('"' :: '"' :: body) = some (.blockString text, x) := by
      rw [takeQuoted, h]
      rfl
    rw [takeToken, if_neg (by decide), if_neg (by decide), if_pos rfl, hquoted]
  have hrest : x.length ≤ ('"' :: '"' :: body).length := by
    simp only [List.length_cons]
    omega
  exact scan_cons_of_takeToken (by decide) htoken hrest

/-- The block string of a description is one token, which holds the text as it is laid out. -/
theorem scan_blockString_append
    {indent : List Char} (hindent : ∀ c ∈ indent, c = ' ') (text x : List Char) :
    scan (blockString indent text ++ x) =
      (scan x).map (.blockString (blockText indent text) :: ·) := by
  have hplain : IsPlain indent := fun c hc => by simp [hindent c hc]
  have hignored : ∀ c ∈ indent, isIgnored c = true := fun c hc => by
    rw [hindent c hc]
    decide
  have hbody : takeBlock
      ((if '\n' ∈ text ∨ startsBlank text ∨ endsOpen text then laidOut indent (escapeFence text)
        else escapeFence text) ++ (fence ++ ('\n' :: x))) =
      some (blockText indent text, '\n' :: x) := by
    unfold blockText
    split
    next => exact takeBlock_laidOut hplain text ('\n' :: x)
    next hline =>
      have hopen : (fence ++ ('\n' :: x)).head? = some '"' → endsOpen text = false := by
        intro _
        exact Bool.eq_false_iff.mpr fun h => hline (Or.inr (Or.inr h))
      rw [takeBlock_escapeFence_append hopen]
      simp [fence, takeBlock, Taken.prepend]
  rw [blockString_eq]
  simp only [List.append_assoc, List.cons_append, List.nil_append]
  rw [scan_append_of_isIgnored hignored, scan_fence_append hbody,
    scan_cons_of_isIgnored x (by decide)]

def descriptionTokens (indent : String) (description : Option String) : List Token :=
  (description.map fun text => Token.blockString (blockText indent.toList text.toList)).toList

theorem closed_describe
    (indent : String) (hindent : indent.toList.all (· == ' ') = true)
    (description : Option String) :
    Closed (describe indent description) (descriptionTokens indent description) := by
  have hblank : ∀ c ∈ indent.toList, c = ' ' := by simpa using hindent
  cases description with
  | none => exact closed_empty
  | some text =>
    constructor
    · exact bare_singleton rfl
    · intro x
      rw [describe, String.toList_ofList, scan_blockString_append hblank]
      rfl

/-- A description with the indentation of what it describes behind it. -/
theorem closed_describe_indent
    (indent : String) (hindent : indent.toList.all (· == ' ') = true)
    (description : Option String) :
    Closed (describe indent description ++ indent) (descriptionTokens indent description) := by
  have hblank : Closed indent [] := by
    constructor
    · exact bare_nil
    · intro x
      have hignored : ∀ c ∈ indent.toList, isIgnored c = true := by
        intro c hc
        have hspace : c = ' ' := by simpa using List.all_eq_true.mp hindent c hc
        rw [hspace]
        decide
      rw [scan_append_of_isIgnored hignored]
      simp
  have hrow := (closed_describe indent hindent description).append hblank
  rwa [List.append_nil] at hrow

end SchemaBinding.Sdl
