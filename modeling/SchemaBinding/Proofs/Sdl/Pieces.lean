import SchemaBinding.Proofs.Sdl.Scan

/-!
# Scanning texts piece by piece

The tokens of a text are those of its pieces, as long as no piece takes
characters of the next one.  A piece that is closed never does; a piece that
only reads as some tokens may end in a name, a number or a string, and then
the piece behind it has to start with a character that ends that token.
-/

namespace SchemaBinding.Sdl.Reader

/-- In front of any text, `piece` stands for these tokens. -/
structure Closed (piece : String) (tokens : List Token) : Prop where
  bare : Bare tokens
  scan_append : ∀ x, scan (piece.toList ++ x) = (scan x).map (tokens ++ ·)

/-- In front of any text that ends its last token, `piece` stands for these tokens. -/
structure Reads (piece : String) (tokens : List Token) : Prop where
  bare : Bare tokens
  scan_append : ∀ x, Clear x → scan (piece.toList ++ x) = (scan x).map (tokens ++ ·)

variable {s t : String} {ts us : List Token}

/-! ## Putting pieces together -/

theorem Closed.reads (h : Closed s ts) : Reads s ts :=
  ⟨h.bare, fun x _ => h.scan_append x⟩

theorem closed_empty : Closed "" [] :=
  ⟨bare_nil, fun x => by simp⟩

theorem map_append_map (ts us : List Token) (scanned : Option (List Token)) :
    (scanned.map (us ++ ·)).map (ts ++ ·) = scanned.map (ts ++ us ++ ·) := by
  cases scanned <;> simp

theorem Closed.append (hs : Closed s ts) (ht : Closed t us) : Closed (s ++ t) (ts ++ us) := by
  constructor
  · exact bare_append hs.bare ht.bare
  · intro x
    rw [String.toList_append, List.append_assoc, hs.scan_append, ht.scan_append, map_append_map]

theorem Closed.append_reads (hs : Closed s ts) (ht : Reads t us) : Reads (s ++ t) (ts ++ us) := by
  constructor
  · exact bare_append hs.bare ht.bare
  · intro x hx
    rw [String.toList_append, List.append_assoc, hs.scan_append, ht.scan_append x hx,
      map_append_map]

theorem Reads.append
    (hs : Reads s ts) (ht : Reads t us) (hclear : Clear t.toList) :
    Reads (s ++ t) (ts ++ us) := by
  constructor
  · exact bare_append hs.bare ht.bare
  · intro x hx
    rw [String.toList_append, List.append_assoc, hs.scan_append _ (hclear.append hx),
      ht.scan_append x hx, map_append_map]

theorem Reads.scan_eq (h : Reads s ts) : scan s.toList = some ts := by
  have hs := h.scan_append [] clear_nil
  rw [List.append_nil, scan_nil] at hs
  simpa using hs

/-! ## Separators -/

/-- Whether a text holds nothing but punctuators and ignored characters, and not nothing at all. -/
def isSeparator (text : String) : Bool :=
  text != "" && text.toList.all fun c => isIgnored c || isMark c

/-- The punctuators of a separator. -/
def markTokens (text : String) : List Token :=
  (text.toList.filter (!isIgnored ·)).map .mark

theorem takeToken_of_isMark
    {c : Char} (h : isMark c = true) (cs : List Char) :
    takeToken c cs = some (.mark c, cs) := by
  have hname : isNameStart c = false := by
    simp only [isMark, List.mem_cons, List.not_mem_nil, or_false, decide_eq_true_eq] at h
    rcases h with rfl | rfl | rfl | rfl | rfl | rfl | rfl | rfl | rfl | rfl | rfl | rfl | rfl <;> rfl
  simp [takeToken, hname, h]

theorem scan_marks_append
    {cs : List Char} (h : ∀ c ∈ cs, (isIgnored c || isMark c) = true) (x : List Char) :
    scan (cs ++ x) = (scan x).map ((cs.filter (!isIgnored ·)).map .mark ++ ·) := by
  induction cs with
  | nil => simp
  | cons c cs ih =>
    have hrest := ih fun d hd => h d (List.mem_cons_of_mem c hd)
    rw [List.cons_append]
    cases hignored : isIgnored c with
    | true =>
      rw [scan_cons_of_isIgnored _ hignored, hrest]
      simp [hignored]
    | false =>
      have hmark : isMark c = true := by simpa [hignored] using h c (by simp)
      have htoken := takeToken_of_isMark hmark (cs ++ x)
      rw [scan_cons_of_takeToken hignored htoken (Nat.le_refl _), hrest]
      simp [hignored, Function.comp_def]

theorem closed_marks (s : String) (h : isSeparator s = true) : Closed s (markTokens s) := by
  rw [isSeparator, Bool.and_eq_true, List.all_eq_true] at h
  constructor
  · intro token htoken
    obtain ⟨c, -, rfl⟩ := List.mem_map.mp htoken
    rfl
  · intro x
    exact scan_marks_append h.2 x

theorem clear_of_isSeparator {s : String} (h : isSeparator s = true) : Clear s.toList := by
  rw [isSeparator, Bool.and_eq_true, List.all_eq_true] at h
  intro c hc
  have hchar := h.2 c (List.mem_of_mem_head? hc)
  simp only [isIgnored, isMark, List.mem_cons, List.not_mem_nil, or_false, Bool.or_eq_true,
    decide_eq_true_eq] at hchar
  rcases hchar with
    (rfl | rfl | rfl | rfl | rfl | rfl) |
    (rfl | rfl | rfl | rfl | rfl | rfl | rfl | rfl | rfl | rfl | rfl | rfl | rfl) <;> decide

theorem clear_append
    (hclear : Clear s.toList) (hne : s ≠ "") (t : String) : Clear (s ++ t).toList := by
  rw [String.toList_append]
  exact hclear.append_of_ne_nil (fun h => hne (String.toList_eq_nil_iff.mp h)) t.toList

theorem clear_separator_append
    {s : String} (h : isSeparator s = true) (t : String) : Clear (s ++ t).toList := by
  refine clear_append (clear_of_isSeparator h) ?_ t
  rintro rfl
  cases h

/-- A separator ends whatever stands before it. -/
theorem Reads.append_marks
    (hs : Reads s ts) (t : String) (ht : isSeparator t = true) :
    Closed (s ++ t) (ts ++ markTokens t) := by
  have hclosed := closed_marks t ht
  refine ⟨bare_append hs.bare hclosed.bare, ?_⟩
  intro x
  have hfirst : Clear (t.toList ++ x) := by
    rw [← String.toList_ofList (l := x), ← String.toList_append]
    exact clear_separator_append ht (String.ofList x)
  rw [String.toList_append, List.append_assoc, hs.scan_append _ hfirst, hclosed.scan_append,
    map_append_map]

theorem Reads.between
    (h : Reads s ts) (opening closing : String) (hopening : isSeparator opening = true)
    (hclosing : isSeparator closing = true) :
    Reads (opening ++ s ++ closing) (markTokens opening ++ ts ++ markTokens closing) := by
  have hopen := (closed_marks opening hopening).append_reads h
  exact (hopen.append_marks closing hclosing).reads

/-! ## Names and constants -/

theorem isIgnored_of_isNameStart
    {c : Char} (h : isNameStart c = true) : isIgnored c = false := by
  cases hignored : isIgnored c with
  | false => rfl
  | true =>
    simp only [isIgnored, List.mem_cons, List.not_mem_nil, or_false, decide_eq_true_eq] at hignored
    rcases hignored with rfl | rfl | rfl | rfl | rfl | rfl <;> cases h

theorem reads_name (h : isName s = true) : Reads s [.name s] := by
  constructor
  · exact bare_singleton rfl
  · intro x hx
    obtain ⟨c, cs, hchars⟩ : ∃ c cs, s.toList = c :: cs := by
      cases hs : s.toList with
      | nil => simp [isName, hs] at h
      | cons c cs => exact ⟨c, cs, rfl⟩
    simp only [isName, hchars, Bool.and_eq_true] at h
    obtain ⟨hstart, hall⟩ := h
    have hhead : ∀ d ∈ x.head?, isNameChar d = false := fun d hd => (hx d hd).1
    have htake : (cs ++ []).takeWhile isNameChar = cs ++ [].takeWhile isNameChar :=
      List.takeWhile_append_of_pos (List.all_eq_true.mp hall)
    have hdrop : (cs ++ []).dropWhile isNameChar = [].dropWhile isNameChar :=
      List.dropWhile_append_of_pos (List.all_eq_true.mp hall)
    rw [List.append_nil] at htake hdrop
    have htoken : takeToken c (cs ++ x) = some (.name s, x) := by
      rw [takeToken, if_pos hstart, takeWhile_append_of_head hhead, dropWhile_append_of_head hhead,
        htake, hdrop, List.takeWhile_nil, List.append_nil, ← hchars, String.ofList_toList,
        List.dropWhile_nil, List.nil_append]
    rw [hchars, List.cons_append,
      scan_cons_of_takeToken (isIgnored_of_isNameStart hstart) htoken (by simp)]
    rfl

/-- A keyword with the blank behind it. -/
theorem closed_keyword (h : isName s = true) : Closed (s ++ " ") [.name s] :=
  (reads_name h).append_marks " " (by decide)

theorem reads_of_scan (h : scan s.toList = some ts) (hbare : Bare ts) : Reads s ts :=
  ⟨hbare, fun _ hx => scan_append hx h hbare⟩

/-! ## Rows of pieces -/

theorem reads_intercalate
    {α : Type} {f : α → String} {tokens : α → List Token} (hs : isSeparator s = true)
    {xs : List α} (h : ∀ x ∈ xs, Reads (f x) (tokens x)) :
    Reads (s.intercalate (xs.map f)) ((markTokens s).intercalate (xs.map tokens)) := by
  induction xs with
  | nil => exact closed_empty.reads
  | cons x xs ih =>
    cases xs with
    | nil => simpa using h x (by simp)
    | cons y ys =>
      have hrest := ih fun z hz => h z (List.mem_cons_of_mem x hz)
      have hfirst := (h x (by simp)).append_marks s hs
      simpa only [List.map_cons, String.intercalate_cons_cons, List.intercalate_cons_cons] using
        hfirst.append_reads hrest

theorem intercalate_nil_left {α : Type} (xs : List (List α)) :
    List.intercalate [] xs = xs.flatten := by
  induction xs with
  | nil => rfl
  | cons x xs ih =>
    cases xs with
    | nil => simp
    | cons y ys => simpa using ih

/-- Nothing but ignored characters stands between these pieces. -/
theorem reads_rows
    {α : Type} {f : α → String} {tokens : α → List Token} (hs : isSeparator s = true)
    (hmarks : markTokens s = []) {xs : List α} (h : ∀ x ∈ xs, Reads (f x) (tokens x)) :
    Reads (s.intercalate (xs.map f)) (xs.flatMap tokens) := by
  have hrow := reads_intercalate hs h
  rwa [hmarks, intercalate_nil_left, ← List.flatMap_def] at hrow

end SchemaBinding.Sdl.Reader
