import Mathlib.Tactic.SplitIfs
import SchemaBinding.Proofs.Sdl.Token

/-!
# Scanning texts in front of other texts

Names and numbers go on as far as they can, and two quotation marks become a
fence by a third one.  Every other token ends where it ends.  So a text keeps
its tokens in front of another one whose first character belongs to none of
these, unless it holds a comment, which goes on to the end of its line.
-/

namespace SchemaBinding.Sdl.Reader

/-! ## What may follow a token -/

/-- The first of these characters, if there is one, ends every token. -/
def Clear (cs : List Char) : Prop :=
  ∀ c ∈ cs.head?, isNameChar c = false ∧ c ≠ '.' ∧ c ≠ '"'

theorem clear_nil : Clear [] := by
  simp [Clear]

instance (cs : List Char) : Decidable (Clear cs) :=
  match cs with
  | [] => isTrue clear_nil
  | c :: _ =>
    decidable_of_iff (isNameChar c = false ∧ c ≠ '.' ∧ c ≠ '"') (by simp [Clear])

theorem Clear.append
    {cs x : List Char} (hcs : Clear cs) (hx : Clear x) : Clear (cs ++ x) := by
  cases cs with
  | nil => exact hx
  | cons c cs => simpa [Clear] using hcs

theorem Clear.append_of_ne_nil
    {cs : List Char} (hcs : Clear cs) (hne : cs ≠ []) (x : List Char) : Clear (cs ++ x) := by
  cases cs with
  | nil => exact absurd rfl hne
  | cons c cs => simpa [Clear] using hcs

theorem Clear.isDigit_head
    {x : List Char} (hx : Clear x) : ∀ c ∈ x.head?, c.isDigit = false := by
  intro c hc
  have hchar := (hx c hc).1
  simp only [isNameChar, Char.isAlphanum, Bool.or_eq_false_iff] at hchar
  exact hchar.1.2

theorem takeWhile_append_of_head
    {p : Char → Bool} {x : List Char} (hx : ∀ c ∈ x.head?, p c = false) (cs : List Char) :
    (cs ++ x).takeWhile p = cs.takeWhile p := by
  induction cs with
  | nil =>
    cases x with
    | nil => rfl
    | cons c x => simp [hx c rfl]
  | cons c cs ih => simp only [List.cons_append, List.takeWhile_cons, ih]

theorem dropWhile_append_of_head
    {p : Char → Bool} {x : List Char} (hx : ∀ c ∈ x.head?, p c = false) (cs : List Char) :
    (cs ++ x).dropWhile p = cs.dropWhile p ++ x := by
  induction cs with
  | nil =>
    cases x with
    | nil => rfl
    | cons c x => simp [hx c rfl]
  | cons c cs ih =>
    simp only [List.cons_append, List.dropWhile_cons, ih]
    split <;> rfl

/-! ## Tokens in front of other text -/

/-- What is taken does not depend on what follows, if that ends every token. -/
def Stable {α : Type} (take : List Char → Option (α × List Char)) : Prop :=
  ∀ ⦃cs rest x : List Char⦄ ⦃a : α⦄, Clear x →
    take cs = some (a, rest) → take (cs ++ x) = some (a, rest ++ x)

theorem map_prepend_append
    {taken taken' : Option Taken} {front a rest x : List Char}
    (ih : ∀ {rest a : List Char}, taken = some (a, rest) → taken' = some (a, rest ++ x))
    (h : taken.map (Taken.prepend front) = some (a, rest)) :
    taken'.map (Taken.prepend front) = some (a, rest ++ x) := by
  obtain ⟨⟨b, rest'⟩, htaken, heq⟩ := Option.map_eq_some_iff.mp h
  obtain ⟨rfl, rfl⟩ := Prod.mk.inj heq
  simp [ih htaken, Taken.prepend]

theorem stable_map_prepend
    {take : List Char → Option Taken} (h : Stable take) (front : List Char) :
    Stable fun cs => (take cs).map (Taken.prepend front) :=
  fun _ _ _ _ hx htake => map_prepend_append (h hx) htake

theorem stable_takeDigits : Stable takeDigits := by
  intro cs rest x a hx htake
  simp only [takeDigits] at htake ⊢
  rw [takeWhile_append_of_head hx.isDigit_head, dropWhile_append_of_head hx.isDigit_head]
  split at htake
  · cases htake
  next hne =>
    obtain ⟨rfl, rfl⟩ := Prod.mk.inj (Option.some.inj htake)
    simp [hne]

theorem stable_takeNatural : Stable takeNatural := by
  intro cs rest x a hx htake
  unfold takeNatural at htake
  split at htake
  next cs =>
    obtain ⟨rfl, rfl⟩ := Prod.mk.inj (Option.some.inj htake)
    rfl
  next hzero =>
    cases cs with
    | nil => simp [takeDigits] at htake
    | cons c cs =>
      have hc : c ≠ '0' := by
        rintro rfl
        exact hzero cs rfl
      rw [List.cons_append, takeNatural]
      · exact stable_takeDigits hx htake
      · rintro tail heq
        exact hc (List.cons.inj heq).1

theorem stable_takeWhole : Stable takeWhole := by
  intro cs rest x a hx htake
  unfold takeWhole at htake
  split at htake
  next cs => exact stable_map_prepend stable_takeNatural ['-'] hx htake
  next hminus =>
    cases cs with
    | nil => simp [takeNatural, takeDigits] at htake
    | cons c cs =>
      rw [List.cons_append, takeWhole]
      · exact stable_takeNatural hx htake
      · rintro tail heq
        exact hminus cs (by rw [(List.cons.inj heq).1])

theorem stable_takeFraction : Stable takeFraction := by
  intro cs rest x a hx htake
  unfold takeFraction at htake
  split at htake
  next cs => exact stable_map_prepend stable_takeDigits ['.'] hx htake
  next hpoint =>
    obtain ⟨rfl, rfl⟩ := Prod.mk.inj (Option.some.inj htake)
    rw [takeFraction]
    rintro tail heq
    cases cs with
    | nil => exact (hx '.' (by rw [← List.nil_append x, heq]; rfl)).2.1 rfl
    | cons c cs => exact hpoint cs (by rw [(List.cons.inj heq).1])

theorem stable_takeSigned : Stable takeSigned := by
  intro cs rest x a hx htake
  unfold takeSigned at htake
  split at htake
  next cs => exact stable_map_prepend stable_takeDigits ['+'] hx htake
  next cs => exact stable_map_prepend stable_takeDigits ['-'] hx htake
  next hplus hminus =>
    cases cs with
    | nil => simp [takeDigits] at htake
    | cons c cs =>
      rw [List.cons_append, takeSigned]
      · exact stable_takeDigits hx htake
      · rintro tail heq
        exact hplus cs (by rw [(List.cons.inj heq).1])
      · rintro tail heq
        exact hminus cs (by rw [(List.cons.inj heq).1])

theorem stable_takeExponent : Stable takeExponent := by
  intro cs rest x a hx htake
  cases cs with
  | nil =>
    obtain ⟨rfl, rfl⟩ := Prod.mk.inj (Option.some.inj htake)
    cases x with
    | nil => rfl
    | cons c x =>
      have hc := (hx c rfl).1
      have hlower : c ≠ 'e' := by
        rintro rfl
        cases hc
      have hupper : c ≠ 'E' := by
        rintro rfl
        cases hc
      simp [takeExponent, hlower, hupper]
  | cons c cs =>
    simp only [takeExponent, List.cons_append] at htake ⊢
    split at htake
    next hletter =>
      rw [if_pos hletter]
      exact stable_map_prepend stable_takeSigned [c] hx htake
    next hletter =>
      rw [if_neg hletter]
      obtain ⟨rfl, rfl⟩ := Prod.mk.inj (Option.some.inj htake)
      rfl

theorem mayEndNumber_append
    {cs x : List Char} (hx : Clear x) (h : mayEndNumber cs = true) :
    mayEndNumber (cs ++ x) = true := by
  cases cs with
  | cons c cs => exact h
  | nil =>
    cases x with
    | nil => rfl
    | cons c x =>
      obtain ⟨hchar, hpoint, -⟩ := hx c rfl
      simp [mayEndNumber, hchar, hpoint]

theorem stable_takeNumber : Stable takeNumber := by
  intro cs rest x a hx htake
  simp only [takeNumber, Option.bind_eq_bind, Option.bind_eq_some_iff, Prod.exists] at htake ⊢
  obtain ⟨whole, cs₁, hwhole, fraction, cs₂, hfraction, exponent, cs₃, hexponent, hend⟩ := htake
  split at hend
  next hmay =>
    obtain ⟨rfl, rfl⟩ := Prod.mk.inj (Option.some.inj hend)
    refine ⟨whole, cs₁ ++ x, stable_takeWhole hx hwhole, fraction, cs₂ ++ x,
      stable_takeFraction hx hfraction, exponent, cs₃ ++ x, stable_takeExponent hx hexponent, ?_⟩
    rw [if_pos (mayEndNumber_append hx hmay)]
  next => cases hend

/-! ## Strings -/

theorem span_append_of_dropWhile_ne_nil
    {p : Char → Bool} {cs : List Char} (x : List Char) (h : cs.dropWhile p ≠ []) :
    (cs ++ x).takeWhile p = cs.takeWhile p ∧ (cs ++ x).dropWhile p = cs.dropWhile p ++ x := by
  induction cs with
  | nil => exact absurd rfl h
  | cons c cs ih =>
    cases hc : p c with
    | false => simp [hc]
    | true => simpa [hc] using ih (by simpa [hc] using h)

theorem opensCode_append
    {cs : List Char} (x : List Char) (h : opensCode cs = true) : opensCode (cs ++ x) = true := by
  simp only [opensCode, Bool.and_eq_true, bne_iff_ne, beq_iff_eq] at h ⊢
  obtain ⟨hdigits, hclose⟩ := h
  obtain ⟨tail, htail⟩ := List.head?_eq_some_iff.mp hclose
  obtain ⟨htake, hdrop⟩ :=
    span_append_of_dropWhile_ne_nil x (show cs.dropWhile isHexDigit ≠ [] by simp [htail])
  rw [htake, hdrop, htail]
  exact ⟨hdigits, rfl⟩

theorem stable_takeString : Stable takeString := by
  intro cs rest x a hx htake
  fun_induction takeString cs generalizing a rest with
  | case1 => cases htake
  | case2 cs =>
    obtain ⟨rfl, rfl⟩ := Prod.mk.inj (Option.some.inj htake)
    simp [takeString]
  | case3 cs hcode ih =>
    simp only [List.cons_append, takeString, opensCode_append x hcode, if_true]
    exact map_prepend_append @ih htake
  | case4 => cases htake
  | case5 a b c d cs hbrace hdigits ih =>
    simp only [List.cons_append]
    rw [takeString, if_pos hdigits]
    · exact map_prepend_append @ih htake
    · exact hbrace
  | case6 => cases htake
  | case7 c cs _ _ hescape ih =>
    have hu : c ≠ 'u' := by
      rintro rfl
      cases hescape
    simp only [List.cons_append]
    rw [takeString, if_pos hescape]
    · exact map_prepend_append @ih htake
    · exact fun _ h _ => hu h
    · exact fun _ _ _ _ _ h _ => hu h
  | case8 => cases htake
  | case9 => cases htake
  | case10 c cs hquote _ _ _ hplain ih =>
    have hslash : c ≠ '\\' := by
      rintro rfl
      exact hplain rfl
    simp only [List.cons_append]
    rw [takeString, if_neg hplain]
    · exact map_prepend_append @ih htake
    · exact hquote
    · exact fun _ h _ => hslash h
    · exact fun _ _ _ _ _ h _ => hslash h
    · exact fun _ _ h _ => hslash h

theorem length_add_three_le_of_takeBlock
    {cs text rest : List Char} (h : takeBlock cs = some (text, rest)) :
    rest.length + 3 ≤ cs.length := by
  fun_induction takeBlock cs generalizing text with
  | case1 cs ih =>
    obtain ⟨⟨text', rest'⟩, htaken, heq⟩ := Option.map_eq_some_iff.mp h
    obtain rfl : rest' = rest := congrArg Prod.snd heq
    have hlength := ih htaken
    simp only [List.length_cons]
    omega
  | case2 cs =>
    obtain ⟨rfl, rfl⟩ := Prod.mk.inj (Option.some.inj h)
    simp
  | case3 c cs _ _ ih =>
    obtain ⟨⟨text', rest'⟩, htaken, heq⟩ := Option.map_eq_some_iff.mp h
    obtain rfl : rest' = rest := congrArg Prod.snd heq
    have hlength := ih htaken
    simp only [List.length_cons]
    omega
  | case4 => cases h

theorem stable_takeBlock : Stable takeBlock := by
  intro cs rest x a hx htake
  fun_induction takeBlock cs generalizing a rest with
  | case1 cs ih => exact map_prepend_append @ih htake
  | case2 cs =>
    obtain ⟨rfl, rfl⟩ := Prod.mk.inj (Option.some.inj htake)
    rfl
  | case3 c cs hescape hclose ih =>
    -- the fence that closes the string lies in `cs`, so `x` completes no fence
    obtain ⟨⟨text, rest'⟩, htaken, -⟩ := Option.map_eq_some_iff.mp htake
    have hlength := length_add_three_le_of_takeBlock htaken
    obtain ⟨c₁, c₂, c₃, cs, rfl⟩ : ∃ c₁ c₂ c₃ tail, cs = c₁ :: c₂ :: c₃ :: tail := by
      match cs, Nat.le_trans (Nat.le_add_left 3 _) hlength with
      | c₁ :: c₂ :: c₃ :: tail, _ => exact ⟨c₁, c₂, c₃, tail, rfl⟩
    simp only [List.cons_append]
    rw [takeBlock]
    · exact map_prepend_append @ih htake
    · rintro tail rfl heq
      obtain ⟨rfl, rfl, rfl, -⟩ := by simpa only [List.cons.injEq] using heq
      exact hescape cs rfl rfl
    · rintro tail rfl heq
      obtain ⟨rfl, rfl, -⟩ := by simpa only [List.cons.injEq] using heq
      exact hclose (c₃ :: cs) rfl rfl
  | case4 => cases htake

theorem stable_takeQuoted : Stable takeQuoted := by
  intro cs rest x token hx htake
  unfold takeQuoted at htake
  split at htake
  next cs =>
    obtain ⟨⟨text, rest'⟩, htaken, heq⟩ := Option.map_eq_some_iff.mp htake
    obtain ⟨rfl, rfl⟩ := Prod.mk.inj heq
    simp [takeQuoted, stable_takeBlock hx htaken]
  next hblock =>
    obtain ⟨⟨text, rest'⟩, htaken, heq⟩ := Option.map_eq_some_iff.mp htake
    obtain ⟨rfl, rfl⟩ := Prod.mk.inj heq
    rw [takeQuoted, stable_takeString hx htaken]
    · rfl
    · intro tail htail
      match cs with
      | [] => cases htaken
      | [c] =>
        obtain ⟨-, hhead⟩ := List.cons.inj htail
        exact (hx '"' (by rw [show x = '"' :: tail from hhead]; rfl)).2.2 rfl
      | c₁ :: c₂ :: cs =>
        obtain ⟨rfl, rfl, -⟩ := by simpa only [List.cons_append, List.cons.injEq] using htail
        exact hblock cs rfl

/-! ## Texts in front of other texts -/

theorem takeToken_append
    {c : Char} {cs rest x : List Char} {token : Token} (hx : Clear x)
    (hcomment : token.isComment = false) (h : takeToken c cs = some (token, rest)) :
    takeToken c (cs ++ x) = some (token, rest ++ x) := by
  have hname : ∀ d ∈ x.head?, isNameChar d = false := fun d hd => (hx d hd).1
  unfold takeToken at h ⊢
  split_ifs at h ⊢ with hstart hmark hquote hhash hpoint
  · obtain ⟨rfl, rfl⟩ := Prod.mk.inj (Option.some.inj h)
    rw [takeWhile_append_of_head hname, dropWhile_append_of_head hname]
  · obtain ⟨rfl, rfl⟩ := Prod.mk.inj (Option.some.inj h)
    rfl
  · exact stable_takeQuoted hx h
  · obtain ⟨rfl, rfl⟩ := Prod.mk.inj (Option.some.inj h)
    cases hcomment
  · unfold takeSpread at h
    split at h
    · obtain ⟨rfl, rfl⟩ := Prod.mk.inj (Option.some.inj h)
      rfl
    · cases h
  · obtain ⟨⟨text, rest'⟩, htaken, heq⟩ := Option.map_eq_some_iff.mp h
    obtain ⟨rfl, rfl⟩ := Prod.mk.inj heq
    rw [← List.cons_append, stable_takeNumber hx htaken]
    rfl

/-- Text that ends every token may follow a text without comments. -/
theorem scan_append
    {cs x : List Char} {tokens : List Token} (hx : Clear x) (h : scan cs = some tokens)
    (hbare : Bare tokens) :
    scan (cs ++ x) = (scan x).map (tokens ++ ·) := by
  fun_induction scan cs generalizing tokens with
  | case1 =>
    obtain rfl := Option.some.inj h
    simp
  | case2 c cs hignored ih =>
    rw [List.cons_append, scan_cons_of_isIgnored _ hignored]
    exact ih h hbare
  | case3 => cases h
  | case4 c cs hignored token after htake hlength ih =>
    obtain ⟨tokens, htokens, rfl⟩ := Option.map_eq_some_iff.mp h
    have htake' := takeToken_append hx (hbare token (by simp)) htake
    have hlength' : (after ++ x).length ≤ (cs ++ x).length := by
      simp only [List.length_append]
      omega
    rw [List.cons_append,
      scan_cons_of_takeToken (Bool.eq_false_iff.mpr hignored) htake' hlength',
      ih htokens fun token htoken => hbare token (by simp [htoken]), Option.map_map]
    rfl
  | case5 => cases h

end SchemaBinding.Sdl.Reader
