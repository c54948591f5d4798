import SchemaBinding.Proofs.Sdl.Pieces
import SchemaBinding.Json.Quoted

/-!
# Reading quoted strings

A quoted text is one token of a schema document.  Every character is written
as an escape that the notation has or as a character that may stand for
itself, so the first bare quotation mark is the one that closes the string.
-/

namespace SchemaBinding.Sdl.Reader

theorem isHexDigit_hexDigit (n : Nat) : isHexDigit (Json.hexDigit n) = true := by
  have hdigits : ∀ m : Fin 16, isHexDigit (Nat.digitChar m) = true := by decide
  exact hdigits ⟨n % 16, Nat.mod_lt n (by decide)⟩

theorem takeString_escape
    {c : Char} (h : isEscapable c = true) (cs : List Char) :
    takeString ('\\' :: c :: cs) = (takeString cs).map (Taken.prepend ['\\', c]) := by
  have hc : c ≠ 'u' := by
    rintro rfl
    cases h
  rw [takeString, if_pos h]
  · exact fun _ heq _ => hc heq
  · exact fun _ _ _ _ _ heq _ => hc heq

theorem takeString_escapeChar_append (c : Char) (cs : List Char) :
    takeString (Json.escapeChar c ++ cs) =
      (takeString cs).map (Taken.prepend (Json.escapeChar c)) := by
  unfold Json.escapeChar
  split_ifs with hquote hslash _ _ hfeed hreturn _ hcontrol
  · exact takeString_escape (by decide) cs
  · exact takeString_escape (by decide) cs
  · exact takeString_escape (by decide) cs
  · exact takeString_escape (by decide) cs
  · exact takeString_escape (by decide) cs
  · exact takeString_escape (by decide) cs
  · exact takeString_escape (by decide) cs
  · have hdigits : ['0', '0', Json.hexDigit (c.toNat / 16), Json.hexDigit c.toNat].all
        isHexDigit = true := by
      simp [isHexDigit_hexDigit, show isHexDigit '0' = true by decide]
    simp only [List.cons_append, List.nil_append]
    rw [takeString, if_pos hdigits]
    exact fun heq => by cases heq
  · have hplain : ¬ (isLineEnd c || decide (c = '\\')) = true := by
      simp [isLineEnd, hslash, hfeed, hreturn]
    simp only [List.cons_append, List.nil_append]
    rw [takeString, if_neg hplain]
    · exact hquote
    · exact fun _ heq _ => hslash heq
    · exact fun _ _ _ _ _ heq _ => hslash heq
    · exact fun _ _ heq _ => hslash heq

theorem takeString_flatMap_escapeChar (cs x : List Char) :
    takeString (cs.flatMap Json.escapeChar ++ '"' :: x) =
      some (cs.flatMap Json.escapeChar, x) := by
  induction cs with
  | nil => simp [takeString]
  | cons c cs ih =>
    rw [List.flatMap_cons, List.append_assoc, takeString_escapeChar_append, ih]
    rfl

theorem head?_escapeChar_append_ne (c : Char) (cs : List Char) :
    (Json.escapeChar c ++ cs).head? ≠ some '"' := by
  unfold Json.escapeChar
  split_ifs with hquote <;> simp [hquote]

/-- Only an empty text has two quotation marks in front, and a third one behind
them would not be clear. -/
theorem takeQuoted_flatMap_escapeChar
    (cs : List Char) {x : List Char} (hx : Clear x) :
    takeQuoted (cs.flatMap Json.escapeChar ++ '"' :: x) =
      some (.string (cs.flatMap Json.escapeChar), x) := by
  rw [takeQuoted, takeString_flatMap_escapeChar]
  · rfl
  · intro tail heq
    cases cs with
    | nil =>
      have hhead : x.head? = some '"' := by
        rw [(List.cons.inj heq).2, List.head?_cons]
      exact (hx '"' hhead).2.2 rfl
    | cons c cs =>
      have hhead := congrArg List.head? heq
      rw [List.flatMap_cons, List.append_assoc] at hhead
      exact head?_escapeChar_append_ne c _ hhead

theorem reads_quote (text : String) :
    Reads (Json.quote text) [.string (text.toList.flatMap Json.escapeChar)] := by
  constructor
  · exact bare_singleton rfl
  · intro x hx
    have htoken : takeToken '"' (text.toList.flatMap Json.escapeChar ++ '"' :: x) =
        some (.string (text.toList.flatMap Json.escapeChar), x) := by
      rw [takeToken, if_neg (by decide), if_neg (by decide), if_pos rfl,
        takeQuoted_flatMap_escapeChar _ hx]
    have hlength : x.length ≤ (text.toList.flatMap Json.escapeChar ++ '"' :: x).length := by
      simp only [List.length_append, List.length_cons]
      omega
    rw [Json.quote, String.toList_ofList, Json.quoteChars, List.append_assoc, List.cons_append,
      List.cons_append, List.nil_append, scan_cons_of_takeToken (by decide) htoken hlength]
    rfl

end SchemaBinding.Sdl.Reader
