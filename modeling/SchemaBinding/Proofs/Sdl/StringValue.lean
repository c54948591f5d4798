import SchemaBinding.Proofs.Sdl.QuotedString

/-!
# The value of a string

A string token keeps its escapes as they stand.  A reader turns each of them
into the character that it stands for: a backslash before a character, a code
of four digits, two such codes that belong together, or a code of any length
between braces.  A quoted text has the value of the text that was quoted.
-/

namespace SchemaBinding.Sdl.Reader

/-! ## Escapes -/

/-- The character that a backslash and one more character stand for. -/
def escaped? : Char → Option Char
  | '"' => some '"'
  | '\\' => some '\\'
  | '/' => some '/'
  | 'b' => some '\x08'
  | 'f' => some '\x0c'
  | 'n' => some '\n'
  | 'r' => some '\r'
  | 't' => some '\t'
  | _ => none

def hexDigitValue (c : Char) : Nat :=
  if c.isDigit then c.toNat - '0'.toNat
  else if c.isLower then c.toNat - 'a'.toNat + 10
  else c.toNat - 'A'.toNat + 10

def hexValue (digits : List Char) : Nat :=
  digits.foldl (fun value c => 16 * value + hexDigitValue c) 0

/-- The character of a code, unless the code is one half of a pair or too large. -/
def coded? (code : Nat) : Option Char :=
  if code.isValidChar then some (Char.ofNat code) else none

/-- The character of a code of four digits, and what stands behind it.  The first
half of a pair takes the second one with it. -/
def takeCode (code : Nat) (cs : List Char) : Option (Char × List Char) :=
  if 0xD800 ≤ code ∧ code ≤ 0xDBFF then
    match cs with
    | '\\' :: 'u' :: a :: b :: c :: d :: rest =>
      let second := hexValue [a, b, c, d]
      if 0xDC00 ≤ second ∧ second ≤ 0xDFFF then
        (coded? (0x10000 + (code - 0xD800) * 0x400 + (second - 0xDC00))).map (·, rest)
      else none
    | _ => none
  else (coded? code).map (·, cs)

/-- The characters that the text of a string token stands for. -/
def stringValue? (cs : List Char) : Option (List Char) :=
  match cs with
  | [] => some []
  | '\\' :: 'u' :: '\x7b' :: cs =>
    (coded? (hexValue (cs.takeWhile isHexDigit))).bind fun c =>
      (stringValue? (cs.dropWhile isHexDigit).tail).map (c :: ·)
  | '\\' :: 'u' :: a :: b :: c :: d :: cs =>
    match takeCode (hexValue [a, b, c, d]) cs with
    | none => none
    | some (c, rest) =>
      if rest.length ≤ cs.length then (stringValue? rest).map (c :: ·) else none
  | '\\' :: c :: cs => (escaped? c).bind fun c => (stringValue? cs).map (c :: ·)
  | c :: cs => if c = '\\' then none else (stringValue? cs).map (c :: ·)
termination_by cs.length
decreasing_by
  · have hlength := (List.dropWhile_sublist (l := cs) isHexDigit).length_le
    simp only [List.length_tail, List.length_cons]
    omega
  all_goals (simp only [List.length_cons]; omega)

theorem stringValue?_nil : stringValue? [] = some [] := by
  rw [stringValue?]

theorem stringValue?_escape {c value : Char} (h : escaped? c = some value) (cs : List Char) :
    stringValue? ('\\' :: c :: cs) = (stringValue? cs).map (value :: ·) := by
  have hc : c ≠ 'u' := by
    rintro rfl
    cases h
  rw [stringValue?, h]
  · rfl
  · exact fun _ heq _ => hc heq
  · exact fun _ _ _ _ _ heq _ => hc heq

theorem stringValue?_plain {c : Char} (h : c ≠ '\\') (cs : List Char) :
    stringValue? (c :: cs) = (stringValue? cs).map (c :: ·) := by
  rw [stringValue?, if_neg h]
  · exact fun _ heq _ => h heq
  · exact fun _ _ _ _ _ heq _ => h heq
  · exact fun _ _ heq _ => h heq

/-! ## Quoted texts -/

/-- Two digits are enough for the code of a control character. -/
theorem hexValue_control {n : Nat} (h : n < 0x20) :
    hexValue ['0', '0', Json.hexDigit (n / 16), Json.hexDigit n] = n := by
  have hcodes : ∀ m : Fin 0x20,
      hexValue ['0', '0', Json.hexDigit (m / 16), Json.hexDigit m] = m := by decide
  exact hcodes ⟨n, h⟩

theorem takeCode_toNat {c : Char} (h : c.toNat < 0xD800) (cs : List Char) :
    takeCode c.toNat cs = some (c, cs) := by
  have hvalid : c.toNat.isValidChar := c.valid
  have hcoded : coded? c.toNat = some c := by rw [coded?, if_pos hvalid, Char.ofNat_toNat]
  unfold takeCode
  rw [if_neg (by omega), hcoded]
  rfl

theorem stringValue?_escapeChar_append (c : Char) (cs : List Char) :
    stringValue? (Json.escapeChar c ++ cs) = (stringValue? cs).map (c :: ·) := by
  unfold Json.escapeChar
  split_ifs with hquote hslash hbackspace hform hfeed hreturn htab hcontrol
  · subst hquote
    exact stringValue?_escape rfl cs
  · subst hslash
    exact stringValue?_escape rfl cs
  · subst hbackspace
    exact stringValue?_escape rfl cs
  · subst hform
    exact stringValue?_escape rfl cs
  · subst hfeed
    exact stringValue?_escape rfl cs
  · subst hreturn
    exact stringValue?_escape rfl cs
  · subst htab
    exact stringValue?_escape rfl cs
  · have hcode : takeCode c.toNat cs = some (c, cs) := takeCode_toNat (by omega) cs
    simp only [List.cons_append, List.nil_append]
    rw [stringValue?, hexValue_control hcontrol, hcode]
    · exact if_pos (Nat.le_refl _)
    · exact fun heq => by cases heq
  · exact stringValue?_plain hslash cs

/-- Every text has its own value between quotation marks. -/
theorem stringValue?_flatMap_escapeChar (cs : List Char) :
    stringValue? (cs.flatMap Json.escapeChar) = some cs := by
  induction cs with
  | nil => exact stringValue?_nil
  | cons c cs ih =>
    rw [List.flatMap_cons, stringValue?_escapeChar_append, ih]
    rfl

end SchemaBinding.Sdl.Reader
