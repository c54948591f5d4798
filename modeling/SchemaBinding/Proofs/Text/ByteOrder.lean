import Mathlib.Data.Nat.Basic
import Mathlib.Tactic.SplitIfs

/-!
# The order of bytes

Texts are ordered by their characters, and their bytes in UTF-8 are in the same
order: of two characters the later one has a greater first byte where the bytes
differ first, whatever follows them.  The bytes of a character are its digits in
base 64 behind a first byte that says how many they are.
-/

namespace SchemaBinding.Text

/-- The bytes of a text in UTF-8. -/
def bytes (text : String) : List UInt8 :=
  text.toUTF8.data.toList

theorem bytes_eq (text : String) : bytes text = text.toList.flatMap String.utf8EncodeChar := by
  have htext : text.toUTF8 = text.toList.utf8Encode := by
    rw [← String.toByteArray_ofList, String.ofList_toList]
    rfl
  rw [bytes, htext, List.utf8Encode, List.data_toByteArray]

/-! ## One character -/

/-- The bytes for numbers below a bound are in the order of the numbers, whatever follows them. -/
def Ascends (bound : Nat) (encode : Nat → List UInt8) : Prop :=
  ∀ m n, m < n → n < bound → ∀ xs ys, encode m ++ xs < encode n ++ ys

theorem ascends_lead (bound offset : Nat) (h : bound + offset ≤ 256) :
    Ascends bound fun n => [UInt8.ofNat (n + offset)] := by
  intro m n hmn hn xs ys
  apply List.Lex.rel
  rw [UInt8.lt_iff_toNat_lt, UInt8.toNat_ofNat', UInt8.toNat_ofNat',
    Nat.mod_eq_of_lt (by omega), Nat.mod_eq_of_lt (by omega)]
  omega

/-- One more digit behind the bytes for the others. -/
theorem Ascends.digit {bound : Nat} {encode : Nat → List UInt8} (h : Ascends bound encode) :
    Ascends (64 * bound) fun n => encode (n / 64) ++ [UInt8.ofNat (n % 64 + 128)] := by
  intro m n hmn hn xs ys
  have hdigit : Ascends 64 fun n => [UInt8.ofNat (n + 128)] := ascends_lead 64 128 (by omega)
  simp only [List.append_assoc]
  by_cases hfront : m / 64 = n / 64
  · rw [hfront]
    apply List.append_left_lt
    apply hdigit (m % 64) (n % 64)
    · omega
    · omega
  · apply h
    · omega
    · omega

/-- The first byte of a character tells characters of different lengths apart. -/
def leadOf (n : Nat) : Nat :=
  if n < 128 then n
  else if n < 2048 then n / 64 + 192
  else if n < 65536 then n / 4096 + 224
  else n / 262144 + 240

/-- The bytes of a character by its number: a first byte, and up to three digits. -/
def encode (n : Nat) : List UInt8 :=
  if n < 128 then [UInt8.ofNat n]
  else if n < 2048 then [UInt8.ofNat (n / 64 + 192)] ++ [UInt8.ofNat (n % 64 + 128)]
  else if n < 65536 then
    [UInt8.ofNat (n / 64 / 64 + 224)] ++ [UInt8.ofNat (n / 64 % 64 + 128)] ++
      [UInt8.ofNat (n % 64 + 128)]
  else
    [UInt8.ofNat (n / 64 / 64 / 64 + 240)] ++ [UInt8.ofNat (n / 64 / 64 % 64 + 128)] ++
      [UInt8.ofNat (n / 64 % 64 + 128)] ++ [UInt8.ofNat (n % 64 + 128)]

theorem toNat_lt (c : Char) : c.toNat < 0x110000 := by
  have hvalid : c.toNat.isValidChar := c.valid
  rw [Nat.isValidChar] at hvalid
  omega

theorem utf8EncodeChar_eq (c : Char) : String.utf8EncodeChar c = encode c.toNat := by
  have hcode := toNat_lt c
  have hval : c.val.toNat = c.toNat := rfl
  simp only [String.utf8EncodeChar, encode, hval]
  generalize c.toNat = n at hcode
  by_cases hone : n < 128
  · rw [if_pos (show n ≤ 127 by omega), if_pos hone]
  rw [if_neg (show ¬ n ≤ 127 by omega), if_neg hone]
  by_cases htwo : n < 2048
  · have hlead : n / 64 % 32 = n / 64 := Nat.mod_eq_of_lt (by omega)
    rw [if_pos (show n ≤ 2047 by omega), if_pos htwo, hlead]
    rfl
  rw [if_neg (show ¬ n ≤ 2047 by omega), if_neg htwo]
  by_cases hthree : n < 65536
  · have hlead : n / 4096 % 16 = n / 64 / 64 := by omega
    rw [if_pos (show n ≤ 65535 by omega), if_pos hthree, hlead]
    rfl
  · have hlead : n / 262144 % 8 = n / 64 / 64 / 64 := by omega
    have hdigit : n / 4096 = n / 64 / 64 := by omega
    rw [if_neg (show ¬ n ≤ 65535 by omega), if_neg hthree, hlead, hdigit]
    rfl

theorem exists_encode_eq (n : Nat) : ∃ rest, encode n = UInt8.ofNat (leadOf n) :: rest := by
  have htwice : n / 64 / 64 = n / 4096 := by omega
  have hthrice : n / 4096 / 64 = n / 262144 := by omega
  rw [encode, leadOf, htwice, hthrice]
  split_ifs
  all_goals exact ⟨_, rfl⟩

/-- The bytes of two characters are in the order of their numbers. -/
theorem ascends_encode : Ascends 0x110000 encode := by
  intro m n hmn hn xs ys
  by_cases hlead : leadOf m < leadOf n
  · obtain ⟨front, hfront⟩ := exists_encode_eq m
    obtain ⟨back, hback⟩ := exists_encode_eq n
    have hbyte : leadOf n < 256 := by
      rw [leadOf]
      split_ifs <;> omega
    rw [hfront, hback]
    apply List.Lex.rel
    exact (UInt8.ofNat_lt_iff_lt (Nat.lt_trans hlead hbyte) hbyte).mpr hlead
  -- With the same first byte both characters have as many bytes.
  have hlength : (m < 128 ↔ n < 128) ∧ (m < 2048 ↔ n < 2048) ∧ (m < 65536 ↔ n < 65536) := by
    rw [leadOf, leadOf] at hlead
    split_ifs at hlead <;> omega
  have hone : Ascends 128 fun n => [UInt8.ofNat n] := ascends_lead 128 0 (by omega)
  have htwo := (ascends_lead 32 192 (by omega)).digit
  have hthree := (ascends_lead 16 224 (by omega)).digit.digit
  have hfour := (ascends_lead 16 240 (by omega)).digit.digit.digit
  simp only [encode, hlength]
  split_ifs with h1 h2 h3
  · exact hone m n hmn h1 xs ys
  · exact htwo m n hmn h2 xs ys
  · exact hthree m n hmn h3 xs ys
  · exact hfour m n hmn (by omega) xs ys

/-! ## Whole texts -/

theorem append_lt_append_iff (front xs ys : List UInt8) : front ++ xs < front ++ ys ↔ xs < ys := by
  induction front with
  | nil => rfl
  | cons b front ih => simp [ih]

theorem encodeAll_lt_iff (cs ds : List Char) :
    cs.flatMap String.utf8EncodeChar < ds.flatMap String.utf8EncodeChar ↔ cs < ds := by
  induction cs generalizing ds with
  | nil =>
    cases ds with
    | nil => simp
    | cons d ds =>
      obtain ⟨rest, hrest⟩ := exists_encode_eq d.toNat
      simp [utf8EncodeChar_eq, hrest]
  | cons c cs ih =>
    cases ds with
    | nil => simp
    | cons d ds =>
      rw [List.flatMap_cons, List.flatMap_cons, utf8EncodeChar_eq, utf8EncodeChar_eq,
        List.cons_lt_cons_iff]
      rcases Nat.lt_trichotomy c.toNat d.toNat with hcd | hsame | hdc
      · have hbytes := ascends_encode c.toNat d.toNat hcd (toNat_lt d)
        exact iff_of_true (hbytes _ _) (Or.inl hcd)
      · obtain rfl := Char.toNat_inj.mp hsame
        rw [append_lt_append_iff, ih]
        simp
      · have hbytes := ascends_encode d.toNat c.toNat hdc (toNat_lt c)
        refine iff_of_false (List.lt_asymm (hbytes _ _)) ?_
        rintro (hcd | ⟨rfl, -⟩)
        · exact Nat.lt_asymm hdc hcd
        · exact Nat.lt_irrefl _ hdc

/-- Of two texts the one whose bytes come first comes first. -/
theorem lt_iff_bytes_lt {left right : String} : left < right ↔ bytes left < bytes right := by
  rw [bytes_eq, bytes_eq, encodeAll_lt_iff]
  rfl

end SchemaBinding.Text
