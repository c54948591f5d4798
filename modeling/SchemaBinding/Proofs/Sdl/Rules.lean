import SchemaBinding.Proofs.Sdl.DocumentTokens

/-!
# Readers in front of other tokens

A reader takes exactly the tokens of one part, as long as the token behind
them is none that the part could go on with.  Inside a group that token is the
first one of the next item or the one that closes the group, so every item has
to be read in front of both.
-/

namespace SchemaBinding.Sdl.Reader

variable {α β : Type}

/-! ## What may follow a part -/

/-- Descriptions and names, which an item of a group starts with. -/
def Token.opensItem : Token → Bool
  | name _ | string _ | blockString _ => true
  | _ => false

/-- Whether an item of a group may end before a token. -/
def Token.endsItem : Token → Bool
  | mark c => c = ')' || c = '\x7d'
  | token => token.opensItem

def Boundary (rest : List Token) : Prop :=
  ∀ token ∈ rest.head?, token.endsItem = true

theorem Token.endsItem_of_opensItem
    {token : Token} (h : token.opensItem = true) : token.endsItem = true := by
  cases token with
  | mark c => cases h
  | spread | comment => exact h
  | name | number | string | blockString => exact h

theorem Boundary.head?_ne
    {rest : List Token} (h : Boundary rest) {token : Token} (htoken : token.endsItem = false) :
    rest.head? ≠ some token := by
  intro hhead
  have hends := h token (by simp [hhead])
  rw [htoken] at hends
  cases hends

/-- Whether a definition may start with a token, so that a body may end before it. -/
def Token.opensDefinition : Token → Bool
  | name text => text != "implements"
  | token => token.opensItem

/-- These tokens are no part of the definition before them. -/
def Fresh (rest : List Token) : Prop :=
  ∀ token ∈ rest.head?, token.opensDefinition = true

theorem fresh_nil : Fresh [] := by
  simp [Fresh]

theorem Token.opensItem_of_opensDefinition
    {token : Token} (h : token.opensDefinition = true) : token.opensItem = true := by
  cases token with
  | name text => rfl
  | mark | spread | number | string | blockString | comment => exact h

theorem Fresh.boundary {rest : List Token} (h : Fresh rest) : Boundary rest :=
  fun token htoken =>
    Token.endsItem_of_opensItem (Token.opensItem_of_opensDefinition (h token htoken))

theorem Fresh.head?_ne_implements {rest : List Token} (h : Fresh rest) :
    rest.head? ≠ some (.name "implements") := by
  intro hhead
  have hopens := h _ hhead
  simp [Token.opensDefinition] at hopens

/-! ## Rows of items -/

/-- `tokens` are an item that a reader takes as `a` wherever items may end. -/
structure Item (rule : Rule β) (tokens : List Token) (b : β) : Prop where
  opens : ∃ token ∈ tokens.head?, token.opensItem = true
  take : ∀ rest, Boundary rest → rule (tokens ++ rest) = some (b, rest)

theorem Item.boundary_append
    {rule : Rule β} {tokens : List Token} {b : β} (h : Item rule tokens b) (rest : List Token) :
    Boundary (tokens ++ rest) := by
  obtain ⟨token, hhead, hopens⟩ := h.opens
  obtain ⟨tail, rfl⟩ := List.head?_eq_some_iff.mp hhead
  rintro _ ⟨rfl⟩
  exact Token.endsItem_of_opensItem hopens

theorem Item.length_pos
    {rule : Rule β} {tokens : List Token} {b : β} (h : Item rule tokens b) :
    0 < tokens.length := by
  obtain ⟨token, hhead, -⟩ := h.opens
  obtain ⟨tail, rfl⟩ := List.head?_eq_some_iff.mp hhead
  simp

theorem takeUntil_last
    {rule : Rule β} {close : Char} {tokens rest : List Token} {b : β}
    (htake : rule tokens = some (b, .mark close :: rest)) :
    takeUntil close rule tokens = some ([b], rest) := by
  rw [takeUntil, htake]
  simp

theorem takeUntil_cons
    {rule : Rule β} {close : Char} {tokens rest after : List Token} {b : β} {bs : List β}
    (htake : rule tokens = some (b, rest)) (hhead : rest.head? ≠ some (.mark close))
    (hlength : rest.length < tokens.length)
    (hothers : takeUntil close rule rest = some (bs, after)) :
    takeUntil close rule tokens = some (b :: bs, after) := by
  rw [takeUntil, htake]
  simp only [if_neg hhead, if_pos hlength, hothers]
  rfl

theorem takeUntil_flatMap
    {rule : Rule β} {tokens : α → List Token} {tree : α → β} {close : Char}
    (hclose : (Token.mark close).endsItem = true) {xs : List α} (hne : xs ≠ [])
    (h : ∀ x ∈ xs, Item rule (tokens x) (tree x)) (rest : List Token) :
    takeUntil close rule (xs.flatMap tokens ++ .mark close :: rest) =
      some (xs.map tree, rest) := by
  have hboundary : Boundary (.mark close :: rest) := by
    rintro _ ⟨rfl⟩
    exact hclose
  induction xs with
  | nil => exact absurd rfl hne
  | cons x xs ih =>
    have hx := h x (by simp)
    rw [List.flatMap_cons, List.append_assoc]
    cases xs with
    | nil =>
      rw [List.flatMap_nil, List.nil_append]
      exact takeUntil_last (hx.take _ hboundary)
    | cons y ys =>
      have hy := h y (by simp)
      have hnext : Boundary ((y :: ys).flatMap tokens ++ .mark close :: rest) := by
        rw [List.flatMap_cons, List.append_assoc]
        exact hy.boundary_append _
      have hhead : ((y :: ys).flatMap tokens ++ .mark close :: rest).head? ≠
          some (.mark close) := by
        obtain ⟨token, hfirst, hopens⟩ := hy.opens
        obtain ⟨tail, htail⟩ := List.head?_eq_some_iff.mp hfirst
        rw [List.flatMap_cons, htail]
        rintro ⟨rfl⟩
        cases hopens
      have hrest := ih (by simp) fun z hz => h z (List.mem_cons_of_mem x hz)
      have hlength := hx.length_pos
      refine takeUntil_cons (hx.take _ hnext) hhead ?_ hrest
      simp only [List.length_append]
      omega

/-- A group is read back, also where it disappears for want of items. -/
theorem takeGroup_groupTokens
    {rule : Rule β} {tokens : α → List Token} {tree : α → β} {opening close : Char}
    (hclose : (Token.mark close).endsItem = true) {xs : List α}
    (h : ∀ x ∈ xs, Item rule (tokens x) (tree x)) {rest : List Token}
    (hrest : rest.head? ≠ some (.mark opening)) :
    takeGroup opening close rule (groupTokens opening close tokens xs ++ rest) =
      some (xs.map tree, rest) := by
  cases xs with
  | nil => simp [takeGroup, groupTokens, hrest]
  | cons x xs =>
    have huntil := takeUntil_flatMap hclose (List.cons_ne_nil x xs) h rest
    simpa [takeGroup, groupTokens] using huntil

theorem takeEach_of_head?_ne
    (rule : Rule β) {mark : Char} {rest : List Token} (h : rest.head? ≠ some (.mark mark)) :
    takeEach mark rule rest = some ([], rest) := by
  rw [takeEach, if_neg h]

theorem takeEach_cons
    {rule : Rule β} {mark : Char} {tokens rest after : List Token} {b : β} {bs : List β}
    (htake : rule tokens = some (b, rest)) (hlength : rest.length ≤ tokens.length)
    (hothers : takeEach mark rule rest = some (bs, after)) :
    takeEach mark rule (.mark mark :: tokens) = some (b :: bs, after) := by
  rw [takeEach, if_pos List.head?_cons, List.tail_cons, htake]
  simp only [hothers]
  rw [if_pos (by simp only [List.length_cons]; omega)]
  rfl

theorem takeEach_flatMap
    {rule : Rule β} {tokens : α → List Token} {tree : α → β} {mark : Char} {xs : List α}
    (h : ∀ x ∈ xs, ∀ rest, rule (tokens x ++ rest) = some (tree x, rest)) {rest : List Token}
    (hrest : rest.head? ≠ some (.mark mark)) :
    takeEach mark rule (xs.flatMap (fun x => .mark mark :: tokens x) ++ rest) =
      some (xs.map tree, rest) := by
  induction xs with
  | nil => exact takeEach_of_head?_ne rule hrest
  | cons x xs ih =>
    have hothers := ih fun y hy => h y (List.mem_cons_of_mem x hy)
    rw [List.flatMap_cons, List.append_assoc, List.cons_append]
    exact takeEach_cons (h x (by simp) _) (by simp) hothers

theorem namesTokens_cons (mark : Char) (first : String) (others : List String) :
    namesTokens mark (first :: others) =
      .name first :: others.flatMap fun name => [.mark mark, .name name] := by
  induction others generalizing first with
  | nil => rfl
  | cons second others ih =>
    simp only [namesTokens, List.map_cons] at ih ⊢
    rw [List.intercalate_cons_cons, ih]
    rfl

theorem takeNames_namesTokens
    {mark : Char} {names : List String} (hne : names ≠ []) {rest : List Token}
    (hrest : rest.head? ≠ some (.mark mark)) :
    takeNames mark (namesTokens mark names ++ rest) = some (names, rest) := by
  cases names with
  | nil => exact absurd rfl hne
  | cons first others =>
    have hname : ∀ name ∈ others, ∀ rest, takeName ([.name name] ++ rest) = some (id name, rest) :=
      fun _ _ _ => rfl
    have hothers := takeEach_flatMap hname hrest
    rw [namesTokens_cons, takeNames]
    simp [takeName, hothers]

end SchemaBinding.Sdl.Reader
