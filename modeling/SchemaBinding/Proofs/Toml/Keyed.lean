import SchemaBinding.Proofs.Json.SortedEntries
import SchemaBinding.Proofs.Results
import SchemaBinding.Toml.Reader

/-!
# Keys of configuration documents

In a document that can be read each table has each of its keys once.  Every
statement keeps that of the tables under construction: a key is assigned or
opened only where it is not there yet, and a table that is entered on the way
is put back under its own key.
-/

namespace SchemaBinding.Toml

/-! ## Values -/

/-- A value with no others in it. -/
def Value.isPlain : Value → Bool
  | .array _ => false
  | .table _ => false
  | _ => true

/-- In every table of the value each key is there once. -/
inductive Value.Keyed : Value → Prop
  | plain {value : Value} (h : value.isPlain = true) : Keyed value
  | array {items : List Value} (h : ∀ item ∈ items, Keyed item) : Keyed (.array items)
  | table {entries : Entries} (hkeys : (entries.map Prod.fst).Nodup)
    (h : ∀ entry ∈ entries, Keyed entry.2) : Keyed (.table entries)

/-- Each key is there once, and so it is in the tables among the values. -/
structure Entries.Keyed (entries : Entries) : Prop where
  nodup : (entries.map Prod.fst).Nodup
  value : ∀ entry ∈ entries, entry.2.Keyed

theorem Entries.Keyed.of_table {entries : Entries} (h : (Value.table entries).Keyed) :
    Entries.Keyed entries := by
  cases h with
  | plain h => cases h
  | table hkeys h => exact ⟨hkeys, h⟩

/-! ## Nodes -/

/-- In every table of the node each key is there once. -/
inductive Node.Keyed : Node → Prop
  | value {value : Value} (h : value.Keyed) : Keyed (.value value)
  | table {origin : Origin} {nodes : Nodes} (hkeys : (nodes.map Prod.fst).Nodup)
    (h : ∀ entry ∈ nodes, Keyed entry.2) : Keyed (.table origin nodes)
  | tables {elements : List Nodes} (hkeys : ∀ nodes ∈ elements, (nodes.map Prod.fst).Nodup)
    (h : ∀ nodes ∈ elements, ∀ entry ∈ nodes, Keyed entry.2) : Keyed (.tables elements)

namespace Nodes

variable {nodes : Nodes} {node : Node} {key : String}

/-- Each key is there once, and so it is in the tables below. -/
structure Keyed (nodes : Nodes) : Prop where
  nodup : (nodes.map Prod.fst).Nodup
  node : ∀ entry ∈ nodes, entry.2.Keyed

theorem keyed_nil : Keyed [] :=
  ⟨List.nodup_nil, nofun⟩

theorem keyed_table_iff {origin : Origin} : (Node.table origin nodes).Keyed ↔ Keyed nodes := by
  constructor
  · rintro (_ | ⟨hkeys, h⟩)
    exact ⟨hkeys, h⟩
  · exact fun h => .table h.nodup h.node

theorem keyed_tables_iff {elements : List Nodes} :
    (Node.tables elements).Keyed ↔ ∀ nodes ∈ elements, Keyed nodes := by
  constructor
  · rintro (_ | _ | ⟨hkeys, h⟩) nodes hnodes
    exact ⟨hkeys nodes hnodes, h nodes hnodes⟩
  · exact fun h => .tables (fun nodes hnodes => (h nodes hnodes).nodup)
      fun nodes hnodes => (h nodes hnodes).node

theorem Keyed.of_lookup (h : Keyed nodes) (hfound : nodes.lookup key = some node) : node.Keyed :=
  h.node _ (mem_of_lookup_eq_some hfound)

theorem map_fst_replace (key : String) (node : Node) (nodes : Nodes) :
    (nodes.replace key node).map Prod.fst = nodes.map Prod.fst := by
  induction nodes with
  | nil => rfl
  | cons entry nodes ih =>
    obtain ⟨k, n⟩ := entry
    rw [replace]
    split
    · rfl
    · exact congrArg (k :: ·) ih

theorem eq_or_mem_of_mem_replace {entry : String × Node} (h : entry ∈ nodes.replace key node) :
    entry = (key, node) ∨ entry ∈ nodes := by
  induction nodes with
  | nil => cases h
  | cons other nodes ih =>
    obtain ⟨k, n⟩ := other
    rw [replace] at h
    split at h
    next hkey =>
      subst hkey
      exact (List.mem_cons.mp h).imp_right (List.mem_cons_of_mem _)
    next =>
      rcases List.mem_cons.mp h with rfl | hrest
      · exact Or.inr List.mem_cons_self
      · exact (ih hrest).imp_right (List.mem_cons_of_mem _)

theorem Keyed.replace (h : Keyed nodes) (hnode : node.Keyed) : Keyed (nodes.replace key node) := by
  refine ⟨by rw [map_fst_replace]; exact h.nodup, fun entry hentry => ?_⟩
  rcases eq_or_mem_of_mem_replace hentry with rfl | hmem
  · exact hnode
  · exact h.node entry hmem

theorem Keyed.add (h : Keyed nodes) (hnew : nodes.lookup key = none) (hnode : node.Keyed) :
    Keyed (nodes.add key node) := by
  have hkeys : ((nodes.add key node).map Prod.fst) = nodes.map Prod.fst ++ [key] := by
    rw [Nodes.add, List.map_append, List.map_singleton]
  have hfresh : ∀ k ∈ nodes.map Prod.fst, k ≠ key := by
    rintro k hk rfl
    obtain ⟨entry, hentry, hname⟩ := List.mem_map.mp hk
    have hother := List.lookup_eq_none_iff.mp hnew entry hentry
    simp [hname] at hother
  refine ⟨?_, fun entry hentry => ?_⟩
  · rw [hkeys]
    refine List.nodup_append.mpr ⟨h.nodup, List.pairwise_singleton _ _, fun k hk other hother => ?_⟩
    rw [List.mem_singleton.mp hother]
    exact hfresh k hk
  · rcases List.mem_append.mp hentry with hold | hadded
    · exact h.node entry hold
    · rw [List.mem_singleton.mp hadded]
      exact hnode

/-! ## Changes -/

/-- What the change makes of nodes with different keys has different keys again. -/
def KeepsKeys (change : Nodes → Except Fault Nodes) : Prop :=
  ∀ nodes changed, Keyed nodes → change nodes = .ok changed → Keyed changed

/-- By induction on the path: the tables on the way stay under the keys that they have. -/
theorem keepsKeys_update {byPoints : Bool} {change : Origin → Nodes → Except Fault Nodes}
    (hchange : ∀ origin, KeepsKeys (change origin)) (path : List String) (origin : Origin) :
    KeepsKeys (update byPoints change path origin) := by
  induction path generalizing origin with
  | nil => exact hchange origin
  | cons key path ih =>
    intro nodes changed hnodes h
    rw [update] at h
    split at h
    next hnew =>
      obtain ⟨made, hmade, h⟩ := bind_eq_ok h
      cases h
      exact hnodes.add hnew (keyed_table_iff.mpr (ih _ _ _ keyed_nil hmade))
    next inner hfound =>
      have hinner := keyed_table_iff.mp (hnodes.of_lookup hfound)
      split at h
      · cases h
      obtain ⟨made, hmade, h⟩ := bind_eq_ok h
      cases h
      exact hnodes.replace (keyed_table_iff.mpr (ih _ _ _ hinner hmade))
    next last earlier hfound =>
      have helements := keyed_tables_iff.mp (hnodes.of_lookup hfound)
      obtain ⟨made, hmade, h⟩ := bind_eq_ok h
      cases h
      refine hnodes.replace (keyed_tables_iff.mpr fun element helement => ?_)
      rcases List.mem_cons.mp helement with rfl | hearlier
      · exact ih _ _ _ (helements last List.mem_cons_self) hmade
      · exact helements element (List.mem_cons_of_mem _ hearlier)
    next => cases h

theorem keepsKeys_assign (path : List String) (key : String) {value : Value}
    (hvalue : value.Keyed) : KeepsKeys (assign path key value) := by
  refine keepsKeys_update (fun origin inner changed hinner h => ?_) path .heading
  split at h
  · cases h
  split at h
  · cases h
  next hnew =>
    cases h
    exact hinner.add (Option.not_isSome_iff_eq_none.mp hnew) (.value hvalue)

theorem keepsKeys_openTable (path : List String) (key : String) :
    KeepsKeys (openTable path key) := by
  refine keepsKeys_update (fun origin inner changed hinner h => ?_) path .heading
  split at h
  next hnew =>
    cases h
    exact hinner.add hnew (keyed_table_iff.mpr keyed_nil)
  next entries hfound =>
    cases h
    exact hinner.replace (keyed_table_iff.mpr (keyed_table_iff.mp (hinner.of_lookup hfound)))
  next => cases h

theorem keepsKeys_openElement (path : List String) (key : String) :
    KeepsKeys (openElement path key) := by
  refine keepsKeys_update (fun origin inner changed hinner h => ?_) path .heading
  split at h
  next hnew =>
    cases h
    refine hinner.add hnew (keyed_tables_iff.mpr fun element helement => ?_)
    rw [List.mem_singleton.mp helement]
    exact keyed_nil
  next elements hfound =>
    cases h
    refine hinner.replace (keyed_tables_iff.mpr fun element helement => ?_)
    rcases List.mem_cons.mp helement with rfl | hmem
    · exact keyed_nil
    · exact keyed_tables_iff.mp (hinner.of_lookup hfound) element hmem
  next => cases h

theorem keepsKeys_assignUnder (heading path : List String) (key : String) {value : Value}
    (hvalue : value.Keyed) : KeepsKeys (assignUnder heading path key value) :=
  keepsKeys_update (fun _ => keepsKeys_assign path key hvalue) heading .heading

end Nodes

/-! ## Finished tables -/

theorem finishEntries_eq_map (nodes : Nodes) :
    finishEntries nodes = nodes.map fun entry => (entry.1, entry.2.finish) := by
  induction nodes with
  | nil => rfl
  | cons entry nodes ih => rw [finishEntries, ih, List.map_cons]

theorem finishElements_eq_map (elements : List Nodes) :
    finishElements elements = elements.map fun nodes => .table (finishEntries nodes) := by
  induction elements with
  | nil => rfl
  | cons nodes elements ih => rw [finishElements, ih, List.map_cons]

theorem keyed_table_finishEntries {nodes : Nodes} (hkeys : (nodes.map Prod.fst).Nodup)
    (h : ∀ entry ∈ nodes, entry.2.finish.Keyed) : (Value.table (finishEntries nodes)).Keyed := by
  rw [finishEntries_eq_map]
  refine .table ?_ (List.forall_mem_map.mpr h)
  rw [List.map_map]
  exact hkeys

theorem Node.Keyed.finish {node : Node} (h : node.Keyed) : node.finish.Keyed := by
  induction h with
  | value h => exact h
  | table hkeys _ ih => exact keyed_table_finishEntries hkeys ih
  | tables hkeys _ ih =>
    rw [Node.finish, finishElements_eq_map]
    refine .array fun item hitem => ?_
    obtain ⟨nodes, hnodes, rfl⟩ := List.mem_map.mp (List.mem_reverse.mp hitem)
    exact keyed_table_finishEntries (hkeys nodes hnodes) (ih nodes hnodes)

theorem Nodes.Keyed.finishEntries {nodes : Nodes} (h : nodes.Keyed) :
    (Value.table (finishEntries nodes)).Keyed :=
  keyed_table_finishEntries h.nodup fun entry hentry => (h.node entry hentry).finish

/-! ## Values without quotation marks -/

theorem isPlain_wholeValue (written : List Char) (isNegative : Bool) (magnitude : Nat) :
    (wholeValue written isNegative magnitude).isPlain = true := by
  simp only [wholeValue]
  generalize (if isNegative then -(magnitude : Int) else (magnitude : Int)) = n
  cases isKeepable n <;> rfl

theorem isPlain_of_basedInteger? {base : Nat} {isDigit : Char → Bool} {text : List Char}
    {value : Value} (h : basedInteger? base isDigit text = some value) : value.isPlain = true := by
  simp only [basedInteger?, Option.ite_none_left_eq_some] at h
  obtain ⟨-, h⟩ := h
  split at h
  · obtain rfl := Option.some.inj h
    rfl
  · obtain rfl := Option.some.inj h
    exact isPlain_wholeValue _ _ _

theorem isPlain_of_decimalInteger? {text : List Char} {value : Value}
    (h : decimalInteger? text = some value) : value.isPlain = true := by
  simp only [decimalInteger?, Option.ite_none_left_eq_some] at h
  obtain ⟨-, -, -, h⟩ := h
  split at h
  · obtain rfl := Option.some.inj h
    exact isPlain_wholeValue _ _ _
  · obtain rfl := Option.some.inj h
    rfl

theorem isPlain_of_pointNumber? {text : List Char} {value : Value}
    (h : pointNumber? text = some value) : value.isPlain = true := by
  simp only [pointNumber?, Option.bind_eq_bind] at h
  -- It does not matter what the exponent and the fraction are.
  split at h
  all_goals
    obtain ⟨exponent, -, h⟩ := Option.bind_eq_some_iff.mp h
    split at h
    all_goals
      simp only [Option.bind_some, Option.bind_none, Option.ite_none_left_eq_some,
        Option.ite_none_right_eq_some] at h
      grind [Value.isPlain]

theorem isPlain_of_number? {text : List Char} {value : Value} (h : number? text = some value) :
    value.isPlain = true := by
  unfold number? at h
  split at h
  · exact isPlain_of_basedInteger? h
  · exact isPlain_of_basedInteger? h
  · exact isPlain_of_basedInteger? h
  dsimp only at h
  split at h
  · cases h
    rfl
  split at h
  · exact isPlain_of_pointNumber? h
  · exact isPlain_of_decimalInteger? h

theorem isPlain_of_bareValue? {text : List Char} {value : Value}
    (h : bareValue? text = some value) : value.isPlain = true := by
  rw [bareValue?] at h
  split at h
  · cases h
    rfl
  split at h
  · cases h
    rfl
  rcases Option.or_eq_some_iff.mp h with hmoment | ⟨-, hnumber⟩
  · obtain ⟨moment, -, rfl⟩ := Option.map_eq_some_iff.mp hmoment
    rfl
  · exact isPlain_of_number? hnumber

/-! ## Reading -/

theorem orRefuse_eq_ok {α : Type} {rest : List Char} {found? : Option α} {found : α}
    (h : orRefuse rest found? = .ok found) : found? = some found := by
  cases found? with
  | none => cases h
  | some other =>
    cases h
    rfl

/-- With this much fuel, no reader returns a value in which a key is there twice. -/
structure ReadsKeyed (fuel : Nat) : Prop where
  value : ∀ levels text value rest, readValue fuel levels text = .ok (value, rest) → value.Keyed
  items : ∀ levels text items rest, readItems fuel levels text = .ok (items, rest) →
    ∀ item ∈ items, item.Keyed
  pairs : ∀ levels nodes text read rest, Nodes.Keyed nodes →
    readPairs fuel levels nodes text = .ok (read, rest) → Nodes.Keyed read

namespace ReadsKeyed

variable {fuel levels : Nat} {text rest : List Char}

theorem readValue_succ {value : Value} (h : ReadsKeyed fuel)
    (hread : readValue (fuel + 1) levels text = .ok (value, rest)) : value.Keyed := by
  rw [readValue.eq_def] at hread
  dsimp only at hread
  split at hread
  · cases hread
  next inside =>
    split at hread
    · cases hread
    obtain ⟨⟨items, behind⟩, hitems, hread⟩ := bind_eq_ok hread
    cases hread
    exact .array (h.items _ _ _ _ hitems)
  next inside =>
    split at hread
    · cases hread
    obtain ⟨⟨nodes, behind⟩, hpairs, hread⟩ := bind_eq_ok hread
    cases hread
    exact (h.pairs _ _ _ _ _ Nodes.keyed_nil hpairs).finishEntries
  · split at hread
    · obtain ⟨⟨found, behind⟩, -, hread⟩ := bind_eq_ok hread
      cases hread
      exact .plain rfl
    · obtain ⟨found, hfound, hread⟩ := bind_eq_ok hread
      cases hread
      exact .plain (isPlain_of_bareValue? (orRefuse_eq_ok hfound))

theorem readItems_succ {items : List Value} (h : ReadsKeyed fuel)
    (hread : readItems (fuel + 1) levels text = .ok (items, rest)) :
    ∀ item ∈ items, item.Keyed := by
  rw [readItems.eq_def] at hread
  dsimp only at hread
  split at hread
  · cases hread
    exact nofun
  · obtain ⟨⟨value, behind⟩, hvalue, hread⟩ := bind_eq_ok hread
    have hfirst := h.value _ _ _ _ hvalue
    split at hread
    · cases hread
      exact List.forall_mem_singleton.mpr hfirst
    · obtain ⟨⟨values, last⟩, hvalues, hread⟩ := bind_eq_ok hread
      cases hread
      exact List.forall_mem_cons.mpr ⟨hfirst, h.items _ _ _ _ hvalues⟩
    · cases hread

theorem readPairs_succ {nodes read : Nodes} (h : ReadsKeyed fuel) (hnodes : Nodes.Keyed nodes)
    (hread : readPairs (fuel + 1) levels nodes text = .ok (read, rest)) : Nodes.Keyed read := by
  rw [readPairs.eq_def] at hread
  dsimp only at hread
  split at hread
  · cases hread
    exact hnodes
  · obtain ⟨⟨⟨path, key⟩, behind⟩, -, hread⟩ := bind_eq_ok hread
    split at hread
    · obtain ⟨⟨value, last⟩, hvalue, hread⟩ := bind_eq_ok hread
      obtain ⟨assigned, hassigned, hread⟩ := bind_eq_ok hread
      have hkept : Nodes.Keyed assigned :=
        Nodes.keepsKeys_assign path key (h.value _ _ _ _ hvalue) _ _ hnodes hassigned
      split at hread
      · cases hread
        exact hkept
      · exact h.pairs _ _ _ _ _ hkept hread
      · cases hread
    · cases hread

end ReadsKeyed

/-- The three readers call each other, with less fuel each time. -/
theorem readsKeyed (fuel : Nat) : ReadsKeyed fuel := by
  induction fuel with
  | zero => exact ⟨nofun, nofun, nofun⟩
  | succ fuel ih =>
    exact ⟨fun _ _ _ _ => ih.readValue_succ, fun _ _ _ _ => ih.readItems_succ,
      fun _ _ _ _ _ => ih.readPairs_succ⟩

theorem keyed_of_readStatement {draft after : Draft} {text rest : List Char}
    (hdraft : draft.nodes.Keyed) (h : readStatement draft text = .ok (after, rest)) :
    after.nodes.Keyed := by
  unfold readStatement at h
  split at h
  · obtain ⟨⟨⟨path, key⟩, behind⟩, -, h⟩ := bind_eq_ok h
    obtain ⟨opened, hopened, h⟩ := bind_eq_ok h
    cases h
    exact Nodes.keepsKeys_openElement path key _ _ hdraft hopened
  · obtain ⟨⟨⟨path, key⟩, behind⟩, -, h⟩ := bind_eq_ok h
    obtain ⟨opened, hopened, h⟩ := bind_eq_ok h
    cases h
    exact Nodes.keepsKeys_openTable path key _ _ hdraft hopened
  · obtain ⟨⟨⟨path, key⟩, behind⟩, -, h⟩ := bind_eq_ok h
    dsimp only at h
    split at h
    · obtain ⟨⟨value, last⟩, hread, h⟩ := bind_eq_ok h
      obtain ⟨next, -, h⟩ := bind_eq_ok h
      obtain ⟨assigned, hassigned, h⟩ := bind_eq_ok h
      cases h
      exact Nodes.keepsKeys_assignUnder _ path key ((readsKeyed _).value _ _ _ _ hread) _ _
        hdraft hassigned
    · cases h

/-- By induction on the statements, each of which keeps the keys apart. -/
theorem keyed_of_readLines {fuel : Nat} {draft after : Draft} {text : List Char}
    (hdraft : draft.nodes.Keyed) (h : readLines fuel draft text = .ok after) :
    after.nodes.Keyed := by
  induction fuel generalizing draft text with
  | zero => cases h
  | succ fuel ih =>
    rw [readLines] at h
    split at h
    · cases h
      exact hdraft
    · obtain ⟨⟨next, rest⟩, hstatement, h⟩ := bind_eq_ok h
      exact ih (keyed_of_readStatement hdraft hstatement) h

/-- In a document that can be read, each table has each of its keys once. -/
theorem keyed_of_read {text : String} {entries : Entries} (h : read text = .ok entries) :
    (Value.table entries).Keyed := by
  obtain ⟨draft, hdraft, h⟩ := bind_eq_ok h
  cases h
  exact (keyed_of_readLines Nodes.keyed_nil hdraft).finishEntries

end SchemaBinding.Toml
