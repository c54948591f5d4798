import SchemaBinding.Toml.Value

/-!
# Tables under construction

The statements of a configuration document build its tables step by step, and
each table may be written out only once.  So while a document is read its
tables remember how they came about: by a heading of their own, on the way to
the table of a longer heading, or through keys with points.
-/

namespace SchemaBinding.Toml

/-- How a table came about. -/
inductive Origin where
  /-- By a heading of its own, or as the document itself. -/
  | heading
  /-- On the way to the table of a longer heading. -/
  | passage
  /-- On the way through a key with points. -/
  | points
deriving DecidableEq, Repr

/-- A value, a table or a list of tables while a document is read. -/
inductive Node where
  | value (value : Value)
  | table (origin : Origin) (entries : List (String × Node))
  /-- The tables of a repeated heading, the last one first. -/
  | tables (elements : List (List (String × Node)))
deriving Repr, Inhabited

abbrev Nodes := List (String × Node)

namespace Nodes

def replace (key : String) (node : Node) : Nodes → Nodes
  | [] => []
  | (k, n) :: rest => if k = key then (k, node) :: rest else (k, n) :: replace key node rest

def add (nodes : Nodes) (key : String) (node : Node) : Nodes :=
  nodes ++ [(key, node)]

/-- Changes the table at the end of a path.  Tables that are missing on the way
are made; a key with points enters no table that has a heading. -/
def update (byPoints : Bool) (change : Origin → Nodes → Except Fault Nodes) :
    List String → Origin → Nodes → Except Fault Nodes
  | [], origin, nodes => change origin nodes
  | key :: path, _, nodes =>
    match nodes.lookup key with
    | none => do
      let origin := if byPoints then .points else .passage
      return nodes.add key (.table origin (← update byPoints change path origin []))
    | some (.table origin inner) =>
      if byPoints ∧ origin = .heading then .error (.redefined key)
      else do return nodes.replace key (.table origin (← update byPoints change path origin inner))
    | some (.tables (last :: earlier)) => do
      return nodes.replace key
        (.tables ((← update byPoints change path .heading last) :: earlier))
    | some _ => .error (.redefined key)

/-- Assigns a value to a key, which may have points in front of it. -/
def assign (path : List String) (key : String) (value : Value) (nodes : Nodes) :
    Except Fault Nodes :=
  update (!path.isEmpty)
    (fun origin inner =>
      if (origin == .points) ≠ !path.isEmpty then .error (.redefined key)
      else if (inner.lookup key).isSome then .error (.redefined key)
      else .ok (inner.add key (.value value)))
    path .heading nodes

def openTable (path : List String) (key : String) (nodes : Nodes) : Except Fault Nodes :=
  update false
    (fun _ inner =>
      match inner.lookup key with
      | none => .ok (inner.add key (.table .heading []))
      | some (.table .passage entries) => .ok (inner.replace key (.table .heading entries))
      | some _ => .error (.redefined key))
    path .heading nodes

/-- Opens another table of a repeated heading. -/
def openElement (path : List String) (key : String) (nodes : Nodes) : Except Fault Nodes :=
  update false
    (fun _ inner =>
      match inner.lookup key with
      | none => .ok (inner.add key (.tables [[]]))
      | some (.tables elements) => .ok (inner.replace key (.tables ([] :: elements)))
      | some _ => .error (.redefined key))
    path .heading nodes

/-- Assigns a value to a key of the table under a heading. -/
def assignUnder (heading path : List String) (key : String) (value : Value) (nodes : Nodes) :
    Except Fault Nodes :=
  update false (fun _ inner => inner.assign path key value) heading .heading nodes

end Nodes

mutual

def Node.finish : Node → Value
  | .value value => value
  | .table _ entries => .table (finishEntries entries)
  | .tables elements => .array (finishElements elements).reverse

def finishEntries : List (String × Node) → Entries
  | [] => []
  | (key, node) :: rest => (key, node.finish) :: finishEntries rest

def finishElements : List (List (String × Node)) → List Value
  | [] => []
  | entries :: rest => .table (finishEntries entries) :: finishElements rest

end

end SchemaBinding.Toml
