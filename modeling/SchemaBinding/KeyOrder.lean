/-!
# Entries in the order of their keys

Where the order of entries must not matter they are kept sorted by key, each
key once.  Of several entries of one key the last one stands.
-/

namespace SchemaBinding.KeyOrder

variable {α : Type}

/-- Files a value under its key in entries sorted by key. -/
def insert (key : String) (value : α) : List (String × α) → List (String × α)
  | [] => [(key, value)]
  | (k, v) :: rest =>
    if key < k then (key, value) :: (k, v) :: rest
    else if key = k then (key, value) :: rest
    else (k, v) :: insert key value rest

/-- The entries sorted by key, the last of each key. -/
def sort (entries : List (String × α)) : List (String × α) :=
  entries.foldl (fun sorted entry => insert entry.1 entry.2 sorted) []

end SchemaBinding.KeyOrder
