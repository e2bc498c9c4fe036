import Std.Data.TreeMap

/-!
The binding table: how many scopes outward from its place each use of a local name is bound. A use
that has no entry is one of a global name.
-/

namespace Lox

/-- The identity of a use of a name, and how many scopes outward the name is bound. -/
abbrev Distance := Nat × Nat

abbrev BindingTable := Std.TreeMap Nat Nat

/-- Adds distances; one for an identity that has an entry replaces it. -/
def BindingTable.extend (table : BindingTable) (distances : List Distance) : BindingTable :=
  distances.foldl (fun table (id, distance) => table.insert id distance) table

end Lox
