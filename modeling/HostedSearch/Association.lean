/-!
# Ordered associations

Lists of named values in the order in which the names first came. Setting a name that is present
changes its value in place; a new name goes to the end.
-/

namespace HostedSearch

namespace Association

variable {α : Type}

/-- The association with `name` set to `value`. -/
def set (name : String) (value : α) : List (String × α) → List (String × α)
  | [] => [(name, value)]
  | (n, v) :: rest => if n = name then (n, value) :: rest else (n, v) :: set name value rest

/-- The association in which the names are set to the values one after the other. -/
def ofList (entries : List (String × α)) : List (String × α) :=
  entries.foldl (fun association (name, value) => set name value association) []

end Association

end HostedSearch
