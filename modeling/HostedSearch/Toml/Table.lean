import HostedSearch.Number.Binary64

/-!
# TOML tables

A TOML text is a sequence of statements: a value is assigned to a key, or a header opens a
table. This module says what tables the statements build, and which of them contradict each
other. A key is assigned once; a table is opened once; a table that was only passed through may
still be opened; a table that dotted keys have made grows by dotted keys alone.
-/

namespace HostedSearch

namespace Toml

/-- A value that is assigned as a whole. -/
inductive Value where
  | string (s : String)
  | integer (n : Int64)
  | float (x : Binary64)
  | boolean (b : Bool)
  /-- A date, a time of day, or both, as written. -/
  | moment (text : String)
  | array (items : List Value)
  | inlineTable (entries : List (String × Value))
deriving Inhabited

/-- What stands at a key. -/
inductive Item where
  | value (v : Value)
  /-- A table; `passed` if no header has opened it, `dotted` if dotted keys have made it. -/
  | table (passed dotted : Bool) (entries : List (String × Item))
  /-- A list of tables, of which the last still grows. -/
  | tables (earlier : List (List (String × Item))) (last : List (String × Item))
deriving Inhabited

/-- The entries of a table, in order. -/
abbrev Entries := List (String × Item)

/-- A statement of a TOML text; keys are given as their parts. -/
inductive Statement where
  /-- A value for the last part of a key, in the table of the parts before it. -/
  | assign (path : List String) (name : String) (value : Value)
  /-- The opening of a table. -/
  | header (path : List String) (name : String)
  /-- The opening of a further table of a list of tables. -/
  | listHeader (path : List String) (name : String)

/-- Put what `change` makes of the item at a key in its place. -/
def modify (name : String) (change : Option Item → Option Item) (entries : Entries) :
    Option Entries :=
  match entries with
  | [] => (change none).map fun item => [(name, item)]
  | (n, item) :: rest =>
    if n = name then (change (some item)).map fun item => (n, item) :: rest
    else (modify name change rest).map ((n, item) :: ·)

/-- Change the table at a path; tables that are missing on the way are made as `dotted` says. The
change is told whether the table it is given has been made by dotted keys. -/
def modifyAt (dotted : Bool) : List String → (Bool → Entries → Option Entries) → Bool → Entries →
    Option Entries
  | [], change, isDotted, entries => change isDotted entries
  | part :: path, change, _, entries =>
    entries |> modify part fun
      | none => (modifyAt dotted path change dotted []).map (.table true dotted)
      | some (.value _) => none
      | some (.table passed isDotted inner) =>
        if dotted && !passed then none
        else (modifyAt dotted path change isDotted inner).map (.table passed isDotted)
      | some (.tables earlier last) =>
        (modifyAt dotted path change false last).map (.tables earlier)

/-- Add an entry, unless there is one of that name. -/
def addEntry (name : String) (value : Value) : Entries → Option Entries :=
  modify name fun
    | none => some (.value value)
    | some _ => none

/-- Assign a value under a key inside a table. -/
def assign (path : List String) (name : String) (value : Value) (isDotted : Bool)
    (entries : Entries) : Option Entries :=
  modifyAt true path (fun dotted inner =>
    if dotted == path.isEmpty then none else addEntry name value inner) isDotted entries

/-- Open a table that was at most passed through before. -/
def openTable (name : String) : Entries → Option Entries :=
  modify name fun
    | none => some (.table false false [])
    | some (.table true false inner) => some (.table false false inner)
    | some _ => none

/-- Open a further table of a list of tables. -/
def openNext (name : String) : Entries → Option Entries :=
  modify name fun
    | none => some (.tables [] [])
    | some (.tables earlier last) => some (.tables (earlier ++ [last]) [])
    | some _ => none

/-- The tables that statements have built so far, and the path of the table that is open. -/
structure Progress where
  root : Entries := []
  opened : List String := []

/-- Take one more statement, unless it contradicts those before it. -/
def Progress.step (progress : Progress) : Statement → Option Progress
  | .assign path name value =>
    (modifyAt false progress.opened (fun _ inner => assign path name value false inner) false
      progress.root).map fun root => { progress with root }
  | .header path name =>
    (modifyAt false path (fun _ inner => openTable name inner) false progress.root).map
      fun root => ⟨root, path ++ [name]⟩
  | .listHeader path name =>
    (modifyAt false path (fun _ inner => openNext name inner) false progress.root).map
      fun root => ⟨root, path ++ [name]⟩

/-- The root table that statements build, unless they contradict each other. -/
def build? (statements : List Statement) : Option Entries :=
  (statements.foldlM Progress.step {}).map Progress.root

end Toml

end HostedSearch
