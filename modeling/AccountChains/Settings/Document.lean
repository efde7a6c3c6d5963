import AccountChains.Settings.Grammar

/-!
Contract: the table that the statements of a settings text describe together.

A header makes a table once. A table that is only named on the way to another may
get its own header later, and a table that keys with dots have made may get more
keys in this way; no other table is extended. Keys belong to the table of the last
header.

Owns: `Document.read?`.
-/

namespace AccountChains

/-- What has been read of a settings text. -/
structure Document where
  /-- All tables but the one that keys are added to. -/
  root : ConfigEntries
  /-- Where the table that keys are added to belongs; the root has no path. -/
  path : List String
  /-- Whether that table is an item of a list of tables. -/
  isItem : Bool
  current : ConfigEntries

namespace Document

def empty : Document := ⟨[], [], false, []⟩

/-- Change the table at a path. Tables on the way are made with the given origin; a list of tables
stands for its last item. Keys with dots may not lead through a table that has a header. -/
def changeAt? (made : TableOrigin)
    (change : TableOrigin → ConfigEntries → Option ConfigEntries) :
    (path : List String) → TableOrigin → ConfigEntries → Option ConfigEntries
  | [], origin, entries => change origin entries
  | name :: path, _, entries =>
    match entries.find? name with
    | none => do
      let inner ← changeAt? made change path made []
      return entries.put name (.table made inner)
    | some (.table origin inner) =>
      if origin == .inline || (made == .dotted && origin == .header) then none
      else do
        let inner ← changeAt? made change path origin inner
        return entries.put name (.table origin inner)
    | some (.tables items) =>
      match items.getLast? with
      | some (.table origin inner) => do
        let inner ← changeAt? made change path origin inner
        return entries.put name (.tables (items.dropLast ++ [.table origin inner]))
      | _ => none
    | some _ => none

/-- Put the table that keys were added to in its place. -/
def close? (document : Document) : Option ConfigEntries :=
  let table := ConfigValue.table .header document.current
  match document.path.getLast? with
  | none => some document.current
  | some key =>
    changeAt? .implied (fun _ entries =>
      match entries.find? key with
      | none => some (entries.put key (if document.isItem then .tables [table] else table))
      | some (.tables items) =>
        if document.isItem then some (entries.put key (.tables (items ++ [table]))) else none
      | some _ => none) document.path.dropLast .header document.root

/-- Begin the table of a header. A table that is there already is taken up if it was only named
on the way to another. -/
def openTable? (path : List String) (root : ConfigEntries) : Option Document := do
  let key ← path.getLast?
  let parent := path.dropLast
  let taken := fun (entries : ConfigEntries) =>
    match entries.find? key with
    | none => some ([] : ConfigEntries)
    | some (.table .implied inner) => some inner
    | some _ => none
  let current ← taken (← entriesAt? parent root)
  let root ← changeAt? .implied (fun _ entries => some (entries.drop key)) parent .header root
  return ⟨root, path, false, current⟩
where
  /-- The entries of the table at a path, none of its own if there is no table yet. -/
  entriesAt? : List String → ConfigEntries → Option ConfigEntries
    | [], entries => some entries
    | name :: path, entries =>
      match entries.find? name with
      | none => some []
      | some (.table .inline _) => none
      | some (.table _ inner) => entriesAt? path inner
      | some (.tables items) =>
        match items.getLast? with
        | some (.table _ inner) => entriesAt? path inner
        | _ => none
      | some _ => none

/-- Begin an item of a list of tables. -/
def openItem? (path : List String) (root : ConfigEntries) : Option Document := do
  let key ← path.getLast?
  let root ← changeAt? .implied (fun _ entries =>
    match entries.find? key with
    | none | some (.tables _) => some entries
    | some _ => none) path.dropLast .header root
  return ⟨root, path, true, []⟩

/-- Give a key of the current table a value. -/
def assign? (path : List String) (key : String) (value : ConfigValue) (document : Document) :
    Option Document := do
  let current ← changeAt? .dotted (fun origin entries =>
    if !path.isEmpty && origin != .dotted then none else entries.add? key value)
    path .header document.current
  return { document with current }

/-- Take one statement in. -/
def take? (document : Document) : Statement → Option Document
  | .header path => do openTable? path (← document.close?)
  | .item path => do openItem? path (← document.close?)
  | .assign path key value => document.assign? path key value

def read? (text : String) : Option ConfigValue := do
  let document ← (← Grammar.read? text).foldlM take? empty
  return .table .header (← document.close?)

end Document

end AccountChains
