/-!
Contract: the values that a settings text in TOML can hold.

A table remembers how it came to be, because that decides whether it may be
extended later in the text. Numbers with a fraction and points in time are read
but their values are not kept: no setting has such a value.

Owns: `ConfigValue`, which whole numbers it can hold, and lookup in tables. Does not own: the text.
-/

namespace AccountChains

/-- How a table came to be. -/
inductive TableOrigin where
  /-- It has a header of its own. -/
  | header
  /-- A header names a table inside it. -/
  | implied
  /-- A key with dots leads through it. -/
  | dotted
  /-- It is written between braces. -/
  | inline
deriving DecidableEq, Repr

/-- A value in a settings text. -/
inductive ConfigValue where
  | text (value : String)
  | integer (value : Int)
  | fraction
  | pointInTime
  | truth (value : Bool)
  | list (items : List ConfigValue)
  /-- Tables that share a header with double brackets. -/
  | tables (items : List ConfigValue)
  | table (origin : TableOrigin) (entries : List (String × ConfigValue))

/-- Whether a whole number fits in 64 bits with sign; no other one can be held. -/
def ConfigValue.fits (number : Int) : Bool :=
  Int64.minValue.toInt ≤ number && number ≤ Int64.maxValue.toInt

abbrev ConfigEntries := List (String × ConfigValue)

namespace ConfigEntries

def find? (key : String) (entries : ConfigEntries) : Option ConfigValue :=
  entries.lookup key

/-- Give a key a value: in its place if it has one already, else at the end. -/
def put (key : String) (value : ConfigValue) : ConfigEntries → ConfigEntries
  | [] => [(key, value)]
  | (other, old) :: rest =>
    if other == key then (key, value) :: rest else (other, old) :: put key value rest

def drop (key : String) (entries : ConfigEntries) : ConfigEntries :=
  entries.filter fun entry => entry.1 != key

/-- Add a key that must not be there yet. -/
def add? (key : String) (value : ConfigValue) (entries : ConfigEntries) : Option ConfigEntries :=
  if (entries.find? key).isSome then none else some (entries ++ [(key, value)])

end ConfigEntries

end AccountChains
