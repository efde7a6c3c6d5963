import AccountChains.Settings.Quoted
import AccountChains.Settings.Scalar

/-!
Contract: the statements of a settings text.

A text is a sequence of lines. A line gives a value to a key, names the table to
which the keys after it belong, or is empty; a comment may end it. A key is a path
of names. Values may be nested up to a fixed depth.

Owns: `Statement` and `Grammar.read?`. Does not own: what the statements together
mean, in particular whether a table may be extended.
-/

namespace AccountChains

/-- A line of a settings text. -/
inductive Statement where
  | header (path : List String)
  /-- A header between double brackets. -/
  | item (path : List String)
  | assign (path : List String) (key : String) (value : ConfigValue)

namespace Grammar

/-- Values may be nested less deep than this, and a path is shorter than this. -/
def depthLimit : Nat := 80

def skipBlanks (input : List Char) : List Char :=
  input.dropWhile fun character => character == ' ' || character == '\t'

def skipComment (input : List Char) : List Char :=
  match input with
  | '#' :: rest => rest.dropWhile Quoted.isPlain
  | _ => input

/-- What follows the end of a line: blanks and a comment may come first. The last line needs no
end. -/
def afterLine? (input : List Char) : Option (List Char) :=
  match skipComment (skipBlanks input) with
  | [] => some []
  | rest => Quoted.afterLineEnd? rest

def skipLines : (fuel : Nat) → List Char → List Char
  | 0, input => input
  | fuel + 1, input =>
    let blank := skipBlanks input
    match Quoted.afterLineEnd? (skipComment blank) with
    | some rest => skipLines fuel rest
    | none => blank

/-- Whether a character may stand in a name without quotes. -/
def isNameCharacter (character : Char) : Bool :=
  character.isAlphanum || character == '_' || character == '-'

def name? (input : List Char) : Option (String × List Char) :=
  match input with
  | '"' :: rest => Quoted.line? .double (rest.length + 1) [] rest
  | '\'' :: rest => Quoted.line? .single (rest.length + 1) [] rest
  | _ =>
    let (name, rest) := input.span isNameCharacter
    if name.isEmpty then none else some (.ofList name, rest)

/-- A path: names with dots between them. -/
def names? : (fuel : Nat) → List Char → Option (List String × List Char)
  | 0, _ => none
  | fuel + 1, input => do
    let (name, rest) ← name? (skipBlanks input)
    match skipBlanks rest with
    | '.' :: rest => do
      let (names, rest) ← names? fuel rest
      return (name :: names, rest)
    | rest => return ([name], rest)

/-- A path that is not too long. -/
def path? (input : List Char) : Option (List String × List Char) := do
  let (names, rest) ← names? (input.length + 1) input
  if names.length < depthLimit then some (names, rest) else none

/-- Whether a character may belong to a value without parts. -/
def isWordCharacter (character : Char) : Bool :=
  character.isAlphanum || character == '_' || character == '-' || character == '+'
    || character == '.' || character == ':'

/-- A value without parts. A time of day may follow a date after a blank. -/
def scalar? (input : List Char) : Option (ConfigValue × List Char) := do
  let (word, rest) := input.span isWordCharacter
  let (word, rest) := match Scalar.isDate word, rest with
    | true, ' ' :: digit :: after =>
      if digit.isDigit then
        let (time, rest) := (digit :: after).span isWordCharacter
        (word ++ ' ' :: time, rest)
      else (word, rest)
    | _, _ => (word, rest)
  return (← Scalar.read? (.ofList word), rest)

/-- Put a value at a path inside a table between braces. Tables on the way are made; only those
that were made in this way may be extended. -/
def addInline? : (path : List String) → (key : String) → ConfigValue → ConfigEntries →
    Option ConfigEntries
  | [], key, value, entries => entries.add? key value
  | name :: path, key, value, entries => do
    let inner ← match entries.find? name with
      | none => some []
      | some (.table .dotted inner) => some inner
      | some _ => none
    return entries.put name (.table .dotted (← addInline? path key value inner))

mutual

/-- A value; `levels` says how much deeper values may be nested. -/
def value? : (fuel levels : Nat) → List Char → Option (ConfigValue × List Char)
  | 0, _, _ => none
  | fuel + 1, levels, input =>
    match input with
    | '"' :: rest => (Quoted.read? .double rest).map fun found => (.text found.1, found.2)
    | '\'' :: rest => (Quoted.read? .single rest).map fun found => (.text found.1, found.2)
    | '[' :: rest =>
      match levels with
      | 0 => none
      | levels + 1 => items? fuel levels [] rest
    | '{' :: rest =>
      match levels with
      | 0 => none
      | levels + 1 =>
        match skipBlanks rest with
        | '}' :: rest => some (.table .inline [], rest)
        | rest => fields? fuel levels [] rest
    | _ => scalar? input

/-- The items of a list, up to the closing bracket. -/
def items? : (fuel levels : Nat) → (reversed : List ConfigValue) → List Char →
    Option (ConfigValue × List Char)
  | 0, _, _, _ => none
  | fuel + 1, levels, reversed, input =>
    match skipLines input.length input with
    | ']' :: rest => some (.list reversed.reverse, rest)
    | start => do
      let (value, rest) ← value? fuel levels start
      match skipLines rest.length rest with
      | ',' :: rest => items? fuel levels (value :: reversed) rest
      | ']' :: rest => some (.list (value :: reversed).reverse, rest)
      | _ => none

/-- The fields of a table between braces, up to the closing one. -/
def fields? : (fuel levels : Nat) → ConfigEntries → List Char → Option (ConfigValue × List Char)
  | 0, _, _, _ => none
  | fuel + 1, levels, entries, input => do
    let (names, rest) ← path? input
    let '=' :: rest := rest | none
    let (value, rest) ← value? fuel levels (skipBlanks rest)
    let key ← names.getLast?
    let entries ← addInline? names.dropLast key value entries
    match skipBlanks rest with
    | ',' :: rest => fields? fuel levels entries rest
    | '}' :: rest => some (.table .inline entries, rest)
    | _ => none

end

/-- A line that is not empty, and what follows it. -/
def statement? (input : List Char) : Option (Statement × List Char) :=
  match input with
  | '[' :: '[' :: rest => do
    let (path, rest) ← path? rest
    let ']' :: ']' :: rest := rest | none
    return (.item path, ← afterLine? rest)
  | '[' :: rest => do
    let (path, rest) ← path? rest
    let ']' :: rest := rest | none
    return (.header path, ← afterLine? rest)
  | _ => do
    let (names, rest) ← path? input
    let '=' :: rest := rest | none
    let start := skipBlanks rest
    let (value, rest) ← value? (2 * start.length + 2) (depthLimit - 1) start
    return (.assign names.dropLast (← names.getLast?) value, ← afterLine? rest)

/-- The statements of a text. -/
def statements? : (fuel : Nat) → List Char → Option (List Statement)
  | 0, _ => none
  | fuel + 1, input =>
    match skipLines input.length input with
    | [] => some []
    | start =>
      if (skipComment start).isEmpty then some []
      else do
        let (statement, rest) ← statement? start
        return statement :: (← statements? fuel rest)

/-- The statements of a text; a byte order mark may come first. -/
def read? (text : String) : Option (List Statement) :=
  let input := match text.toList with
    | '\ufeff' :: rest => rest
    | rest => rest
  statements? (input.length + 1) input

end Grammar

end AccountChains
