import AccountChains.Amount

/-!
Contract: the text of values in a settings text that is written.

A text without quotes, backslashes and line ends is written between double quotes.
Otherwise the first form is taken in which no character has to be escaped for the
sake of a quote or a backslash: single quotes, three double quotes, three single
quotes; if there is none, double quotes with escapes. Three quotes are followed by
a line end exactly if the text has one.

The form depends on the longest run of either quote, which is counted in one byte: a
text with a longer run cannot be written. A whole number has to fit in 64 bits with
sign.

Owns: `WrittenValue`, `Render.check` and `Render.value`. Does not own: which values
are written under which keys.
-/

namespace AccountChains

inductive WrittenValue where
  | text (value : String)
  | number (value : UInt64)
  | truth (value : Bool)
deriving DecidableEq, Repr

/-- Why a settings text cannot be written. -/
inductive WriteError where
  /-- A whole number does not fit in 64 bits with sign. -/
  | unfit (number : UInt64)
  | overflow (cause : Overflow)
deriving DecidableEq, Repr

namespace Render

/-- The length of the longest run of a character. -/
def longestRun (character : Char) (text : List Char) : Nat :=
  (text.foldl (fun (longest, current) next =>
    let current := if next == character then current + 1 else 0
    (max longest current, current)) (0, 0)).1

/-- Whether a character can only be written as an escape. -/
def needsCode (character : Char) : Bool :=
  (character < ' ' && character != '\t' && character != '\n') || character == '\x7f'

/-- An escape that names the code of a character. -/
def coded (character : Char) : List Char :=
  let digits := (Nat.toDigits 16 character.toNat).map Char.toUpper
  ['\\', 'u'] ++ List.replicate (4 - digits.length) '0' ++ digits

/-- The characters of a text between double quotes; up to `quotes` double quotes in a row stand
for themselves, and so does a line end if there are several lines. -/
def escapedFrom (quotes : Nat) (isMultiline : Bool) : (run : Nat) → List Char → List Char
  | _, [] => []
  | run, '"' :: rest =>
    if run < quotes then '"' :: escapedFrom quotes isMultiline (run + 1) rest
    else ['\\', '"'] ++ escapedFrom quotes isMultiline 0 rest
  | _, character :: rest =>
    let shown := match character with
      | '\x08' => ['\\', 'b']
      | '\t' => ['\\', 't']
      | '\n' => if isMultiline then ['\n'] else ['\\', 'n']
      | '\x0c' => ['\\', 'f']
      | '\r' => ['\\', 'r']
      | '\\' => ['\\', '\\']
      | _ => if needsCode character then coded character else [character]
    shown ++ escapedFrom quotes isMultiline 0 rest

/-- A text in the form that suits it. -/
def text (value : String) : Except Overflow String :=
  let characters := value.toList
  let hasCode := characters.any needsCode
  let hasLines := characters.contains '\n'
  let hasBackslash := characters.contains '\\'
  let singles := longestRun '\'' characters
  let doubles := longestRun '"' characters
  let lineEnd := if hasLines then "\n" else ""
  let oneLine := "\"" ++ String.ofList (escapedFrom 0 false 0 characters) ++ "\""
  let manyLines :=
    "\"\"\"" ++ lineEnd ++ String.ofList (escapedFrom 2 true 0 characters) ++ "\"\"\""
  if UInt8.size ≤ max singles doubles then .error .addition
  else if hasCode then .ok (if hasLines then manyLines else oneLine)
  else if !hasBackslash && doubles == 0 && !hasLines then .ok oneLine
  else if singles == 0 && !hasLines then .ok ("'" ++ value ++ "'")
  else if !hasBackslash && doubles ≤ 2 then .ok manyLines
  else if singles ≤ 2 then .ok ("'''" ++ lineEnd ++ value ++ "'''")
  else if hasLines then .ok manyLines
  else .ok oneLine

/-- Whether a value can be held in a settings text: a number that does not fit cannot. -/
def check : WrittenValue → Except WriteError Unit
  | .number value => if value ≤ Int64.maxValue.toUInt64 then .ok () else .error (.unfit value)
  | .text _ | .truth _ => .ok ()

def value : WrittenValue → Except Overflow String
  | .text value => text value
  | .number value => .ok (toString value)
  | .truth value => .ok (if value then "true" else "false")

end Render

end AccountChains
