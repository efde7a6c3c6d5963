import AccountChains.Hex

/-!
Contract: text between quotes in a settings text.

Between double quotes a backslash starts an escape; between single quotes every
character stands for itself. Three quotes delimit text of several lines: a line
end right after them is not part of the text, a carriage return before a line end
is dropped, and up to two quotes may stand before the closing ones. Control
characters other than the tab are refused.

Owns: `Quoted.read?`, for the text after the opening quote. Does not own: the
quoting of text that is written.
-/

namespace AccountChains.Quoted

inductive Quote where
  | single
  | double
deriving DecidableEq, Repr

def Quote.character : Quote → Char
  | .single => '\''
  | .double => '"'

/-- Whether a character may stand in a line. -/
def isPlain (character : Char) : Bool :=
  character == '\t' || (' ' ≤ character && character ≠ '\x7f')

def afterLineEnd? : List Char → Option (List Char)
  | '\n' :: rest => some rest
  | '\r' :: '\n' :: rest => some rest
  | _ => none

/-- The character whose code is written with exactly `count` hexadecimal digits. -/
def coded? (count : Nat) (input : List Char) : Option (Char × List Char) := do
  let digits ← (input.take count).mapM Hex.valueOf?
  if digits.length ≠ count then none
  let code := digits.foldl (fun code digit => code * 16 + digit) 0
  if code.isValidChar then some (.ofNat code, input.drop count) else none

/-- The character that an escape stands for, from the character after the backslash on. -/
def escaped? : List Char → Option (Char × List Char)
  | 'b' :: rest => some ('\x08', rest)
  | 't' :: rest => some ('\t', rest)
  | 'n' :: rest => some ('\n', rest)
  | 'f' :: rest => some ('\x0c', rest)
  | 'r' :: rest => some ('\r', rest)
  | '"' :: rest => some ('"', rest)
  | '\\' :: rest => some ('\\', rest)
  | 'u' :: rest => coded? 4 rest
  | 'U' :: rest => coded? 8 rest
  | _ => none

/-- Text on one line, up to the closing quote; `reversed` is what has been read so far. -/
def line? (quote : Quote) : (fuel : Nat) → (reversed : List Char) → List Char →
    Option (String × List Char)
  | 0, _, _ => none
  | _ + 1, _, [] => none
  | fuel + 1, reversed, character :: rest =>
    if character == quote.character then some (.ofList reversed.reverse, rest)
    else if character == '\\' && quote == .double then do
      let (escaped, rest) ← escaped? rest
      line? quote fuel (escaped :: reversed) rest
    else if isPlain character then line? quote fuel (character :: reversed) rest
    else none

/-- What follows a backslash at the end of a line: the next character that is neither a blank nor
a line end. -/
def afterFold? (input : List Char) : Option (List Char) :=
  (afterLineEnd? (input.dropWhile isBlank)).map (skip input.length)
where
  isBlank (character : Char) : Bool := character == ' ' || character == '\t'
  skip : Nat → List Char → List Char
    | 0, rest => rest
    | fuel + 1, rest =>
      match afterLineEnd? (rest.dropWhile isBlank) with
      | some rest => skip fuel rest
      | none => rest.dropWhile isBlank

/-- Text of several lines, up to the closing quotes. -/
def lines? (quote : Quote) : (fuel : Nat) → (reversed : List Char) → List Char →
    Option (String × List Char)
  | 0, _, _ => none
  | _ + 1, _, [] => none
  | fuel + 1, reversed, character :: rest =>
    if character == quote.character then
      let run := (character :: rest).takeWhile (· == quote.character)
      let after := rest.drop (run.length - 1)
      if run.length ≤ 2 then lines? quote fuel (run ++ reversed) after
      else if run.length ≤ 5 then some (.ofList (run.drop 3 ++ reversed).reverse, after)
      else none
    else if character == '\\' && quote == .double then
      match afterFold? rest with
      | some rest => lines? quote fuel reversed rest
      | none => do
        let (escaped, rest) ← escaped? rest
        lines? quote fuel (escaped :: reversed) rest
    else
      match afterLineEnd? (character :: rest) with
      | some rest => lines? quote fuel ('\n' :: reversed) rest
      | none =>
        if isPlain character then lines? quote fuel (character :: reversed) rest else none

/-- The text after an opening quote, and what follows the closing one. -/
def read? (quote : Quote) (input : List Char) : Option (String × List Char) :=
  match input with
  | first :: second :: rest =>
    if first == quote.character && second == quote.character then
      lines? quote (rest.length + 1) [] ((afterLineEnd? rest).getD rest)
    else line? quote (input.length + 1) [] input
  | _ => line? quote (input.length + 1) [] input

end AccountChains.Quoted
