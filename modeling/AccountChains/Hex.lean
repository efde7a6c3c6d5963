import AccountChains.Bytes

/-!
Contract: hexadecimal text of byte strings.

Owns: the two renderings (lower and upper case), the reader, and the causes for
which a text is refused, in the order in which they are looked for: an odd
number of digits, a length other than the wanted one, the first character that
is no digit.

The reader sees the text as its UTF-8 bytes, so positions count bytes and an
offending byte is shown as the character with that code.
-/

namespace AccountChains.Hex

/-- The letter case of the digits above nine. -/
inductive LetterCase where
  | lower
  | upper
deriving DecidableEq, Repr

/-- The digit of a value below sixteen. -/
def digit (letters : LetterCase) (value : Nat) : Char :=
  if value < 10 then Char.ofNat (48 + value)
  else match letters with
    | .lower => Char.ofNat (87 + value)
    | .upper => Char.ofNat (55 + value)

/-- The value of a digit character, given by its code. -/
def digitValue? (code : UInt8) : Option Nat :=
  if 48 ≤ code ∧ code ≤ 57 then some (code.toNat - 48)
  else if 97 ≤ code ∧ code ≤ 102 then some (code.toNat - 87)
  else if 65 ≤ code ∧ code ≤ 70 then some (code.toNat - 55)
  else none

def valueOf? (character : Char) : Option Nat :=
  if character.toNat < 128 then digitValue? (UInt8.ofNat character.toNat) else none

/-- Two digits for each byte, the high half first. -/
def renderWith (letters : LetterCase) (bytes : Bytes) : String :=
  String.ofList (bytes.flatMap fun byte =>
    [digit letters (byte.toNat / 16), digit letters (byte.toNat % 16)])

def render (bytes : Bytes) : String := renderWith .lower bytes

def renderUpper (bytes : Bytes) : String := renderWith .upper bytes

/-- Why a text is not the hexadecimal form of a byte string of the wanted length. -/
inductive Error where
  | oddLength
  | wrongLength
  | invalidByte (byte : UInt8) (position : Nat)
deriving DecidableEq, Repr

/-- Lower-case hexadecimal text of a number, without leading zeros. -/
private def codePointText (code : Nat) : String :=
  String.ofList (Nat.toDigits 16 code)

/-- The character with the given code between single quotes. Quote, backslash and the
control characters with a name are escaped by a letter; what has no shape of its own
(controls, the no-break space, the soft hyphen) is escaped by its code. -/
def quotedByte (byte : UInt8) : String :=
  let code := byte.toNat
  let shown :=
    if code = 0 then "\\0"
    else if code = 9 then "\\t"
    else if code = 10 then "\\n"
    else if code = 13 then "\\r"
    else if code = 39 then "\\'"
    else if code = 92 then "\\\\"
    else if code < 32 ∨ (127 ≤ code ∧ code ≤ 160) ∨ code = 173 then
      "\\u\x7b" ++ codePointText code ++ "\x7d"
    else String.singleton (Char.ofNat code)
  "'" ++ shown ++ "'"

def Error.message : Error → String
  | .oddLength => "Odd number of digits"
  | .wrongLength => "Invalid string length"
  | .invalidByte byte position =>
    "Invalid character " ++ quotedByte byte ++ " at position " ++ toString position

/-- The bytes written by pairs of digits; `position` is that of the first code. -/
def decodePairs (position : Nat) : Bytes → Except Error Bytes
  | high :: low :: rest =>
    match digitValue? high, digitValue? low with
    | none, _ => .error (.invalidByte high position)
    | some _, none => .error (.invalidByte low (position + 1))
    | some upper, some lower =>
      (decodePairs (position + 2) rest).map (UInt8.ofNat (16 * upper + lower) :: ·)
  | _ => .ok []

/-- Read the hexadecimal form of any number of bytes. -/
def decode (text : Bytes) : Except Error Bytes :=
  if text.length % 2 = 1 then .error .oddLength else decodePairs 0 text

/-- Read the hexadecimal form of exactly `width` bytes. -/
def decodeExact (width : Nat) (text : Bytes) : Except Error Bytes :=
  if text.length % 2 = 1 then .error .oddLength
  else if text.length ≠ 2 * width then .error .wrongLength
  else decodePairs 0 text

/-- The codes of the characters of a text, for the reader. -/
def codes (text : String) : Bytes := text.toUTF8.toList

end AccountChains.Hex
