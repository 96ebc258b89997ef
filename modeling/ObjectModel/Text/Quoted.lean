/-!
# Quoted text

A literal is a text between two equal quotes. A backslash introduces an escape; the quote, the
backslash and the characters that cannot stand in a literal as they are have one each. `encode`
writes a literal and `decode` reads its escapes.
-/

namespace ObjectModel
namespace Text
namespace Quoted

/-- The single quote, unless the text has one and no double quote. -/
def quoteFor (text : List Char) : Char :=
  if text.contains '\'' && !text.contains '"' then '"' else '\''

/-- A digit of a hexadecimal number, in lower case. -/
def hexDigit (n : Nat) : Char :=
  if n < 10 then Char.ofNat (48 + n) else Char.ofNat (87 + n)

/-- The character as it stands between two quotes, where `plain` tells which ones stand for
themselves. -/
def escape (plain : Char → Bool) (quote c : Char) : List Char :=
  if c = '\\' then ['\\', '\\']
  else if c = '\n' then ['\\', 'n']
  else if c = '\r' then ['\\', 'r']
  else if c = '\t' then ['\\', 't']
  else if c = quote then ['\\', c]
  else if plain c then [c]
  else ['\\', 'x', hexDigit (c.toNat / 16), hexDigit (c.toNat % 16)]

/-- The literal for a text. -/
def encode (plain : Char → Bool) (text : List Char) : List Char :=
  let quote := quoteFor text
  quote :: text.flatMap (escape plain quote) ++ [quote]

/-- The value of a hexadecimal digit in lower case. -/
def hexValue? (c : Char) : Option Nat :=
  if '0' ≤ c ∧ c ≤ '9' then some (c.toNat - 48)
  else if 'a' ≤ c ∧ c ≤ 'f' then some (c.toNat - 87)
  else none

/-- Reads the inside of a literal up to the quote that ends it, which has to be the last character.
Refuses an escape that does not exist. -/
def decodeBody (quote : Char) : List Char → Option (List Char)
  | [] => none
  | '\\' :: 'x' :: high :: low :: rest => do
    let high ← hexValue? high
    let low ← hexValue? low
    return Char.ofNat (16 * high + low) :: (← decodeBody quote rest)
  | '\\' :: c :: rest =>
    if c = '\\' ∨ c = quote then (decodeBody quote rest).map (c :: ·)
    else if c = 'n' then (decodeBody quote rest).map ('\n' :: ·)
    else if c = 'r' then (decodeBody quote rest).map ('\r' :: ·)
    else if c = 't' then (decodeBody quote rest).map ('\t' :: ·)
    else none
  | c :: rest =>
    if c = quote then if rest.isEmpty then some [] else none
    else (decodeBody quote rest).map (c :: ·)

/-- Reads a literal. -/
def decode : List Char → Option (List Char)
  | '\'' :: body => decodeBody '\'' body
  | '"' :: body => decodeBody '"' body
  | _ => none

/-- The characters that stand for themselves in the literal of a text: all but the control
characters of ASCII. -/
def isTextPlain (c : Char) : Bool :=
  ' ' ≤ c && c != '\x7f'

/-- The characters that stand for themselves in the literal of a byte string: the printable ones of
ASCII. -/
def isBytePlain (c : Char) : Bool :=
  ' ' ≤ c && c ≤ '~'

end Quoted

/-- The literal of a text. -/
def quoted (text : String) : String :=
  String.ofList (Quoted.encode Quoted.isTextPlain text.toList)

/-- The literal of a byte string: the mark `b`, then the literal of the bytes as characters. -/
def quotedBytes (bytes : List UInt8) : String :=
  String.ofList ('b' :: Quoted.encode Quoted.isBytePlain (bytes.map fun b => Char.ofNat b.toNat))

end Text
end ObjectModel
