import ClassForge.Text.Printable

/-!
# Quoted text

Text between double quotes, in which quotes, backslashes and everything that
does not print is written as an escape.
-/

namespace ClassForge.Quoted

/-- The code point of a character as an escape. -/
def codePoint (c : Char) : String :=
  "\\u\x7b" ++ String.ofList (Nat.toDigits 16 c.toNat) ++ "\x7d"

/-- One character of a quoted text. -/
def escape (c : Char) : String :=
  if c = '"' then "\\\""
  else if c = '\\' then "\\\\"
  else if c = '\t' then "\\t"
  else if c = '\r' then "\\r"
  else if c = '\n' then "\\n"
  else if c.toNat = 0 then "\\0"
  else if c.toNat < 0x20 then codePoint c
  else if c.toNat < 0x7f then c.toString
  else if printsBeyondAscii c then c.toString
  else codePoint c

/-- Text between double quotes. -/
def encode (text : String) : String :=
  "\"" ++ "".intercalate (text.toList.map escape) ++ "\""

end ClassForge.Quoted
