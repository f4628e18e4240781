import Relational.Text.Unseen

/-!
Text in quotes. Backslash, the quote itself and the common controls have short escapes; a
character that cannot be seen by itself is written by its code.
-/

namespace Relational.Text

/-- The code of a character in lower-case hexadecimal, between braces. -/
def codeEscape (c : Char) : String :=
  "\\u\x7b" ++ String.ofList (Nat.toDigits 16 c.toNat) ++ "\x7d"

/-- One character as it stands inside the given quotes. -/
def escaped (quote c : Char) : String :=
  if c = quote ∨ c = '\\' then "\\" ++ c.toString
  else if c = '\n' then "\\n"
  else if c = '\t' then "\\t"
  else if c = '\r' then "\\r"
  else if c = '\x00' then "\\0"
  else if isUnseen c then codeEscape c
  else c.toString

def quoted (quote : Char) (cs : List Char) : String :=
  quote.toString ++ String.join (cs.map (escaped quote)) ++ quote.toString

def quotedString (s : String) : String :=
  quoted '\x22' s.toList

def quotedChar (c : Char) : String :=
  quoted '\x27' [c]

def bracketed (items : List String) : String :=
  "[" ++ ", ".intercalate items ++ "]"

end Relational.Text
