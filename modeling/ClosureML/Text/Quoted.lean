import ClosureML.Text.Unprintable

/-!
# Quoted texts

A text is quoted between double quotes. A quote or backslash in it stands behind a backslash; line
feed, carriage return, tab and the null character are written by a letter or digit behind a
backslash; other characters that would not be shown as they are become `\\u` with their number in
braces. A list is quoted element by element, in brackets.

* `quotedCharacter` is a character in a quoted text, `quoted` a quoted text;
* `quotedList` is a quoted list.
-/

namespace ClosureML

/-- The number in hexadecimal digits, small letters among them. -/
def hexadecimal (n : Nat) : String := String.ofList (Nat.toDigits 16 n)

/-- A character as it stands in a quoted text. -/
def quotedCharacter (c : Char) : String :=
  if c = '"' then "\\\""
  else if c = '\\' then "\\\\"
  else if c = '\n' then "\\n"
  else if c = '\r' then "\\r"
  else if c = '\t' then "\\t"
  else if c.toNat = 0 then "\\0"
  else if extendsGrapheme c || isUnprintable c then
    "\\u\x7b" ++ hexadecimal c.toNat ++ "\x7d"
  else c.toString

/-- A quoted text. -/
def quoted (text : String) : String :=
  "\"" ++ String.join (text.toList.map quotedCharacter) ++ "\""

/-- A quoted list of texts. -/
def quotedList (texts : List String) : String := "[" ++ ", ".intercalate (texts.map quoted) ++ "]"

end ClosureML
