/-!
# Blank characters

A listing drops the blanks at the end of a line. Blank is what the Unicode standard gives the
property `White_Space`: the controls from tab to carriage return, the space, and the spaces and
separators beyond ASCII.

* `isBlank` is the property;
* `trimEnd` drops the blanks at the end of a text, and keeps everything else.
-/

namespace ClosureML

/-- Does the character have the Unicode property `White_Space`? -/
def isBlank (c : Char) : Bool :=
  let n := c.toNat
  (0x9 ≤ n && n ≤ 0xD) || n == 0x20 || n == 0x85 || n == 0xA0 || n == 0x1680
    || (0x2000 ≤ n && n ≤ 0x200A) || n == 0x2028 || n == 0x2029 || n == 0x202F || n == 0x205F
    || n == 0x3000

/-- The text without the blanks at its end. -/
def trimEnd (text : String) : String :=
  String.ofList (text.toList.reverse.dropWhile isBlank).reverse

end ClosureML
