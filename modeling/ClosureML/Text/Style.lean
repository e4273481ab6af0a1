/-!
# Styled terminal text

Diagnostics and printed trees can be coloured for a terminal. A styled text is put between the
opening code of its style and the reset code; where it already holds a reset, the style is opened
again behind it, so that an outer style goes on after an inner one has ended.

* `Ink.paint` styles a text, or leaves it alone when the ink is plain (`Ink.paint_plain`);
* `Style.paintAll` styles a text in several ways at once.
-/

namespace ClosureML

/-! ## 1. Styles and their codes -/

/-- How a piece of text is set on the terminal. -/
inductive Style where
  | bold
  | dimmed
  | underlined
  | red
  | yellow
  | blue
  | cyan
  | white
  | boldRed
  deriving DecidableEq, Repr

namespace Style

/-- The numbers of a style in a terminal's "select graphic rendition" code. -/
def parameters : Style → String
  | bold => "1"
  | dimmed => "2"
  | underlined => "4"
  | red => "31"
  | yellow => "33"
  | blue => "34"
  | cyan => "36"
  | white => "37"
  | boldRed => "1;31"

/-- The code that switches the style on. -/
def opening (style : Style) : String := "\x1b[" ++ style.parameters ++ "m"

/-- The code that ends every style. -/
def reset : String := "\x1b[0m"

/-- `text` in several styles at once, each opened by a code of its own. -/
def paintAll (styles : List Style) (text : String) : String :=
  String.join (styles.map opening) ++ text ++ reset

end Style

/-! ## 2. Painting -/

/-- Whether styles are written at all. -/
inductive Ink where
  | plain
  | coloured
  deriving DecidableEq, Repr

/-- `text` in `style`: a reset inside it is followed by the style's opening code once more. -/
def Ink.paint : Ink → Style → String → String
  | .plain, _, text => text
  | .coloured, style, text =>
    style.opening ++ text.replace Style.reset (Style.reset ++ style.opening) ++ Style.reset

/-- Plain ink adds nothing. -/
@[simp] theorem Ink.paint_plain (style : Style) (text : String) :
    Ink.plain.paint style text = text := rfl

end ClosureML
