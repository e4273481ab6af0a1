import ClosureML.Syntax.Field
import ClosureML.Text.Style

/-!
# Printed trees

A tree is printed one node a line, children indented under their parent. A line holds the kind,
the leaf fields as `name=value`, and after a colon the type, if the node has one.

* `Node.header` is the line of a node;
* `Node.printedLines` are the lines of a tree, `Node.print` is the whole text.

Main statement: `Node.printedLines_eq`, the one equation of the printed form.
-/

namespace ClosureML

namespace Node

/-- A field as it stands in the line of its node; children have lines of their own. -/
def printedLeaf (ink : Ink) : String × Field → Option String
  | (name, .leaf v) => some (ink.paint .dimmed name ++ "=" ++ v.text)
  | _ => none

/-- The line of a node. -/
def header (ink : Ink) (n : Node) : String :=
  let leaves := (n.fields.filterMap (printedLeaf ink)).map fun leaf => " " ++ leaf
  let type :=
    match n.mark.ty with
    | some t => " : " ++ ink.paint .yellow t.text
    | none => ""
  ink.paint .cyan n.kind.text ++ String.join leaves ++ type

/-- The lines of a tree. -/
def printedLines (ink : Ink) : Node → List String :=
  fold fun n children =>
    n.header ink :: children.flatten.map fun line => ink.paint .dimmed "|   " ++ line

/-- The printed form; every line is ended. -/
def print (ink : Ink) (n : Node) : String :=
  String.join ((n.printedLines ink).map fun line => line ++ "\n")

/-- **The printed form of a tree** is its header over the indented forms of its children. -/
theorem printedLines_eq (ink : Ink) (n : Node) :
    n.printedLines ink = n.header ink ::
      (n.children.flatMap (printedLines ink)).map fun line => ink.paint .dimmed "|   " ++ line := by
  rw [printedLines, fold_eq, List.flatMap]

end Node

end ClosureML
