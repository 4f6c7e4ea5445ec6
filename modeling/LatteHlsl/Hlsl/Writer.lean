/-!
# Indented text

Lines of text at a depth of indentation.

* `TextLine`: one line and its depth.
* `Writer`: text written line by line at a current depth.
-/

namespace LatteHlsl.Hlsl

/-- The indentation of one level. -/
def indentUnit : String := "    "

/-- A line of text at a depth of indentation. -/
structure TextLine where
  depth : Nat
  text : String
deriving DecidableEq

namespace TextLine

/-- The line with its indentation and its end; an empty line is not indented. -/
def render (l : TextLine) : String :=
  if l.text.isEmpty then "\n"
  else String.join (List.replicate l.depth indentUnit) ++ l.text ++ "\n"

/-- The text of a list of lines. -/
def renderAll (ls : List TextLine) : String := String.join (ls.map render)

/-- Lines of one depth. -/
def atDepth (depth : Nat) (texts : List String) : List TextLine := texts.map (TextLine.mk depth)

/-- A block in braces whose contents stand one level deeper. -/
def block (head : String) (contents : List TextLine) (close : String) : List TextLine :=
  atDepth 0 [head, "\x7b"] ++ contents ++ atDepth 0 [close]

end TextLine

/-- Text written so far, and the depth of the next line. -/
structure Writer where
  text : String := ""
  depth : Nat := 0
deriving DecidableEq

namespace Writer

/-- Write one line at the current depth. -/
def line (w : Writer) (text : String) : Writer :=
  { w with text := w.text ++ (TextLine.mk w.depth text).render }

/-- Write text as it is. -/
def raw (w : Writer) (text : String) : Writer := { w with text := w.text ++ text }

/-- The greatest depth. -/
def maxDepth : Nat := UInt64.size - 1

/-- Go one level deeper, if there is one. -/
def indent? (w : Writer) : Option Writer :=
  if w.depth < maxDepth then some { w with depth := w.depth + 1 } else none

/-- Go one level back, if there is one. -/
def dedent (w : Writer) : Writer := { w with depth := w.depth - 1 }

/-- Whether nothing is written. -/
def isEmpty (w : Writer) : Bool := w.text.isEmpty

end Writer

end LatteHlsl.Hlsl
