import Fabula.Text.Basic

/-!
# Colors on a terminal

A terminal shows a text in a rendition when the text stands between the codes
that begin the rendition and the one that ends it. Where nobody looks at a
terminal the text stays as it is.
-/

namespace Fabula

/-- **A way in which a terminal shows a text.** -/
inductive Rendition where
  | red
  | green
  | bold
  | faint
deriving DecidableEq, Repr

namespace Rendition

/-- The number under which terminals know it. -/
def number : Rendition → Nat
  | bold => 1
  | faint => 2
  | red => 31
  | green => 32

/-- The code that begins it. -/
def code (r : Rendition) : Text :=
  '\x1b' :: '[' :: Text.ofNat r.number ++ ['m']

/-- The code that ends every rendition. -/
def reset : Text :=
  "\x1b[0m".toList

end Rendition

/-- **Whether a terminal gets colors.** -/
inductive Palette where
  | plain
  | colored
deriving DecidableEq, Repr

/-- **A text in some renditions**, where there are colors. -/
def Palette.paint (palette : Palette) (renditions : List Rendition) (t : Text) : Text :=
  match palette with
  | plain => t
  | colored => renditions.flatMap Rendition.code ++ t ++ Rendition.reset

end Fabula
