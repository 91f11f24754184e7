/-!
# Positions in a source text

Lines and columns of source text count from one, and columns count code points.  A position that was
made by hand may hold any integers.
-/

namespace ExScript

structure Pos where
  line : Int
  col : Int
  deriving DecidableEq, Repr, Inhabited

namespace Pos

/-- The end of a message that carries a position. -/
def suffix (p : Pos) : String := String.join [" at line ", toString p.line, " col ", toString p.col]

end Pos

end ExScript
