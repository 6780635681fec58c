import Mathlib.Data.List.Forall2
import Mathlib.Data.List.TakeWhile
import Scriptlet.Engine.Builtin
import Scriptlet.Proofs.Token.Lines

namespace Scriptlet

/-!
# Positions

The position of an offset counts the line breaks in front of it and the characters behind the last
of them. A text keeps its positions inside a longer one, as seen from where it begins; so the author
of a scriptlet does not notice the template around it.
-/

namespace Text

section

variable (line chars bytes : Nat)

end

/-- A place behind `lines` more lines, and if it is on the line `first`, behind `ahead` more
characters. -/
def Place.behind (first lines ahead : Nat) (p : Place) : Place :=
  ⟨lines + p.line, if p.line = first then ahead + p.column else p.column⟩

/-- A place whose numbers can be shown as they are. -/
structure Place.Fits (p : Place) : Prop where
  line : p.line < UInt32.size
  column : p.column < UInt32.size

end Text

/-! ### Diagnostics of a scriptlet -/

end Scriptlet
