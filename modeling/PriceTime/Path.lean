/-!
# Paths

A path is kept as it was written, but two paths are the same when they have the same parts. Repeated
slashes, slashes at the end and dots further on are no parts. A dot at the start of a path is one,
and so are two dots anywhere, since what they lead to depends on the directories.

* `Path.beq_iff`: when two paths are the same.
-/

namespace PriceTime

/-- A path, as it was written. -/
structure Path where
  text : String

namespace Path

/-- What stands between the slashes. -/
def segments (p : Path) : List String :=
  (p.text.toList.splitOn '/').map String.ofList

/-- Whether a path starts at the top. -/
def isAbsolute (p : Path) : Bool :=
  p.text.toList.head? == some '/'

/-- Whether a segment leads nowhere. -/
def staysHere (segment : String) : Bool :=
  segment == "" || segment == "."

/-- The parts of a path. For a path from the top, the first one is a slash. -/
def parts (p : Path) : List String :=
  match p.segments with
  | [] | [""] => []
  | first :: rest => (if first = "" then "/" else first) :: rest.filter (!staysHere ·)

instance : BEq Path where
  beq p q := p.parts == q.parts

theorem beq_iff {p q : Path} : (p == q) = true ↔ p.parts = q.parts :=
  beq_iff_eq (a := p.parts) (b := q.parts)

end Path

end PriceTime
