namespace Itemwise

/-!
# Semantic versions

A **semantic version** is three numbers and two optional dotted parts.  A missing part is the
empty text.
-/

/-- A semantic version: `major.minor.patch`, a pre-release part and a build part. -/
structure SemVer where
  major : Int
  minor : Int
  patch : Int
  preRelease : List Char := []
  build : List Char := []
deriving DecidableEq, Repr

end Itemwise
