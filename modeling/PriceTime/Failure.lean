/-!
# Failed file and channel operations
-/

namespace PriceTime

/-- The kinds of failure of a file or channel operation. -/
inductive FailureKind where
  /-- There is no such file, or no such directory. -/
  | notFound
  /-- The data is not text. -/
  | invalidData
  /-- What is asked for makes no sense. -/
  | invalidInput
  /-- A file cannot be that long. -/
  | fileTooLarge
  /-- Nobody is left to receive. -/
  | brokenPipe
  /-- Something else. -/
  | other
deriving DecidableEq

/-- A failed file or channel operation. -/
structure Failure where
  kind : FailureKind
  message : String
deriving DecidableEq

/-- What is reported of a path that leads nowhere. -/
def Failure.noSuchFile : Failure where
  kind := .notFound
  message := "No such file or directory (os error 2)"

end PriceTime
