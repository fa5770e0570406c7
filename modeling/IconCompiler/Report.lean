/-! The account of a run: how many files compiled, and what was wrong with the others. -/

namespace IconCompiler

structure Failure where
  file : String
  error : String
  deriving DecidableEq

structure Stats where
  success : Nat
  failed : Nat
  total : Nat
  /-- Failures in the order of the files. -/
  errors : List Failure
  deriving DecidableEq

namespace Stats

def empty : Stats := ⟨0, 0, 0, []⟩

def recordSuccess (s : Stats) : Stats :=
  { s with success := s.success + 1, total := s.total + 1 }

def recordFailure (s : Stats) (file error : String) : Stats :=
  { s with failed := s.failed + 1, total := s.total + 1, errors := s.errors ++ [⟨file, error⟩] }

/-- Whether every file compiled. -/
def isClean (s : Stats) : Bool := s.failed == 0

end Stats

end IconCompiler
