import Vicinity.Json.Reader

namespace Vicinity

/-- What an index cannot go on from: storage that no sequence of operations leaves behind, or a
buffer that outgrows the addresses. It crashes there, and no error comes back to the caller. -/
inductive Defect
  | addressOverflow
  | outOfRange
  | unequalLengths
  deriving DecidableEq, Repr

inductive Error
  | dimensionMismatch (expected actual : Nat)
  | invalidDimension
  | invalidMetric (name : String)
  | invalidConfig (reason : Json.Error)
  | lock (operation : String)
  | defect (reason : Defect)
  deriving DecidableEq

namespace Error

def message : Error → String
  | .dimensionMismatch expected actual =>
    "Vector dimension mismatch: expected " ++ expected.repr ++ ", got " ++ actual.repr
  | .invalidDimension => "Invalid dimension: an index dimension must be at least 1"
  | .invalidMetric name =>
    "Invalid distance metric: " ++ name ++
      ". Must be 'euclidean', 'squared_euclidean', 'manhattan' or 'cosine'"
  | .invalidConfig reason => "Invalid index configuration: " ++ reason.message
  | .lock operation => "Failed to acquire lock for " ++ operation
  | .defect _ => "Broken index"

/-- Whether the caller can mend the error by another input. Only the errors of a lock are told apart
here: a defect is a crash, which no caller gets to classify, and counts with the rest. -/
def isClientError : Error → Bool
  | .lock _ => false
  | _ => true

end Error

end Vicinity
