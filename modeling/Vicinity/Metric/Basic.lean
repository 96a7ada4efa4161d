import Vicinity.Element

namespace Vicinity

open Number

structure Metric (α : Type) where
  name : String
  distance : List α → List α → Binary64

namespace Metric

variable {α : Type} [Element α]

/-- Vectors of different lengths are compared over the shorter one. -/
def terms (f : Binary64 → Binary64 → Binary64) (a b : List α) : List Binary64 :=
  (a.zip b).map fun (x, y) => f (widen x) (widen y)

def squaredDifference (x y : Binary64) : Binary64 := (x - y) * (x - y)

def absoluteDifference (x y : Binary64) : Binary64 := (x - y).abs

def squaredEuclidean : Metric α where
  name := "squared_euclidean"
  distance a b := .sum (terms squaredDifference a b)

def euclidean : Metric α where
  name := "euclidean"
  distance a b := (squaredEuclidean.distance a b).sqrt

def manhattan : Metric α where
  name := "manhattan"
  distance a b := .sum (terms absoluteDifference a b)

/-- Like `Value.sum`, but from positive zero. -/
def accumulate (xs : List Binary64) : Binary64 := xs.foldl (· + ·) (.zero false)

def dot (a b : List α) : Binary64 := accumulate (terms (· * ·) a b)
def leftNormSquared (a b : List α) : Binary64 := accumulate (terms (fun x _ => x * x) a b)
def rightNormSquared (a b : List α) : Binary64 := accumulate (terms (fun _ y => y * y) a b)

def similarity (a b : List α) : Binary64 :=
  (dot a b / ((leftNormSquared a b).sqrt * (rightNormSquared a b).sqrt)).clamp (-.one) .one

/-- A vector of zero norm has no direction and is at distance one from every vector. -/
def cosine : Metric α where
  name := "cosine"
  distance a b :=
    if (leftNormSquared a b).isZero || (rightNormSquared a b).isZero then .one
    else .one - similarity a b

end Metric

end Vicinity
