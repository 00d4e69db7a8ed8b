import ResourceApi.Text

/-!
# Similar texts

How much two texts have in common is counted by the longest run that both hold, then by the longest
ones before and after it, and so on. Texts are similar when the runs make up three fifths of both
or more. `mostSimilar` lists the most similar of some candidates, as a misspelled word calls for.
-/

namespace ResourceApi.Text

section

variable {α : Type} [DecidableEq α]

/-- How long two lists are equal from the front. -/
def commonStart : List α → List α → Nat
  | a :: as, b :: bs => if a = b then commonStart as bs + 1 else 0
  | _, _ => 0

/-- A run that two lists hold: where it begins in each, and its length. -/
structure CommonRun where
  left : Nat
  right : Nat
  length : Nat

/-- The longer of two runs, the first if they are equally long. -/
def CommonRun.longer (a b : CommonRun) : CommonRun := if a.length < b.length then b else a

/-- The longest run, by its beginning in the second list; `i` and `j` items stand before. -/
def longestFrom (i : Nat) (as : List α) : Nat → List α → CommonRun
  | j, [] => ⟨i, j, 0⟩
  | j, b :: bs => CommonRun.longer ⟨i, j, commonStart as (b :: bs)⟩ (longestFrom i as (j + 1) bs)

/-- The longest run; of equally long ones the first in the first list, then in the second. -/
def longestRun (bs : List α) : Nat → List α → CommonRun
  | i, [] => ⟨i, 0, 0⟩
  | i, a :: as => CommonRun.longer (longestFrom i (a :: as) 0 bs) (longestRun bs (i + 1) as)

/-- How many items of two lists belong to common runs, in at most so many steps inwards. -/
def matchedWithin : Nat → List α → List α → Nat
  | 0, _, _ => 0
  | fuel + 1, as, bs =>
    let run := longestRun bs 0 as
    if run.length = 0 then 0
    else
      matchedWithin fuel (as.take run.left) (bs.take run.right) + run.length +
        matchedWithin fuel (as.drop (run.left + run.length)) (bs.drop (run.right + run.length))

/-- How many items of two lists belong to common runs; every step inwards takes an item away. -/
def matched (as bs : List α) : Nat := matchedWithin as.length as bs

end

/-- How similar two texts are: twice the matched code points, and the code points of both. -/
def similarity (s t : Text) : Nat × Nat :=
  (2 * matched s.points t.points, s.points.length + t.points.length)

/-- Are three fifths or more matched? -/
def isSimilar (r : Nat × Nat) : Bool := 3 * r.2 ≤ 5 * r.1

/-- Is the first more similar than the second, or equally similar and later in the order of code
points? -/
def isCloser (a b : (Nat × Nat) × Text) : Bool :=
  let left := a.1.1 * b.1.2
  let right := b.1.1 * a.1.2
  right < left || (left == right && b.2.precedes a.2)

/-- The most similar candidates, at most three, the closest first. -/
def mostSimilar (word : Text) (candidates : List Text) : List Text :=
  let rated := (candidates.map fun c => (similarity c word, c)).filter fun r => isSimilar r.1
  ((rated.mergeSort isCloser).take 3).map Prod.snd

end ResourceApi.Text
