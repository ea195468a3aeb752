import HardWrap.Text.Agreement
import HardWrap.Text.Order

/-!
Which names a misspelt one may stand for. Two texts share their longest common run and, on either
side of it, what the remaining parts share in the same way. They resemble each other if at least
three fifths of their characters are shared.
-/

namespace HardWrap

structure SharedRun where
  left : Nat
  right : Nat
  length : Nat

/-- The longest common run. Of several the first in the left text counts, and there the first in
the right text. -/
def longestRun (a b : Text) : SharedRun :=
  let runs := (List.range a.length).flatMap fun i => (List.range b.length).map fun j =>
    (⟨i, j, agreement (a.drop i) (b.drop j)⟩ : SharedRun)
  runs.foldl (fun best run => if best.length < run.length then run else best) ⟨0, 0, 0⟩

/-- How many characters two texts share, if `depth` common runs are cut out one within the other. -/
def sharedWithin : (depth : Nat) → Text → Text → Nat
  | 0, _, _ => 0
  | depth + 1, a, b =>
    let run := longestRun a b
    if run.length = 0 then 0
    else run.length + sharedWithin depth (a.take run.left) (b.take run.right) +
      sharedWithin depth (a.drop (run.left + run.length)) (b.drop (run.right + run.length))

def sharedCount (a b : Text) : Nat :=
  sharedWithin a.length a b

def isEnough (shared : Nat) (a b : Text) : Bool :=
  3 * (a.length + b.length) ≤ 10 * shared

def resembles (a b : Text) : Bool :=
  isEnough (min a.length b.length) a b && isEnough (sharedCount a b) a b

/-- Whether `a` comes before `b` among the names for a word: by the portion that it shares with the
word, and backwards by code points. -/
def isNearer (word a b : Text) : Bool :=
  let portion := fun (n m : Text) => sharedCount n word * (m.length + word.length)
  if portion a b = portion b a then Text.le b a else portion b a < portion a b

def nearNames (names : List Text) (word : Text) : List Text :=
  let near := (names.filter fun name => resembles name word).mergeSort (isNearer word)
  (near.take 3).mergeSort Text.le

end HardWrap
