/-!
# Similar words

The Jaro similarity of two words, as the inspection tool uses it to suggest a command or
option when it does not know the one it was given. Characters of the two words match when they
are equal and no further apart than half the longer word's length, less one; with `m` matches
and `t` half the number of matched characters out of order, the similarity is
`(m / |a| + m / |b| + (m - t) / m) / 3`, and 0 without matches. Similarities are computed
in binary floating point, left to right, and compared with the double nearest to 0.7: a word
exactly 0.7 similar as a fraction may come out just above it.
-/

namespace ArchiveStore.Console

/-- Marks, for each character of `a`, the position of the character of `b` it matches, taking
the first unused equal character within `window`. -/
def matchPositions (a b : List Char) (window : Nat) : List (Option Nat) :=
  let step (acc : List (Option Nat) × List Nat) (ic : Nat × Char) :=
    let (out, used) := acc
    let (i, c) := ic
    let lo := i - window
    let hi := i + window
    let found := (List.range b.length).find? fun j =>
      lo ≤ j && j ≤ hi && !used.contains j && b[j]? == some c
    match found with
    | some j => (out ++ [some j], used ++ [j])
    | none => (out ++ [none], used)
  (a.zipIdx.map (fun (c, i) => (i, c))).foldl step ([], []) |>.1

/-- The Jaro similarity of two words. -/
def jaro (a b : String) : Float :=
  let xs := a.toList
  let ys := b.toList
  if xs.isEmpty && ys.isEmpty then Float.ofNat 1
  else if xs.isEmpty || ys.isEmpty then Float.ofNat 0
  else
    let window := max xs.length ys.length / 2 - 1
    let marks := matchPositions xs ys window
    let matchedA := (xs.zip marks).filterMap fun (c, m) => m.map fun _ => c
    let positions := (marks.filterMap id).mergeSort (· ≤ ·)
    let matchedB := positions.filterMap fun j => ys[j]?
    let m := matchedA.length
    if m = 0 then Float.ofNat 0
    else
      let t := ((matchedA.zip matchedB).filter fun (p, q) => p != q).length / 2
      let fm := Float.ofNat m
      (fm / Float.ofNat xs.length + fm / Float.ofNat ys.length + Float.ofNat (m - t) / fm) /
        Float.ofNat 3

/-- The similarity a candidate must exceed to be suggested. -/
def similarityThreshold : Float := Float.ofNat 7 / Float.ofNat 10

/-- The candidates more than 0.7 similar to a word, least similar first; equally similar ones
keep their order. -/
def similar (word : String) (candidates : List String) : List String :=
  let scored := candidates.filterMap fun c =>
    let r := jaro word c
    if similarityThreshold < r then some (c, r) else none
  (scored.mergeSort fun x y => decide (x.2 ≤ y.2)).map (·.1)

end ArchiveStore.Console
