import ServerlessLLM.Vram.Pool

/-!
# Merging small tensor groups

`MergeTGs` of `RegisteredModel`. The loops run on fuel: a run that has not ended is `none`.
-/

namespace ServerlessLLM

namespace TensorGroupIndex

/-- A tensor with its offset moved by `shift`: `adjusted_tensor.offset += shift`. -/
def adjust (shift : Nat) (t : TensorIndex) : TensorIndex := { t with offset := t.offset + shift }

/-- The next group is put behind a group: sizes and fingerprints are joined, and its tensors are moved by `shift`. -/
def combine (shift : Nat) (g next : TensorGroupIndex) : TensorGroupIndex where
  fileOffset := g.fileOffset
  size := g.size + next.size
  fingerprint := g.fingerprint ++ "+" ++ next.fingerprint
  tensorIndexes := g.tensorIndexes ++ next.tensorIndexes.map (adjust shift)

/-- The loop over `merge_end`: groups are taken in until the sum reaches `min_size`. All are moved by the size that the current
group had before. -/
def foldNext (minSize currentSize : Nat) : List TensorGroupIndex → TensorGroupIndex → TensorGroupIndex × List TensorGroupIndex
  | [], combined => (combined, [])
  | next :: rest, combined =>
    if combined.size < minSize then foldNext minSize currentSize rest (combine currentSize combined next)
    else (combined, next :: rest)

/-- The loop over `i`, from the current group on, with the flag `merged`. -/
def mergePass (minSize : Nat) : Nat → List TensorGroupIndex → Bool → Option (List TensorGroupIndex × Bool)
  | 0, _, _ => none
  | _ + 1, [], merged => some ([], merged)
  | fuel + 1, current :: rest, merged =>
    if minSize ≤ current.size then (mergePass minSize fuel rest merged).map fun r => (current :: r.1, r.2)
    else
      match rest with
      | [] => some ([current], merged)
      | next :: rest =>
        -- the place is looked at again
        let (combined, rest) := foldNext minSize current.size (next :: rest) current
        mergePass minSize fuel (combined :: rest) true

/-- The loop `do … while (merged)`. -/
def mergePasses (minSize : Nat) : Nat → List TensorGroupIndex → Option (List TensorGroupIndex)
  | 0, _ => none
  | fuel + 1, groups =>
    match mergePass minSize (fuel + 1) groups false with
    | none => none
    | some (groups, merged) => if merged then mergePasses minSize fuel groups else some groups

/-- The rule for the last group: when it is small, it goes to the one before. Its tensors are moved by the size that this one
has then. -/
def mergeLast (minSize : Nat) : List TensorGroupIndex → List TensorGroupIndex
  | [] => []
  | [g] => [g]
  | [secondLast, last] =>
    if last.size < minSize then [combine (secondLast.size + last.size) secondLast last] else [secondLast, last]
  | g :: h :: i :: rest => g :: mergeLast minSize (h :: i :: rest)

end TensorGroupIndex

open TensorGroupIndex in
/-- `MergeTGs`, with the array of the host pointers built anew. -/
def RegisteredModel.mergeTGs (minSize fuel : Nat) (m : RegisteredModel) : Option RegisteredModel :=
  (mergePasses minSize fuel m.tensorGroupIndexes).map fun groups =>
    let groups := mergeLast minSize groups
    { m with tensorGroupIndexes := groups, tensorGroupHostPtr := List.replicate groups.length none }

end ServerlessLLM
