/-
Uniform draws: a number below a bound, an element of a list, and several
elements of a list without repetition.
-/
import LinkAdaptation.Random.Stream

namespace LinkAdaptation.Random

namespace Generator

-- ============================================================= numbers

/-- The largest low half of a product `word · n` that is accepted: `n`
shifted to fill 32 bits, less one. Rejecting the rest makes the high
halves equally likely. -/
def acceptBound (n : Nat) : Nat := (n <<< (31 - n.log2)) - 1

/-- Draws a number below `n` by taking the high half of `word · n`, and
draws again while the low half is rejected, at most `fuel` times. -/
def drawBelow (n : Nat) : Nat → Generator → Nat × Generator
  | 0, g =>
      let (v, g) := g.next
      (v.toNat * n / UInt32.size, g)
  | fuel + 1, g =>
      let (v, g) := g.next
      let product := v.toNat * n
      if product % UInt32.size ≤ acceptBound n then
        (product / UInt32.size, g)
      else
        drawBelow n fuel g

/-- Draws beyond which a rejected word is used all the same. More than
half of all words are accepted, so no stream in use gets there. -/
def patience : Nat := 4096

/-- A number below `n`, every one equally likely. -/
def below (n : Nat) (g : Generator) : Nat × Generator :=
  g.drawBelow n patience

-- ============================================================ elements

/-- An element of a list; of an empty list none, and without a draw. -/
def choose {α : Type} (l : List α) (g : Generator) : Option α × Generator :=
  match l with
  | [] => (none, g)
  | _ :: _ =>
      let (i, g) := g.below l.length
      (l[i]?, g)

/-- The list with `j` in front of the first `t`. -/
def insertBefore (t j : Nat) : List Nat → List Nat
  | [] => []
  | x :: rest => if x = t then j :: x :: rest else x :: insertBefore t j rest

/-- Chosen indices with one more that is at most `j`: the drawn `t` if it
is new, and otherwise `j` itself, which is larger than all chosen ones. -/
def addIndex (chosen : List Nat) (t j : Nat) : List Nat :=
  if t ∈ chosen then insertBefore t j chosen else chosen ++ [t]

/-- Draws one index for each `j` of a list of growing bounds. -/
def drawIndices : List Nat → List Nat → Generator → List Nat × Generator
  | [], chosen, g => (chosen, g)
  | j :: bounds, chosen, g =>
      let (t, g) := g.below (j + 1)
      drawIndices bounds (addIndex chosen t j) g

/-- Up to `count` elements of a list, at different places of it. -/
def chooseMany {α : Type} (l : List α) (count : Nat) (g : Generator) :
    List α × Generator :=
  let amount := min count l.length
  let (chosen, g) := drawIndices (List.range' (l.length - amount) amount) [] g
  (chosen.filterMap (l[·]?), g)

end Generator

end LinkAdaptation.Random
