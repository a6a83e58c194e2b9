/-
Draws without repetition. Indices are chosen one after the other, for bounds
that grow by one: a draw that is new is taken, and a repeated one gives its
turn to the bound, which no draw before could reach. So after each step the
chosen indices differ and stay within the bound, whatever was drawn, and
there is one more of them. Whole draws follow by induction, and then what
stands at the chosen places of a list is as many of its elements, none taken
twice.

All of this is about arbitrary draws within their bounds. What a generator
adds is that its draws are such ones.
-/
import LinkAdaptation.Random.Draw
import Mathlib.Data.List.Forall2
import Mathlib.Data.List.Nodup
import Mathlib.Data.List.Perm.Subperm

namespace LinkAdaptation.Random.Generator

variable {α : Type} {n t j : Nat} {chosen : List Nat}

-- ============================================================= one draw

/-- A drawn number stays below its bound, accepted or not: it is the high
half of a product with a word. -/
theorem drawBelow_lt (hn : 0 < n) (fuel : Nat) (g : Generator) :
    (g.drawBelow n fuel).1 < n := by
  have high (v : UInt32) : v.toNat * n / UInt32.size < n :=
    Nat.div_lt_of_lt_mul (Nat.mul_lt_mul_of_pos_right v.toNat_lt hn)
  induction fuel generalizing g with
  | zero => exact high _
  | succ fuel ih =>
      unfold drawBelow
      dsimp only
      split
      · exact high _
      · exact ih _

theorem below_le (j : Nat) (g : Generator) : (g.below (j + 1)).1 ≤ j :=
  Nat.le_of_lt_succ (drawBelow_lt (Nat.succ_pos j) patience g)

/-- An element is chosen if there is one. -/
theorem exists_choose {l : List α} (hl : l ≠ []) (g : Generator) :
    ∃ a ∈ l, (g.choose l).1 = some a := by
  cases l with
  | nil => exact absurd rfl hl
  | cons a rest =>
      have hplace := Nat.lt_succ_of_le (below_le rest.length g)
      exact ⟨_, List.getElem_mem hplace, List.getElem?_eq_getElem hplace⟩

-- ============================================================= one index

/-- Wherever it is put, it is one index more. -/
theorem perm_insertBefore (h : t ∈ chosen) (j : Nat) :
    (insertBefore t j chosen).Perm (j :: chosen) := by
  induction chosen with
  | nil => cases h
  | cons x rest ih =>
      unfold insertBefore
      split
      · exact .refl _
      · next hne =>
          have hrest : t ∈ rest := by
            rcases List.mem_cons.1 h with rfl | hrest
            · exact absurd rfl hne
            · exact hrest
          exact ((ih hrest).cons x).trans (.swap j x rest)

/-- A new index is taken, and a repeated one gives way to the bound. -/
theorem perm_addIndex (chosen : List Nat) (t j : Nat) :
    (addIndex chosen t j).Perm ((if t ∈ chosen then j else t) :: chosen) := by
  unfold addIndex
  split
  · next h => exact perm_insertBefore h j
  · exact List.perm_append_singleton t chosen

/-- Different indices, all below a bound. -/
structure Distinct (n : Nat) (chosen : List Nat) : Prop where
  nodup : chosen.Nodup
  lt : ∀ i ∈ chosen, i < n

/-- One draw more leaves the indices different. -/
theorem Distinct.addIndex (h : Distinct j chosen) (ht : t ≤ j) :
    Distinct (j + 1) (addIndex chosen t j) := by
  have hperm := perm_addIndex chosen t j
  refine ⟨hperm.nodup_iff.2 (List.nodup_cons.2 ⟨?_, h.nodup⟩), ?_⟩
  · split
    · exact fun hj => Nat.lt_irrefl j (h.lt j hj)
    · next hnew => exact hnew
  · intro i hi
    rcases List.mem_cons.1 (hperm.mem_iff.1 hi) with rfl | hi
    · split <;> omega
    · exact Nat.lt_succ_of_lt (h.lt i hi)

-- ============================================================ all draws

/-- The indices that draws lead to, each beside its bound. -/
def gather : List Nat → List Nat → List Nat → List Nat
  | t :: draws, j :: bounds, chosen => gather draws bounds (addIndex chosen t j)
  | _, _, chosen => chosen

/-- The bounds for some of `n` places: the last ones. -/
def bounds (n amount : Nat) : List Nat := List.range' (n - amount) amount

/-- A draw for each bound, and none above it. -/
def Fits (draws bounds : List Nat) : Prop := List.Forall₂ (· ≤ ·) draws bounds

/-- Whatever is drawn, there is a different index for each draw. -/
theorem distinct_gather {amount : Nat} {draws : List Nat}
    (h : Distinct n chosen) (hdraws : Fits draws (List.range' n amount)) :
    Distinct (n + amount) (gather draws (List.range' n amount) chosen)
      ∧ (gather draws (List.range' n amount) chosen).length
        = chosen.length + amount := by
  induction amount generalizing n draws chosen with
  | zero =>
      cases hdraws
      exact ⟨h, rfl⟩
  | succ amount ih =>
      rw [List.range'_succ] at hdraws ⊢
      cases hdraws with
      | cons ht hdraws =>
          obtain ⟨hdistinct, hlength⟩ := ih (h.addIndex ht) hdraws
          unfold gather
          have hsum : n + 1 + amount = n + (amount + 1) := by omega
          refine ⟨hsum ▸ hdistinct, ?_⟩
          rw [hlength, (perm_addIndex _ _ _).length_eq, List.length_cons]
          omega

/-- A generator draws within the bounds. -/
theorem drawIndices_eq_gather (bounds chosen : List Nat) (g : Generator) :
    ∃ draws, Fits draws bounds
      ∧ (drawIndices bounds chosen g).1 = gather draws bounds chosen := by
  induction bounds generalizing chosen g with
  | nil => exact ⟨[], .nil, rfl⟩
  | cons j bounds ih =>
      obtain ⟨draws, hdraws, hchosen⟩ :=
        ih (addIndex chosen (g.below (j + 1)).1 j) (g.below (j + 1)).2
      exact ⟨_ :: draws, .cons (below_le j g) hdraws, hchosen⟩

-- ============================================================= elements

/-- The elements of a list that draws lead to, `count` of them or all. -/
def elementsAt (l : List α) (count : Nat) (draws : List Nat) : List α :=
  (gather draws (bounds l.length (min count l.length)) []).filterMap (l[·]?)

/-- Reading a list at each of its places gives the list. -/
theorem filterMap_range_length (l : List α) :
    (List.range l.length).filterMap (l[·]?) = l := by
  induction l with
  | nil => rfl
  | cons a l ih =>
      rw [List.length_cons, List.range_succ_eq_map, List.filterMap_cons,
        List.filterMap_map]
      exact congrArg (a :: ·) ih

/-- What stands at different places of a list is taken from it without
repetition, one element for each place. -/
theorem Distinct.elements {l : List α} (h : Distinct l.length chosen) :
    (chosen.filterMap (l[·]?)).Subperm l
      ∧ (chosen.filterMap (l[·]?)).length = chosen.length := by
  refine ⟨?_, ?_⟩
  · have hplaces : chosen.Subperm (List.range l.length) :=
      List.subperm_of_subset h.nodup fun i hi => List.mem_range.2 (h.lt i hi)
    obtain ⟨part, hperm, hsub⟩ := hplaces
    have hread := hsub.filterMap (l[·]?)
    rw [filterMap_range_length] at hread
    exact ⟨_, hperm.filterMap _, hread⟩
  · refine List.filterMap_length_eq_length.2 fun i hi => ?_
    rw [List.getElem?_eq_getElem (h.lt i hi)]
    rfl

/-- Draws within their bounds choose as many elements as asked for, or all
that there are, and none twice. -/
theorem elementsAt_fits {l : List α} {count : Nat} {draws : List Nat}
    (hdraws : Fits draws (bounds l.length (min count l.length))) :
    (elementsAt l count draws).Subperm l
      ∧ (elementsAt l count draws).length = min count l.length := by
  have hamount : l.length - min count l.length + min count l.length = l.length :=
    Nat.sub_add_cancel (Nat.min_le_right _ _)
  have hempty : Distinct (l.length - min count l.length) [] := ⟨.nil, nofun⟩
  obtain ⟨hdistinct, hlength⟩ := distinct_gather hempty hdraws
  rw [hamount] at hdistinct
  obtain ⟨hsub, hsame⟩ := hdistinct.elements
  refine ⟨hsub, hsame.trans ?_⟩
  rw [hlength, List.length_nil, Nat.zero_add]

theorem chooseMany_eq_elementsAt (l : List α) (count : Nat) (g : Generator) :
    ∃ draws, Fits draws (bounds l.length (min count l.length))
      ∧ (g.chooseMany l count).1 = elementsAt l count draws := by
  obtain ⟨draws, hdraws, hchosen⟩ :=
    drawIndices_eq_gather (bounds l.length (min count l.length)) [] g
  exact ⟨draws, hdraws, congrArg (List.filterMap (l[·]?)) hchosen⟩

theorem chooseMany_subperm (l : List α) (count : Nat) (g : Generator) :
    (g.chooseMany l count).1.Subperm l := by
  obtain ⟨draws, hdraws, heq⟩ := chooseMany_eq_elementsAt l count g
  rw [heq]
  exact (elementsAt_fits hdraws).1

theorem length_chooseMany (l : List α) (count : Nat) (g : Generator) :
    (g.chooseMany l count).1.length = min count l.length := by
  obtain ⟨draws, hdraws, heq⟩ := chooseMany_eq_elementsAt l count g
  rw [heq]
  exact (elementsAt_fits hdraws).2

end LinkAdaptation.Random.Generator
