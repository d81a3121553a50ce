import Mathlib.Algebra.Order.Group.Basic
import Mathlib.Algebra.Order.Group.Defs
import Mathlib.Order.Bounds.Basic
import Mathlib.Order.Interval.Set.Basic

/-! Boxes of the plane, by a corner and a size, and the least box around points. -/

namespace Boxes

/-- A box by its lower corner, its width and its height. -/
structure Box (α : Type) where
  x : α
  y : α
  w : α
  h : α
  deriving DecidableEq

variable {α : Type} [AddCommGroup α] [LinearOrder α] [IsOrderedAddMonoid α] {box outer : Box α}
  {points : Set (α × α)} {p : α × α}

/-- The points of a box. -/
def Box.area (box : Box α) : Set (α × α) := Set.Icc (box.x, box.y) (box.x + box.w, box.y + box.h)

/-- The areas that hold some points. -/
def around (points : Set (α × α)) : Set (Set (α × α)) :=
  {area | points ⊆ area ∧ ∃ box : Box α, box.area = area}

omit [IsOrderedAddMonoid α] in
theorem mem_area :
    p ∈ box.area ↔ (box.x ≤ p.1 ∧ p.1 ≤ box.x + box.w) ∧ box.y ≤ p.2 ∧ p.2 ≤ box.y + box.h := by
  simp only [Box.area, Set.mem_Icc, Prod.le_def]
  tauto

/-- A box has points exactly where its size is not negative. -/
theorem area_nonempty : box.area.Nonempty ↔ 0 ≤ box.w ∧ 0 ≤ box.h := by
  rw [Box.area, Set.nonempty_Icc, Prod.mk_le_mk, le_add_iff_nonneg_right, le_add_iff_nonneg_right]

omit [IsOrderedAddMonoid α] in
theorem area_subset (left : outer.x ≤ box.x) (right : box.x + box.w ≤ outer.x + outer.w)
    (below : outer.y ≤ box.y) (above : box.y + box.h ≤ outer.y + outer.h) :
    box.area ⊆ outer.area :=
  Set.Icc_subset_Icc ⟨left, below⟩ ⟨right, above⟩

omit [IsOrderedAddMonoid α] in
/-- A box whose sides are at the extreme coordinates of some points is the least around them. -/
theorem isLeast_around (left : IsLeast (Prod.fst '' points) box.x)
    (right : IsGreatest (Prod.fst '' points) (box.x + box.w))
    (below : IsLeast (Prod.snd '' points) box.y)
    (above : IsGreatest (Prod.snd '' points) (box.y + box.h)) :
    IsLeast (around points) box.area := by
  constructor
  · refine ⟨?_, box, rfl⟩
    intro p hp
    exact mem_area.mpr ⟨⟨left.2 ⟨p, hp, rfl⟩, right.2 ⟨p, hp, rfl⟩⟩,
      below.2 ⟨p, hp, rfl⟩, above.2 ⟨p, hp, rfl⟩⟩
  · rintro _ ⟨hpoints, outer, rfl⟩
    obtain ⟨p, hp, hleft⟩ := left.1
    obtain ⟨q, hq, hright⟩ := right.1
    obtain ⟨r, hr, hbelow⟩ := below.1
    obtain ⟨s, hs, habove⟩ := above.1
    refine area_subset ?_ ?_ ?_ ?_
    · exact hleft ▸ (mem_area.mp (hpoints hp)).1.1
    · exact hright ▸ (mem_area.mp (hpoints hq)).1.2
    · exact hbelow ▸ (mem_area.mp (hpoints hr)).2.1
    · exact habove ▸ (mem_area.mp (hpoints hs)).2.2

end Boxes
