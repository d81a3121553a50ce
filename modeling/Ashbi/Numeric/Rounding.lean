import Mathlib

/-! Integers in an arithmetic that rounds the results it cannot hold: what a late check of a bound
says of the sums before it. -/

/-- How results are rounded: in order, and not at all up to a bound. -/
structure Rounding (bound : ℤ) where
  round : ℤ → ℤ
  pos : 0 < bound
  mono : Monotone round
  exact : ∀ {x : ℤ}, -bound ≤ x → x ≤ bound → round x = x

namespace Rounding

variable {bound : ℤ}

def plus (r : Rounding bound) (x y : ℤ) : ℤ := r.round (x + y)

def minus (r : Rounding bound) (x y : ℤ) : ℤ := r.round (x - y)

/-- One sum after the other. -/
def accumulate (r : Rounding bound) (x : ℤ) (ys : List ℤ) : ℤ := ys.foldl r.plus x

/-- The arithmetic that rounds nothing. -/
def none (h : 0 < bound) : Rounding bound where
  round := id
  pos := h
  mono := monotone_id
  exact := fun _ _ => rfl

variable (r : Rounding bound) {x y limit : ℤ} {ys : List ℤ}

theorem accumulate_concat (x y : ℤ) (ys : List ℤ) :
    r.accumulate x (ys ++ [y]) = r.plus (r.accumulate x ys) y := by
  rw [accumulate, List.foldl_append]
  rfl

/-- A result below the bound is compared with it as the exact one would be. -/
theorem round_gt (hlimit : limit < bound) (hx : 0 ≤ x) : limit < r.round x ↔ limit < x := by
  have hpos := r.pos
  by_cases hle : x ≤ bound
  · rw [r.exact (by omega) hle]
  · have hbound : r.round bound = bound := r.exact (by omega) le_rfl
    have hmono := r.mono (le_of_not_ge hle)
    omega

theorem plus_gt (hlimit : limit < bound) (hx : 0 ≤ x) (hy : 0 ≤ y) :
    limit < r.plus x y ↔ limit < x + y :=
  r.round_gt hlimit (by omega)

theorem plus_eq (hx : 0 ≤ x) (hy : 0 ≤ y) (h : x + y ≤ bound) : r.plus x y = x + y := by
  have hpos := r.pos
  exact r.exact (by omega) h

/-- Whether a sum is a number below the bound does not depend on rounding. -/
theorem plus_eq_iff (hlimit : limit < bound) (hx : 0 ≤ x) (hy : 0 ≤ y) :
    r.plus x y = limit ↔ x + y = limit := by
  by_cases hle : x + y ≤ bound
  · rw [r.plus_eq hx hy hle]
  · have hgt := (r.plus_gt hlimit hx hy).mpr (by omega)
    omega

theorem minus_eq (hy : 0 ≤ y) (hle : y ≤ x) (hx : x ≤ bound) : r.minus x y = x - y := by
  have hpos := r.pos
  exact r.exact (by omega) (by omega)

theorem minus_neg (h : x < y) : r.minus x y < 0 := by
  have hpos := r.pos
  have hone : r.round (-1) = -1 := r.exact (by omega) (by omega)
  have hmono := r.mono (show x - y ≤ -1 by omega)
  rw [hone] at hmono
  exact lt_of_le_of_lt hmono (by decide)

/-- Amounts that are added up one by one give their sum, unless it passes the limit, and then what
they give passes it too. -/
theorem accumulate_spec (hlimit : 0 ≤ limit ∧ limit < bound) (h : ∀ y ∈ ys, 0 ≤ y) :
    (ys.sum ≤ limit → r.accumulate 0 ys = ys.sum) ∧
      (limit < ys.sum → limit < r.accumulate 0 ys) := by
  induction ys using List.reverseRecOn with
  | nil => simp [accumulate, hlimit.1]
  | append_singleton ys y ih =>
    have hys : ∀ z ∈ ys, 0 ≤ z := fun z hz => h z (List.mem_append_left _ hz)
    have hy : 0 ≤ y := h y (List.mem_append_right _ List.mem_cons_self)
    have hsum : 0 ≤ ys.sum := List.sum_nonneg hys
    obtain ⟨hle, hgt⟩ := ih hys
    rw [accumulate_concat, List.sum_append, List.sum_singleton]
    by_cases hpart : ys.sum ≤ limit
    · rw [hle hpart]
      constructor
      · intro htotal
        exact r.plus_eq hsum hy (by omega)
      · exact (r.plus_gt hlimit.2 hsum hy).mpr
    · have hpassed := hgt (by omega)
      constructor
      · intro htotal
        omega
      · intro _
        exact (r.plus_gt hlimit.2 (by omega) hy).mpr (by omega)

/-- What is left of a total after two sums and a number is not negative only where it is the exact
rest. -/
theorem rest_spec (hlimit : 0 ≤ limit ∧ limit < bound) {total z : ℤ} {xs : List ℤ}
    (htotal : 0 ≤ total ∧ total ≤ limit) (hxs : ∀ y ∈ xs, 0 ≤ y) (hys : ∀ y ∈ ys, 0 ≤ y)
    (hz : 0 ≤ z) :
    (0 ≤ r.minus (r.minus (r.minus total (r.accumulate 0 xs)) (r.accumulate 0 ys)) z ↔
      xs.sum + ys.sum + z ≤ total) ∧
    (xs.sum + ys.sum + z ≤ total →
      r.minus (r.minus (r.minus total (r.accumulate 0 xs)) (r.accumulate 0 ys)) z =
        total - xs.sum - ys.sum - z) := by
  have hsumx : 0 ≤ xs.sum := List.sum_nonneg hxs
  have hsumy : 0 ≤ ys.sum := List.sum_nonneg hys
  obtain ⟨hlex, hgtx⟩ := r.accumulate_spec hlimit hxs
  obtain ⟨hley, hgty⟩ := r.accumulate_spec hlimit hys
  -- a sum that is too large by itself leaves a negative number, and so does what follows
  have hacc : ∀ {zs : List ℤ}, (zs.sum ≤ limit → r.accumulate 0 zs = zs.sum) →
      (limit < zs.sum → limit < r.accumulate 0 zs) → 0 ≤ zs.sum → 0 ≤ r.accumulate 0 zs := by
    intro zs hle hgt hsum
    rcases le_or_gt zs.sum limit with h | h
    · rw [hle h]
      exact hsum
    · exact (hlimit.1.trans_lt (hgt h)).le
  have hy0 := hacc hley hgty hsumy
  by_cases hx : xs.sum ≤ total
  · have hfirst : r.minus total (r.accumulate 0 xs) = total - xs.sum := by
      rw [hlex (by omega)]
      exact r.minus_eq hsumx hx (by omega)
    by_cases hy : xs.sum + ys.sum ≤ total
    · have hsecond : r.minus (total - xs.sum) (r.accumulate 0 ys) = total - xs.sum - ys.sum := by
        rw [hley (by omega)]
        exact r.minus_eq hsumy (by omega) (by omega)
      rw [hfirst, hsecond]
      by_cases hle : xs.sum + ys.sum + z ≤ total
      · have hlast : r.minus (total - xs.sum - ys.sum) z = total - xs.sum - ys.sum - z :=
          r.minus_eq hz (by omega) (by omega)
        rw [hlast]
        exact ⟨iff_of_true (by omega) hle, fun _ => rfl⟩
      · have hneg := r.minus_neg (show total - xs.sum - ys.sum < z by omega)
        exact ⟨iff_of_false (by omega) hle, fun h => absurd h hle⟩
    · have hsecond : r.minus (total - xs.sum) (r.accumulate 0 ys) < 0 := by
        apply r.minus_neg
        rcases le_or_gt ys.sum limit with h | h
        · rw [hley h]
          omega
        · have hlarge := hgty h
          omega
      have hneg := r.minus_neg (lt_of_lt_of_le hsecond hz)
      rw [hfirst]
      exact ⟨iff_of_false (by omega) (by omega), fun h => absurd h (by omega)⟩
  · have hfirst : r.minus total (r.accumulate 0 xs) < 0 := by
      apply r.minus_neg
      rcases le_or_gt xs.sum limit with h | h
      · rw [hlex h]
        omega
      · have hlarge := hgtx h
        omega
    have hsecond := r.minus_neg (lt_of_lt_of_le hfirst hy0)
    have hneg := r.minus_neg (lt_of_lt_of_le hsecond hz)
    exact ⟨iff_of_false (by omega) (by omega), fun h => absurd h (by omega)⟩

end Rounding
