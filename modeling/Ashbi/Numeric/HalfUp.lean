import Mathlib.Algebra.BigOperators.Group.List.Basic
import Mathlib.Algebra.Order.Floor.Ring
import Mathlib.Algebra.Order.Round
import Mathlib.Data.Rat.Floor
import Mathlib.Tactic.FieldSimp
import Mathlib.Tactic.Linarith
import Mathlib.Tactic.Positivity
import Mathlib.Tactic.Ring

/-! Rounding half up: to the multiples of `1 / n`, compared with a tolerance, and quotients of
integers. -/

namespace Grid

/-- `q` is a whole number of steps of `1 / n`. -/
def On (n : ℕ) (q : ℚ) : Prop := ∃ k : ℤ, q = k / n

/-- The nearest multiple of `1 / n`, halves up. -/
def near (n : ℕ) (q : ℚ) : ℚ := round (q * n) / n

variable {n : ℕ} {p q : ℚ}

theorem on_near (q : ℚ) : On n (near n q) := ⟨round (q * n), rfl⟩

theorem On.zero : On n 0 := ⟨0, by simp⟩

theorem On.add (hp : On n p) (hq : On n q) : On n (p + q) := by
  obtain ⟨a, rfl⟩ := hp
  obtain ⟨b, rfl⟩ := hq
  exact ⟨a + b, by push_cast; ring⟩

theorem On.sub (hp : On n p) (hq : On n q) : On n (p - q) := by
  obtain ⟨a, rfl⟩ := hp
  obtain ⟨b, rfl⟩ := hq
  exact ⟨a - b, by push_cast; ring⟩

theorem On.max (hp : On n p) (hq : On n q) : On n (max p q) := by
  rcases le_total p q with h | h
  · rwa [max_eq_right h]
  · rwa [max_eq_left h]

theorem On.sum {l : List ℚ} (h : ∀ q ∈ l, On n q) : On n l.sum := by
  induction l with
  | nil => simpa using On.zero
  | cons q l ih =>
    simp only [List.mem_cons, forall_eq_or_imp] at h
    simpa using h.1.add (ih h.2)

theorem near_of_on [NeZero n] (h : On n q) : near n q = q := by
  obtain ⟨k, rfl⟩ := h
  have hn : (n : ℚ) ≠ 0 := Nat.cast_ne_zero.mpr (NeZero.ne n)
  have hk : (k : ℚ) / n * n = k := by field_simp
  rw [near, hk, round_intCast]

theorem near_zero : near n 0 = 0 := by simp [near]

theorem near_mono (h : p ≤ q) : near n p ≤ near n q := by
  have hmul : p * n ≤ q * n := by gcongr
  have hround : round (p * n) ≤ round (q * n) := by
    simp only [round_eq]
    apply Int.floor_mono
    linarith
  have hcast : (round (p * n) : ℚ) ≤ round (q * n) := by exact_mod_cast hround
  unfold near
  gcongr

theorem near_nonneg (h : 0 ≤ q) : 0 ≤ near n q := by
  have hmono := near_mono (n := n) h
  rwa [near_zero] at hmono

/-- On the grid, less than one step above is not above. -/
theorem On.le_of_lt_add [NeZero n] (hp : On n p) (hq : On n q) (h : p < q + 1 / n) : p ≤ q := by
  obtain ⟨a, rfl⟩ := hp
  obtain ⟨b, rfl⟩ := hq
  have hn : (0 : ℚ) < n := Nat.cast_pos.mpr (NeZero.pos n)
  have hsum : (b : ℚ) / n + 1 / n = (b + 1) / n := by ring
  rw [hsum, div_lt_div_iff_of_pos_right hn] at h
  have hlt : a < b + 1 := by exact_mod_cast h
  have hle : (a : ℚ) ≤ b := by exact_mod_cast Int.lt_add_one_iff.mp hlt
  gcongr

end Grid

/-! ### Quotients of integers -/

namespace HalfUp

/-- `n / d`, rounded half up. -/
def half (n d : ℤ) : ℤ := (n * 2 + d) / (d * 2)

variable {n m d : ℤ}

theorem half_mono (hd : 0 < d) (h : n ≤ m) : half n d ≤ half m d :=
  Int.ediv_le_ediv (by omega) (by omega)

theorem half_zero (hd : 0 < d) : half 0 d = 0 := by
  unfold half
  apply Int.ediv_eq_zero_of_lt <;> omega

theorem half_add_mul (hd : 0 < d) (n m : ℤ) : half (n + m * d) d = half n d + m := by
  unfold half
  rw [show (n + m * d) * 2 + d = n * 2 + d + m * (d * 2) by ring]
  exact Int.add_mul_ediv_right _ _ (by omega)

theorem half_mul (hd : 0 < d) (m : ℤ) : half (m * d) d = m := by
  have h := half_add_mul hd 0 m
  rwa [zero_add, half_zero hd, zero_add] at h

/-- A quotient that is at most an integer stays so. -/
theorem half_le (hd : 0 < d) (h : n ≤ m * d) : half n d ≤ m := by
  rw [← half_mul hd m]
  exact half_mono hd h

theorem le_half (hd : 0 < d) (h : m * d ≤ n) : m ≤ half n d := by
  rw [← half_mul hd m]
  exact half_mono hd h

theorem half_nonneg (hd : 0 < d) (h : 0 ≤ n) : 0 ≤ half n d :=
  le_half hd (by rwa [zero_mul])

/-! ### Shares of a whole -/

/-- The share of a part grows with the part, and by no more than it. -/
theorem share_step {part total before more : ℤ} (htotal : 0 < total) (hpart : 0 ≤ part)
    (hle : part ≤ total) (hmore : 0 ≤ more) :
    0 ≤ half (part * (before + more)) total - half (part * before) total ∧
      half (part * (before + more)) total - half (part * before) total ≤ more := by
  have hlow : part * before ≤ part * (before + more) := by nlinarith
  have hhigh : part * (before + more) ≤ part * before + more * total := by nlinarith
  have h₁ := half_mono htotal hlow
  have h₂ := half_mono htotal hhigh
  rw [half_add_mul htotal] at h₂
  omega

/-- A part of a whole that is the sum of `kept` and `other` splits in the proportion of the two,
and takes at most all of either. -/
theorem split_bounds {part whole other : ℤ} (hpart : 0 ≤ part) (hle : part ≤ whole)
    (hwhole : 0 < whole) (hother : 0 ≤ other) (hrest : other ≤ whole) :
    0 ≤ half (part * other) whole ∧ half (part * other) whole ≤ other ∧
      half (part * other) whole ≤ part ∧ part - half (part * other) whole ≤ whole - other := by
  refine ⟨half_nonneg hwhole (by positivity), half_le hwhole ?_, half_le hwhole ?_, ?_⟩
  · nlinarith
  · nlinarith
  · have hlow : part - (whole - other) ≤ half (part * other) whole := by
      apply le_half hwhole
      nlinarith [mul_nonneg (sub_nonneg.mpr hle) (sub_nonneg.mpr hrest)]
    omega

/-! ### Cumulative shares -/

/-- The differences of the rounded cumulative sums of some amounts, times `n` in `d`. -/
def differences (n d : ℤ) : ℤ → List ℤ → List ℤ
  | _, [] => []
  | before, amount :: rest =>
    (half (n * (before + amount)) d - half (n * before) d) :: differences n d (before + amount) rest

/-- Differences sum to the last sum. -/
theorem sum_differences (n d : ℤ) (before : ℤ) (amounts : List ℤ) :
    (differences n d before amounts).sum =
      half (n * (before + amounts.sum)) d - half (n * before) d := by
  induction amounts generalizing before with
  | nil => simp [differences]
  | cons amount rest ih =>
    rw [differences, List.sum_cons, ih, List.sum_cons, add_assoc]
    ring

end HalfUp
