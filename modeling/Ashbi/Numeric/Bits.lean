import Mathlib.Data.BitVec
import Mathlib.Data.List.Basic

/-! Words as runs of bits, the most significant bit first. -/

namespace Bits

variable {w w' : ℕ}

/-- The lowest `n` bits. -/
def low : ℕ → BitVec w → List Bool
  | 0, _ => []
  | n + 1, v => v.getLsbD n :: low n v

theorem low_nil (v : BitVec w) : low 0 v = [] := rfl

theorem low_succ (n : ℕ) (v : BitVec w) : low (n + 1) v = v.getLsbD n :: low n v := rfl

@[simp] theorem length_low (n : ℕ) (v : BitVec w) : (low n v).length = n := by
  induction n with
  | zero => rfl
  | succ n ih => simp [low_succ, ih]

theorem low_zero (n : ℕ) : low n (0 : BitVec w) = List.replicate n false := by
  induction n with
  | zero => rfl
  | succ n ih => simp [low_succ, List.replicate_succ, ← ih]

theorem low_eq_iff {n : ℕ} {v : BitVec w} {u : BitVec w'} :
    low n v = low n u ↔ ∀ i < n, v.getLsbD i = u.getLsbD i := by
  induction n with
  | zero => simp [low_nil]
  | succ n ih =>
    simp only [low_succ, List.cons.injEq, ih, Nat.lt_succ_iff_lt_or_eq]
    constructor
    · rintro ⟨hn, h⟩ i (hi | rfl)
      · exact h i hi
      · exact hn
    · intro h
      exact ⟨h n (.inr rfl), fun i hi => h i (.inl hi)⟩

theorem low_setWidth {n m : ℕ} (v : BitVec w) (h : n ≤ m) : low n (v.setWidth m) = low n v := by
  refine low_eq_iff.mpr fun i hi => ?_
  simp only [BitVec.getLsbD_setWidth, Nat.lt_of_lt_of_le hi h, decide_true, Bool.true_and]

/-- The bits above the lowest `m`, then the lowest `m`. -/
theorem low_add (n m : ℕ) (v : BitVec w) : low (n + m) v = low n (v >>> m) ++ low m v := by
  induction n with
  | zero => simp [low_nil]
  | succ n ih =>
    rw [Nat.add_right_comm, low_succ, ih]
    simp [low_succ, Nat.add_comm]

/-- Bits shifted out at the top are not among the lowest. -/
theorem low_feed {n k : ℕ} (v x : BitVec w) (hw : n + k ≤ w)
    (hx : ∀ i, k ≤ i → x.getLsbD i = false) :
    low (n + k) (v <<< k ||| x) = low n v ++ low k x := by
  rw [low_add]
  congr 1
  · refine low_eq_iff.mpr fun i hi => ?_
    have hx' := hx (k + i) (by omega)
    simp only [BitVec.getLsbD_ushiftRight, BitVec.getLsbD_or, BitVec.getLsbD_shiftLeft, hx']
    simp
    omega
  · refine low_eq_iff.mpr fun i hi => ?_
    simp [hi]

/-- Blocks of one length are read back from their concatenation. -/
theorem flatMap_injective {α : Type*} {f : α → List Bool} {k : ℕ} (hk : 0 < k)
    (hlength : ∀ a, (f a).length = k) (hf : Function.Injective f) :
    Function.Injective (List.flatMap f) := by
  intro xs
  induction xs with
  | nil =>
    intro ys h
    cases ys with
    | nil => rfl
    | cons y ys =>
      have := congrArg List.length h
      simp [hlength] at this
      omega
  | cons x xs ih =>
    intro ys h
    cases ys with
    | nil =>
      have := congrArg List.length h
      simp [hlength] at this
      omega
    | cons y ys =>
      simp only [List.flatMap_cons] at h
      obtain ⟨hhead, htail⟩ := List.append_inj h (by simp [hlength])
      rw [hf hhead, ih htail]

theorem length_flatMap {α : Type*} {f : α → List Bool} {k : ℕ} (hlength : ∀ a, (f a).length = k)
    (xs : List α) : (xs.flatMap f).length = k * xs.length := by
  induction xs with
  | nil => rfl
  | cons x xs ih =>
    simp only [List.flatMap_cons, List.length_append, ih, hlength, List.length_cons]
    rw [Nat.mul_add, Nat.mul_one, Nat.add_comm]

end Bits
