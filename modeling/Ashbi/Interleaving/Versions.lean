import Mathlib.Data.Nat.Notation
import Mathlib.Logic.Function.Basic

/-! Rows with the versions that open transactions have written and not committed. A version
locks its row until its transaction ends. -/

namespace Interleaving

structure Versions (κ ρ : Type) where
  rows : κ → Option ρ
  written : κ → Option (ℕ × ρ)

namespace Versions

variable {κ ρ : Type} [DecidableEq κ] {v : Versions κ ρ} {i j : ℕ} {k : κ} {r : ρ}

/-- What thread `i` has written and not committed. -/
def mine (v : Versions κ ρ) (i : ℕ) (k : κ) : Option ρ :=
  ((v.written k).filter (·.1 = i)).map (·.2)

/-- The row as thread `i` sees it. -/
def read (v : Versions κ ρ) (i : ℕ) (k : κ) : Option ρ := (v.mine i k).or (v.rows k)

/-- Another transaction has written the row. -/
def locked (v : Versions κ ρ) (i : ℕ) (k : κ) : Bool := (v.written k).any (·.1 ≠ i)

def write (v : Versions κ ρ) (i : ℕ) (k : κ) (r : ρ) : Versions κ ρ :=
  { v with written := Function.update v.written k (some (i, r)) }

/-- A row that is written and committed at once. -/
def put (v : Versions κ ρ) (k : κ) (r : ρ) : Versions κ ρ :=
  { v with rows := Function.update v.rows k (some r) }

/-- Without the versions of thread `i`. -/
def rollback (v : Versions κ ρ) (i : ℕ) : Versions κ ρ :=
  { v with written := fun k => (v.written k).filter (·.1 ≠ i) }

def commit (v : Versions κ ρ) (i : ℕ) : Versions κ ρ := { v.rollback i with rows := v.read i }

/-- No version is waiting to be committed. -/
def Settled (v : Versions κ ρ) : Prop := ∀ k, v.written k = none

omit [DecidableEq κ] in
theorem mine_eq_some : v.mine i k = some r ↔ v.written k = some (i, r) := by
  unfold mine
  cases hk : v.written k with
  | none => simp
  | some version =>
    obtain ⟨j, r'⟩ := version
    by_cases hj : j = i
    · simp [hj]
    · simp [hj]

omit [DecidableEq κ] in
/-- One transaction at a time has a version of a row. -/
theorem mine_unique {r' : ρ} (h : v.mine i k = some r) (h' : v.mine j k = some r') : i = j := by
  rw [mine_eq_some] at h h'
  rw [h] at h'
  exact congrArg Prod.fst (Option.some.inj h')

omit [DecidableEq κ] in
theorem Settled.mine (h : v.Settled) : v.mine i k = none := by
  simp [Versions.mine, h k]

omit [DecidableEq κ] in
theorem Settled.locked (h : v.Settled) : v.locked i k = false := by
  simp [Versions.locked, h k]

omit [DecidableEq κ] in
theorem Settled.read (h : v.Settled) : v.read i k = v.rows k := by
  rw [Versions.read, h.mine, Option.none_or]

theorem written_write : (v.write i k r).written k = some (i, r) := Function.update_self ..

theorem written_write_of_ne {k' : κ} (h : k' ≠ k) : (v.write i k r).written k' = v.written k' :=
  Function.update_of_ne h ..

theorem mine_write : (v.write i k r).mine i = Function.update (v.mine i) k (some r) := by
  funext k'
  by_cases hk : k' = k
  · subst hk
    simp [mine, write]
  · simp [mine, write, hk]

/-- A write is nothing to the others while they do not hold the row. -/
theorem mine_write_other (hlock : v.locked i k = false) (hj : j ≠ i) :
    (v.write i k r).mine j = v.mine j := by
  funext k'
  by_cases hk : k' = k
  · subst hk
    have hnone : v.mine j k' = none := by
      rw [Option.eq_none_iff_forall_ne_some]
      intro r' hr'
      rw [mine_eq_some] at hr'
      simp [locked, hr', hj] at hlock
    rw [hnone]
    simp [mine, write, Ne.symm hj]
  · simp [mine, write, hk]

theorem mine_put : (v.put k r).mine i = v.mine i := rfl

theorem rows_put : (v.put k r).rows k = some r := Function.update_self ..

theorem rows_put_of_ne {k' : κ} (h : k' ≠ k) : (v.put k r).rows k' = v.rows k' :=
  Function.update_of_ne h ..

omit [DecidableEq κ] in
theorem mine_rollback : (v.rollback i).mine i k = none := by
  unfold mine rollback
  cases hk : v.written k with
  | none => simp [hk]
  | some version => simp [hk]

omit [DecidableEq κ] in
theorem mine_rollback_other (hj : j ≠ i) : (v.rollback i).mine j = v.mine j := by
  funext k
  unfold mine rollback
  cases hk : v.written k with
  | none => simp [hk]
  | some version =>
    by_cases hi : version.1 = i
    · simp [hk, Option.filter_some, hi, Ne.symm hj]
    · simp [hk, Option.filter_some, hi]

omit [DecidableEq κ] in
theorem mine_commit : (v.commit i).mine = (v.rollback i).mine := rfl

/-- What thread `i` wrote over its own versions goes with them. -/
theorem rollback_write (hlock : v.locked i k = false) :
    (v.write i k r).rollback i = v.rollback i := by
  unfold rollback write
  congr 1
  funext k'
  by_cases hk : k' = k
  · subst hk
    cases hw : v.written k' with
    | none => simp
    | some version =>
      obtain rfl : version.1 = i := by simpa [locked, hw] using hlock
      simp [Option.filter_some]
  · simp [hk]

omit [DecidableEq κ] in
theorem Settled.rollback (h : v.Settled) : v.rollback i = v := by
  obtain ⟨rows, written⟩ := v
  obtain rfl : written = fun _ => none := funext h
  rfl

theorem locked_write {k' : κ} (h : v.locked i k' = false) :
    (v.write i k r).locked i k' = false := by
  by_cases hk : k' = k
  · simp [locked, write, hk]
  · simpa [locked, write, hk] using h

theorem read_write : (v.write i k r).read i k = some r := by
  simp [read, mine_write]

/-! ### What a version becomes -/

theorem mine_write_eq_some {k' : κ} {r' : ρ} : (v.write i k r).mine j k' = some r' ↔
    k' = k ∧ j = i ∧ r' = r ∨ k' ≠ k ∧ v.mine j k' = some r' := by
  by_cases hk : k' = k
  · subst hk
    rw [mine_eq_some, written_write]
    simp [eq_comm]
  · simp [mine_eq_some, written_write_of_ne hk, hk]

omit [DecidableEq κ] in
theorem mine_rollback_eq_some : (v.rollback i).mine j k = some r ↔ j ≠ i ∧ v.mine j k = some r := by
  by_cases hj : j = i
  · subst hj
    simp [mine_rollback]
  · simp [mine_rollback_other hj, hj]

omit [DecidableEq κ] in
theorem mine_commit_eq_some : (v.commit i).mine j k = some r ↔ j ≠ i ∧ v.mine j k = some r := by
  rw [mine_commit, mine_rollback_eq_some]

omit [DecidableEq κ] in
/-- A committed row was written by the transaction, or was there before and not written. -/
theorem rows_commit_eq_some : (v.commit i).rows k = some r ↔
    v.mine i k = some r ∨ v.mine i k = none ∧ v.rows k = some r := by
  simp only [commit, read, Option.or_eq_some_iff]

omit [DecidableEq κ] in
theorem rows_commit_eq_none : (v.commit i).rows k = none ↔
    v.mine i k = none ∧ v.rows k = none := by
  simp only [commit, read, Option.or_eq_none_iff]

omit [DecidableEq κ] in
theorem mine_eq_none (h : v.written k = none) : v.mine i k = none := by
  simp [mine, h]

omit [DecidableEq κ] in
/-- The others have no version of a row that a transaction has written. -/
theorem mine_eq_none_of_ne (h : v.mine j k = some r) (hj : j ≠ i) : v.mine i k = none := by
  rw [Option.eq_none_iff_forall_ne_some]
  exact fun r' hr' => hj (mine_unique h hr')

omit [DecidableEq κ] in
/-- A row that a thread sees is its own version, or the committed one. -/
theorem read_eq_some : v.read i k = some r ↔
    v.mine i k = some r ∨ v.mine i k = none ∧ v.rows k = some r := by
  rw [read, Option.or_eq_some_iff]

/-! ### Rows and versions together -/

/-- A committed row, or a version that waits to be. -/
def Has (v : Versions κ ρ) (k : κ) (r : ρ) : Prop := v.rows k = some r ∨ ∃ i, v.mine i k = some r

omit [DecidableEq κ] in
theorem has_of_read (h : v.read i k = some r) : v.Has k r := by
  rcases read_eq_some.mp h with hmine | ⟨-, hrow⟩
  · exact .inr ⟨i, hmine⟩
  · exact .inl hrow

theorem Has.of_write {k' : κ} {r' : ρ} (h : (v.write i k r).Has k' r') :
    k' = k ∧ r' = r ∨ v.Has k' r' := by
  rcases h with hrow | ⟨j, hmine⟩
  · exact .inr (.inl hrow)
  · rcases mine_write_eq_some.mp hmine with ⟨hk, -, hr⟩ | ⟨-, hmine⟩
    · exact .inl ⟨hk, hr⟩
    · exact .inr (.inr ⟨j, hmine⟩)

omit [DecidableEq κ] in
theorem Has.of_rollback (h : (v.rollback i).Has k r) : v.Has k r := by
  rcases h with hrow | ⟨j, hmine⟩
  · exact .inl hrow
  · exact .inr ⟨j, (mine_rollback_eq_some.mp hmine).2⟩

omit [DecidableEq κ] in
theorem Has.of_commit (h : (v.commit i).Has k r) : v.Has k r := by
  rcases h with hrow | ⟨j, hmine⟩
  · exact has_of_read hrow
  · exact .inr ⟨j, (mine_commit_eq_some.mp hmine).2⟩

end Versions

end Interleaving
