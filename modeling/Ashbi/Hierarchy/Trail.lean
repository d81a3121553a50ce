import Mathlib.Data.List.Nodup

/-! Walks from a row of a table up to one without a parent. -/

namespace Hierarchy

variable {κ ρ : Type}

/-- A table of rows that name their parent by its key. -/
structure Tree (κ ρ : Type) where
  row : κ → Option ρ
  key : ρ → κ
  parent : ρ → Option κ

/-- Rows are stored under their own key. -/
def Tree.Keyed (t : Tree κ ρ) : Prop := ∀ k r, t.row k = some r → t.key r = k

/-- The rows from `k` up to one without a parent. -/
inductive Trail (t : Tree κ ρ) : κ → List ρ → Prop
  | root {k : κ} {r : ρ} (h : t.row k = some r) (hp : t.parent r = none) : Trail t k [r]
  | child {k p : κ} {r : ρ} {l : List ρ} (h : t.row k = some r) (hp : t.parent r = some p)
      (hl : Trail t p l) : Trail t k (r :: l)

/-- At most so many rows, up to one without a parent, a missing one or one met before. -/
def Tree.climb [DecidableEq κ] (t : Tree κ ρ) : ℕ → List κ → κ → List ρ
  | 0, _, _ => []
  | n + 1, seen, k =>
    match t.row k with
    | none => []
    | some r =>
      if seen.contains (t.key r) then []
      else
        match t.parent r with
        | none => [r]
        | some p => r :: t.climb n (t.key r :: seen) p

namespace Trail

variable {t t' : Tree κ ρ} {k p : κ} {r : ρ} {l l' : List ρ}

theorem ne_nil (h : Trail t k l) : l ≠ [] := by cases h <;> simp

theorem unique (h : Trail t k l) (h' : Trail t k l') : l = l' := by
  induction h generalizing l' with
  | root hr hp =>
    cases h' with
    | root hr' hp' => rw [Option.some.inj (hr.symm.trans hr')]
    | child hr' hp' =>
      obtain rfl := Option.some.inj (hr.symm.trans hr')
      rw [hp] at hp'
      cases hp'
  | child hr hp _ ih =>
    cases h' with
    | root hr' hp' =>
      obtain rfl := Option.some.inj (hr.symm.trans hr')
      rw [hp] at hp'
      cases hp'
    | child hr' hp' hl' =>
      obtain rfl := Option.some.inj (hr.symm.trans hr')
      obtain rfl := Option.some.inj (hp.symm.trans hp')
      rw [ih hl']

/-- The trail of a row on a trail is the rest of that. -/
theorem of_append (ht : t.Keyed) {l₁ l₂ : List ρ} (h : Trail t k (l₁ ++ r :: l₂)) :
    Trail t (t.key r) (r :: l₂) := by
  induction l₁ generalizing k with
  | nil =>
    cases h with
    | root hr hp => exact .root ((ht _ _ hr).symm ▸ hr) hp
    | child hr hp hl => exact .child ((ht _ _ hr).symm ▸ hr) hp hl
  | cons q rest ih =>
    cases hrest : rest ++ r :: l₂ with
    | nil => simp at hrest
    | cons q' rest' =>
      rw [List.cons_append, hrest] at h
      cases h with
      | child hr hp hl => exact ih (hrest ▸ hl)

theorem row_of_mem (ht : t.Keyed) (h : Trail t k l) (hr : r ∈ l) :
    t.row (t.key r) = some r := by
  obtain ⟨l₁, l₂, rfl⟩ := List.append_of_mem hr
  cases h.of_append ht <;> assumption

theorem head_row (h : Trail t k (r :: l)) : t.row k = some r := by
  cases h <;> assumption

theorem above (h : Trail t k (r :: l)) (hp : t.parent r = some p) : Trail t p l := by
  cases h with
  | root _ hroot =>
    rw [hroot] at hp
    cases hp
  | child _ hp' hl =>
    obtain rfl := Option.some.inj (hp'.symm.trans hp)
    exact hl

/-- The parent of a row on a trail is on it as well. -/
theorem parent_mem (ht : t.Keyed) (h : Trail t k l) (hr : r ∈ l) (hp : t.parent r = some p) :
    ∃ q ∈ l, t.key q = p := by
  obtain ⟨l₁, l₂, rfl⟩ := List.append_of_mem hr
  have hl := (h.of_append ht).above hp
  obtain ⟨q, rest, rfl⟩ := List.exists_cons_of_ne_nil hl.ne_nil
  exact ⟨q, by simp, ht _ _ hl.head_row⟩

/-- No row comes twice. -/
theorem nodup (ht : t.Keyed) (h : Trail t k l) : (l.map t.key).Nodup := by
  induction h with
  | root => simp
  | @child k p r l hr hp hl ih =>
    rw [List.map_cons, List.nodup_cons]
    refine ⟨fun hmem => ?_, ih⟩
    obtain ⟨q, hq, hkey⟩ := List.mem_map.mp hmem
    obtain ⟨l₁, l₂, rfl⟩ := List.append_of_mem hq
    have hsame := (hl.of_append ht).unique (hkey ▸ (ht k r hr).symm ▸ Trail.child hr hp hl)
    have hlen := congrArg List.length hsame
    simp only [List.length_cons, List.length_append] at hlen
    omega

/-- Only the rows on a trail matter to it. -/
theorem congr (h : Trail t k l) (hrow : ∀ k r, t.row k = some r → r ∈ l → t'.row k = some r)
    (hparent : t'.parent = t.parent) : Trail t' k l := by
  induction h with
  | root hr hp => exact .root (hrow _ _ hr List.mem_cons_self) (by rw [hparent, hp])
  | child hr hp _ ih =>
    exact .child (hrow _ _ hr List.mem_cons_self) (by rw [hparent, hp])
      (ih fun k r hk hm => hrow k r hk (List.mem_cons_of_mem _ hm))

/-- Above one row of the trail, another trail goes on. -/
theorem graft {l₁ l₂ m : List ρ} (h : Trail t k (l₁ ++ r :: l₂)) (ht : t.Keyed)
    (hrow : ∀ k q, t.row k = some q → q ∈ l₁ → t'.row k = some q)
    (hparent : t'.parent = t.parent) (hm : Trail t' (t.key r) m) : Trail t' k (l₁ ++ m) := by
  induction l₁ generalizing k with
  | nil =>
    have hkey : t.key r = k := ht _ _ h.head_row
    exact hkey ▸ hm
  | cons q rest ih =>
    cases hrest : rest ++ r :: l₂ with
    | nil => simp at hrest
    | cons q' rest' =>
      rw [List.cons_append, hrest] at h
      cases h with
      | child hr hp hl =>
        refine .child (hrow _ _ hr List.mem_cons_self) (by rw [hparent, hp]) ?_
        exact ih (hrest ▸ hl) fun k q hk hm => hrow k q hk (List.mem_cons_of_mem _ hm)

variable [DecidableEq κ]

/-- A walk with room for the whole trail finds it. -/
theorem climb_eq (ht : t.Keyed) (h : Trail t k l) {n : ℕ} {seen : List κ} (hlen : l.length ≤ n)
    (hseen : ∀ r ∈ l, t.key r ∉ seen) : t.climb n seen k = l := by
  induction h generalizing n seen with
  | root hr hp =>
    obtain ⟨n, rfl⟩ : ∃ m, n = m + 1 := ⟨n - 1, by simp at hlen; omega⟩
    have hnew := hseen _ List.mem_cons_self
    simp [Tree.climb, hr, hp, hnew]
  | @child k p r l hr hp hl ih =>
    obtain ⟨n, rfl⟩ : ∃ m, n = m + 1 := ⟨n - 1, by simp at hlen; omega⟩
    have hnew := hseen _ List.mem_cons_self
    have hnodup := (Trail.child hr hp hl).nodup ht
    rw [List.map_cons, List.nodup_cons] at hnodup
    have hrest := @ih n (t.key r :: seen) (by simpa using hlen) fun q hq => by
      rw [List.mem_cons, not_or]
      refine ⟨fun he => hnodup.1 (he ▸ List.mem_map_of_mem hq), ?_⟩
      exact hseen q (List.mem_cons_of_mem _ hq)
    simp [Tree.climb, hr, hp, hnew, hrest]

/-- A walk that ends at a row without a parent is a trail. -/
theorem of_climb {n : ℕ} {seen : List κ} {l : List ρ} (h : t.climb n seen k = l)
    (hend : ∃ r, l.getLast? = some r ∧ t.parent r = none) : Trail t k l := by
  induction n generalizing k seen l with
  | zero =>
    obtain ⟨r, hr, -⟩ := hend
    subst h
    cases hr
  | succ n ih =>
    obtain ⟨q, hq, hroot⟩ := hend
    simp only [Tree.climb] at h
    split at h
    · subst h; cases hq
    rename_i r hrow
    split at h
    · subst h; cases hq
    split at h
    · rename_i hp
      subst h
      exact .root hrow hp
    · rename_i p hp
      subst h
      refine .child hrow hp (ih rfl ?_)
      cases hrest : t.climb n (t.key r :: seen) p with
      | nil =>
        simp only [hrest, List.getLast?_singleton, Option.some.injEq] at hq
        subst hq
        rw [hroot] at hp
        cases hp
      | cons q' rest =>
        refine ⟨q, ?_, hroot⟩
        rwa [hrest, List.getLast?_cons_cons] at hq

end Trail

/-- The key that so many steps up lead to. -/
def Tree.up (t : Tree κ ρ) : ℕ → κ → Option κ
  | 0, k => some k
  | n + 1, k => ((t.row k).bind t.parent).bind (t.up n)

/-- A trail passes the row that the steps up led to while only that row was another one. -/
theorem Trail.through {t t' : Tree κ ρ} {j : ℕ} {k a : κ} {l : List ρ} (h : Trail t' k l)
    (hrow : ∀ b, b ≠ a → t'.row b = t.row b) (hparent : t'.parent = t.parent)
    (hup : t.up j k = some a) : ∃ l₁ r l₂, l = l₁ ++ r :: l₂ ∧ t'.row a = some r := by
  induction j generalizing k l with
  | zero =>
    obtain rfl := Option.some.inj hup
    obtain ⟨r, rest, rfl⟩ := List.exists_cons_of_ne_nil h.ne_nil
    exact ⟨[], r, rest, rfl, h.head_row⟩
  | succ j ih =>
    by_cases hk : k = a
    · subst hk
      obtain ⟨r, rest, rfl⟩ := List.exists_cons_of_ne_nil h.ne_nil
      exact ⟨[], r, rest, rfl, h.head_row⟩
    simp only [Tree.up, Option.bind_eq_some_iff] at hup
    obtain ⟨p, ⟨r, hr, hp⟩, hup⟩ := hup
    obtain ⟨r', rest, rfl⟩ := List.exists_cons_of_ne_nil h.ne_nil
    obtain rfl := Option.some.inj (h.head_row.symm.trans ((hrow k hk).trans hr))
    obtain ⟨l₁, q, l₂, rfl, hq⟩ := ih (h.above (by rw [hparent, hp])) hup
    exact ⟨r' :: l₁, q, l₂, rfl, hq⟩

/-- Two tables that agree on the rows in reach are walked the same way. -/
theorem Tree.climb_congr [DecidableEq κ] {t t' : Tree κ ρ} (hkey : t'.key = t.key)
    (hparent : t'.parent = t.parent) {n : ℕ} {seen : List κ} {k : κ}
    (hrow : ∀ j < n, ∀ a, t.up j k = some a → t'.row a = t.row a) :
    t'.climb n seen k = t.climb n seen k := by
  induction n generalizing seen k with
  | zero => rfl
  | succ n ih =>
    have hhere := hrow 0 (Nat.succ_pos n) k rfl
    simp only [Tree.climb, hhere, hkey, hparent]
    cases hr : t.row k with
    | none => rfl
    | some r =>
      cases hp : t.parent r with
      | none => simp only [hp]
      | some p =>
        have habove : ∀ seen, t'.climb n seen p = t.climb n seen p := fun seen => ih
          fun j hj a ha => hrow (j + 1) (Nat.succ_lt_succ hj) a (by
            simpa [Tree.up, hr, hp] using ha)
        simp only [hp, habove]

end Hierarchy
