import Mathlib.Algebra.BigOperators.Group.List.Basic
import Mathlib.Data.List.Dedup
import Mathlib.Data.List.Induction
import Mathlib.Data.List.Nodup
import Mathlib.Data.List.Perm.Subperm

/-! Rows of a table: grouped by a key, with sums over the groups, and found by a unique key. -/

namespace Keyed

variable {ρ κ M : Type} [DecidableEq κ] [AddCommMonoid M] {key : ρ → κ}

/-- `GROUP BY` the key: each key with its rows. -/
def groups (key : ρ → κ) (rows : List ρ) : List (κ × List ρ) :=
  (rows.map key).dedup.map fun k => (k, rows.filter fun r => key r = k)

variable {rows : List ρ} {k : κ} {r : ρ}

/-- The row under a key. -/
def find (key : ρ → κ) (rows : List ρ) (k : κ) : Option ρ := rows.find? fun r => key r = k

theorem find_key (h : find key rows k = some r) : key r = k := by
  simpa using List.find?_some h

theorem find_mem (h : find key rows k = some r) : r ∈ rows := List.mem_of_find?_eq_some h

theorem find_none : find key rows k = none ↔ ∀ r ∈ rows, key r ≠ k := by
  simp [find, List.find?_eq_none]

theorem find_isSome : (find key rows k).isSome = true ↔ k ∈ rows.map key := by
  simp [find]

theorem find_of_mem (hunique : (rows.map key).Nodup) (h : r ∈ rows) :
    find key rows (key r) = some r := by
  cases hfind : find key rows (key r) with
  | none => exact absurd rfl (find_none.mp hfind r h)
  | some other =>
    rw [List.inj_on_of_nodup_map hunique (find_mem hfind) h (find_key hfind)]

theorem find_iff (hunique : (rows.map key).Nodup) :
    find key rows k = some r ↔ r ∈ rows ∧ key r = k := by
  constructor
  · exact fun h => ⟨find_mem h, find_key h⟩
  · rintro ⟨h, rfl⟩
    exact find_of_mem hunique h

/-- A search by key and a condition is a search by key, of which the condition is asked. -/
theorem find_and (hunique : (rows.map key).Nodup) (p : ρ → Bool) :
    (rows.find? fun r => key r = k && p r) = (find key rows k).filter p := by
  cases hrow : find key rows k with
  | none =>
    simp only [Option.filter_none, List.find?_eq_none, Bool.and_eq_true, decide_eq_true_eq]
    exact fun r hr h => find_none.mp hrow r hr h.1
  | some r =>
    have hkey := find_key hrow
    cases hfind : rows.find? fun r => key r = k && p r with
    | none =>
      rw [List.find?_eq_none] at hfind
      have hp := hfind r (find_mem hrow)
      simp only [hkey, decide_true, Bool.true_and] at hp
      simp [Option.filter, hp]
    | some other =>
      have hother := List.find?_some hfind
      simp only [Bool.and_eq_true, decide_eq_true_eq] at hother
      have hsame := (find_iff hunique).mpr ⟨List.mem_of_find?_eq_some hfind, hother.1⟩
      obtain rfl := Option.some.inj (hrow.symm.trans hsame)
      simp [Option.filter, hother.2]

/-- Rows of one key are one row. -/
theorem filter_key (hunique : (rows.map key).Nodup) (k : κ) :
    rows.filter (fun r => key r = k) = (find key rows k).toList := by
  induction rows with
  | nil => rfl
  | cons r rows ih =>
    obtain ⟨hnew, hrest⟩ := List.nodup_cons.mp hunique
    by_cases hk : key r = k
    · subst hk
      have hnone : rows.filter (fun q => key q = key r) = [] := by
        rw [List.filter_eq_nil_iff]
        intro q hq hkey
        exact hnew (List.mem_map.mpr ⟨q, hq, of_decide_eq_true hkey⟩)
      simp [find, hnone]
    · have hfind : find key (r :: rows) k = find key rows k := by simp [find, hk]
      rw [hfind, ← ih hrest, List.filter_cons_of_neg (by simpa using hk)]

theorem count_and (hunique : (rows.map key).Nodup) (p : ρ → Bool) :
    rows.countP (fun r => key r = k && p r) = if (find key rows k).any p then 1 else 0 := by
  rw [List.countP_eq_length_filter, ← List.filter_filter, List.filter_comm, filter_key hunique]
  cases find key rows k with
  | none => rfl
  | some r => by_cases hp : p r = true <;> simp [hp]

/-- A change of the rows under a key where a condition holds is a change of the row, or none. -/
theorem map_and (hunique : (rows.map key).Nodup) (p : ρ → Bool) (f : ρ → ρ) :
    (rows.map fun r => if key r = k && p r then f r else r) =
      if (find key rows k).any p then rows.map fun r => if key r = k then f r else r
      else rows := by
  have hrow : ∀ r ∈ rows, key r = k → (find key rows k).any p = p r := by
    rintro r hr rfl
    rw [find_of_mem hunique hr]
    rfl
  split
  · rename_i hany
    apply List.map_congr_left
    intro r hr
    by_cases hk : key r = k
    · simp [hk, ← hrow r hr hk, hany]
    · simp [hk]
  · rename_i hany
    have hsame : ∀ r ∈ rows, (if key r = k && p r then f r else r) = r := by
      intro r hr
      rw [if_neg]
      intro hboth
      simp only [Bool.and_eq_true, decide_eq_true_eq] at hboth
      exact hany (hrow r hr hboth.1 ▸ hboth.2)
    exact (List.map_congr_left hsame).trans (List.map_id' rows)

section Map

variable {f : ρ → ρ} (hf : ∀ r, key (f r) = key r)
include hf

theorem find_map (rows : List ρ) (k : κ) : find key (rows.map f) k = (find key rows k).map f := by
  simp only [find, List.find?_map]
  congr 2
  funext r
  simp [hf]

omit [DecidableEq κ] in
theorem keys_map (rows : List ρ) : (rows.map f).map key = rows.map key := by
  simp [List.map_map, Function.comp_def, hf]

/-- A change of the row under one key. -/
theorem find_update (rows : List ρ) (k k' : κ) :
    find key (rows.map fun r => if key r = k then f r else r) k' =
      (find key rows k').map fun r => if k' = k then f r else r := by
  rw [find_map fun r => by split <;> simp [hf]]
  cases hrow : find key rows k' with
  | none => rfl
  | some r => simp [find_key hrow]

end Map

/-- A row with a new key at the end of the table. -/
theorem find_append (hnew : find key rows (key r) = none) (k : κ) :
    find key (rows ++ [r]) k = if k = key r then some r else find key rows k := by
  simp only [find, List.find?_append, List.find?_cons, List.find?_nil]
  by_cases hk : k = key r
  · subst hk
    have hnone : rows.find? (fun x => key x = key r) = none := hnew
    simp [hnone]
  · have hne : key r ≠ k := fun h => hk h.symm
    simp [hk, hne]

/-- As many rows as keys are asked for. -/
theorem length_filter_le (hunique : (rows.map key).Nodup) (batch : List κ) (p : ρ → Bool) :
    (rows.filter fun r => batch.contains (key r) && p r).length ≤ batch.length := by
  have hnodup : ((rows.filter fun r => batch.contains (key r) && p r).map key).Nodup :=
    hunique.sublist (List.filter_sublist.map _)
  have hsub : (rows.filter fun r => batch.contains (key r) && p r).map key ⊆ batch := by
    intro k hk
    obtain ⟨r, hr, rfl⟩ := List.mem_map.mp hk
    have hin := (List.mem_filter.mp hr).2
    simp only [Bool.and_eq_true, List.contains_eq_mem, decide_eq_true_eq] at hin
    exact hin.1
  have hle := (List.subperm_of_subset hnodup hsub).length_le
  rwa [List.length_map] at hle

/-! ### Maps -/

/-- `map.set` of a map from the keys: in the place of the row under the key, or at the end. -/
def put (key : ρ → κ) (rows : List ρ) (row : ρ) : List ρ :=
  if (find key rows (key row)).isSome then rows.map fun r => if key r = key row then row else r
  else rows ++ [row]

theorem find_put (rows : List ρ) (row : ρ) (k : κ) :
    find key (put key rows row) k = if k = key row then some row else find key rows k := by
  rw [put]
  split
  · rename_i hsome
    obtain ⟨old, hold⟩ := Option.isSome_iff_exists.mp hsome
    have hkeep : ∀ r, key (if key r = key row then row else r) = key r := by
      intro r
      split
      · rename_i hk
        exact hk.symm
      · rfl
    rw [find_map hkeep]
    by_cases hk : k = key row
    · subst hk
      simp [hold, find_key hold]
    · cases hrow : find key rows k with
      | none => simp [hk]
      | some r => simp [hk, find_key hrow]
  · rename_i hnone
    exact find_append (Option.not_isSome_iff_eq_none.mp hnone) k

theorem nodup_put (hunique : (rows.map key).Nodup) (row : ρ) :
    ((put key rows row).map key).Nodup := by
  rw [put]
  split
  · have hkeys : (rows.map fun r => if key r = key row then row else r).map key = rows.map key := by
      rw [List.map_map]
      apply List.map_congr_left
      intro r _
      by_cases hk : key r = key row <;> simp [hk]
    rwa [hkeys]
  · rename_i hnone
    rw [List.map_append, List.map_singleton, ← List.concat_eq_append, List.nodup_concat]
    exact ⟨fun hmem => hnone (find_isSome.mpr hmem), hunique⟩

/-- The rows of a map that rows are put into one after the other. -/
def merged (key : ρ → κ) (rows : List ρ) : List ρ := rows.foldl (put key) []

theorem merged_concat (rows : List ρ) (row : ρ) :
    merged key (rows ++ [row]) = put key (merged key rows) row := by
  rw [merged, List.foldl_append]
  rfl

theorem nodup_merged (rows : List ρ) : ((merged key rows).map key).Nodup := by
  induction rows using List.reverseRecOn with
  | nil => exact List.nodup_nil
  | append_singleton rows row ih =>
    rw [merged_concat]
    exact nodup_put ih row

/-- Rows of one key are the same. -/
def Consistent (key : ρ → κ) (rows : List ρ) : Prop :=
  ∀ a ∈ rows, ∀ b ∈ rows, key a = key b → a = b

omit [DecidableEq κ] in
theorem Consistent.subset {rows' : List ρ} (h : Consistent key rows) (hsub : rows' ⊆ rows) :
    Consistent key rows' :=
  fun a ha b hb => h a (hsub ha) b (hsub hb)

omit [DecidableEq κ] in
theorem consistent_concat {row : ρ} : Consistent key (rows ++ [row]) ↔
    Consistent key rows ∧ ∀ r ∈ rows, key r = key row → r = row := by
  constructor
  · intro h
    refine ⟨h.subset (List.subset_append_left _ _), fun r hr => ?_⟩
    exact h r (List.mem_append_left _ hr) row (List.mem_append_right _ List.mem_cons_self)
  · rintro ⟨hrows, hrow⟩ a ha b hb hkey
    rcases List.mem_append.mp ha with ha' | ha'
    · rcases List.mem_append.mp hb with hb' | hb'
      · exact hrows a ha' b hb' hkey
      · rw [List.mem_singleton.mp hb'] at hkey ⊢
        exact hrow a ha' hkey
    · rw [List.mem_singleton.mp ha'] at hkey ⊢
      rcases List.mem_append.mp hb with hb' | hb'
      · exact (hrow b hb' hkey.symm).symm
      · exact (List.mem_singleton.mp hb').symm

/-- What is found in the map is a row of its key. -/
theorem find_merged (h : Consistent key rows) :
    find key (merged key rows) k = some r ↔ r ∈ rows ∧ key r = k := by
  induction rows using List.reverseRecOn with
  | nil => simp [merged, find]
  | append_singleton rows row ih =>
    obtain ⟨hrows, hrow⟩ := consistent_concat.mp h
    rw [merged_concat, find_put, List.mem_append, List.mem_singleton]
    by_cases hk : k = key row
    · subst hk
      rw [if_pos rfl]
      constructor
      · intro heq
        obtain rfl := Option.some.inj heq
        exact ⟨.inr rfl, rfl⟩
      · rintro ⟨hr | rfl, hkey⟩
        · rw [hrow r hr hkey]
        · rfl
    · rw [if_neg hk, ih hrows]
      constructor
      · rintro ⟨hr, rfl⟩
        exact ⟨.inl hr, rfl⟩
      · rintro ⟨hr | rfl, rfl⟩
        · exact ⟨hr, rfl⟩
        · exact absurd rfl hk

theorem mem_merged (h : Consistent key rows) : r ∈ merged key rows ↔ r ∈ rows := by
  constructor
  · intro hr
    exact ((find_merged h).mp (find_of_mem (nodup_merged rows) hr)).1
  · intro hr
    exact find_mem ((find_merged h).mpr ⟨hr, rfl⟩)

/-- The order of the rows changes only the order in the map. -/
theorem merged_perm {rows' : List ρ} (h : Consistent key rows)
    (hsame : ∀ r, r ∈ rows ↔ r ∈ rows') : (merged key rows).Perm (merged key rows') := by
  have h' : Consistent key rows' := h.subset fun r hr => (hsame r).mpr hr
  refine (List.perm_ext_iff_of_nodup (nodup_merged rows).of_map (nodup_merged rows').of_map).mpr ?_
  intro r
  rw [mem_merged h, mem_merged h', hsame]

end Keyed
