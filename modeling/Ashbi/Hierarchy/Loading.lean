import Ashbi.Hierarchy.Trail

/-! Loading rows with their ancestors into a cache, level by level and in batches. -/

namespace Hierarchy

variable {κ ρ : Type} [DecidableEq κ]

/-- An entry without a row is a key that was looked for in vain. -/
abbrev Cache (κ ρ : Type) := κ → Option (Option ρ)

namespace Cache

def has (cache : Cache κ ρ) (k : κ) : Bool := (cache k).isSome

def set (cache : Cache κ ρ) (k : κ) (row : Option ρ) : Cache κ ρ :=
  fun k' => if k' = k then some row else cache k'

/-- The table that a reader of the cache sees. -/
def tree (cache : Cache κ ρ) (t : Tree κ ρ) : Tree κ ρ := { t with row := fun k => (cache k).join }

end Cache

/-- Consecutive slices of `n` elements. -/
def slices {α : Type} (n : ℕ) (xs : List α) : List (List α) :=
  (List.range ((xs.length + n - 1) / n)).map fun k => (xs.drop (n * k)).take n

/-- One query, and the parents that are still missing after it. -/
def loadBatch (t : Tree κ ρ) (fetch : List κ → List ρ) (found : Cache κ ρ × List κ)
    (batch : List κ) : Cache κ ρ × List κ :=
  let cache := batch.foldl (·.set · none) found.1
  (fetch batch).foldl (fun found row =>
    let cache := found.1.set (t.key row) (some row)
    match t.parent row with
    | some p => if cache.has p then (cache, found.2) else (cache, found.2 ++ [p])
    | none => (cache, found.2)) (cache, found.2)

/-- The levels of a load, in batches of `size`; `depths` is how many may still be read. -/
def loadLevels (t : Tree κ ρ) (fetch : List κ → List ρ) (size : ℕ) :
    ℕ → List κ → Cache κ ρ → Cache κ ρ
  | 0, _, cache => cache
  | depths + 1, missing, cache =>
    if missing.isEmpty then cache
    else
      let (cache, parents) := (slices size missing).foldl (loadBatch t fetch) (cache, [])
      loadLevels t fetch size depths (parents.eraseDups.filter (!cache.has ·)) cache

/-- A query of at most `size` keys finds exactly their rows. -/
def Answers (t : Tree κ ρ) (fetch : List κ → List ρ) (size : ℕ) : Prop :=
  ∀ batch, batch.length ≤ size → ∀ r, r ∈ fetch batch ↔ t.key r ∈ batch ∧ t.row (t.key r) = some r

variable {t : Tree κ ρ} {fetch : List κ → List ρ} {size : ℕ} {cache : Cache κ ρ}

/-! ### Slices -/

theorem length_of_mem_slices {α : Type} {n : ℕ} {xs batch : List α} (h : batch ∈ slices n xs) :
    batch.length ≤ n := by
  obtain ⟨k, -, rfl⟩ := List.mem_map.mp h
  exact List.length_take_le _ _

theorem mem_slices {α : Type} {n : ℕ} (hn : 0 < n) {xs : List α} {x : α} :
    x ∈ xs ↔ ∃ batch ∈ slices n xs, x ∈ batch := by
  constructor
  · intro hx
    obtain ⟨j, hj, rfl⟩ := List.mem_iff_getElem.mp hx
    refine ⟨(xs.drop (n * (j / n))).take n, List.mem_map.mpr ⟨j / n, ?_, rfl⟩, ?_⟩
    · rw [List.mem_range, Nat.div_lt_iff_lt_mul hn]
      have hle := Nat.div_add_mod (xs.length + n - 1) n
      have hmod := Nat.mod_lt (xs.length + n - 1) hn
      have hcomm := Nat.mul_comm n ((xs.length + n - 1) / n)
      omega
    · have hdiv := Nat.div_add_mod j n
      have hmod := Nat.mod_lt j hn
      rw [List.mem_iff_getElem]
      refine ⟨j % n, by simp; omega, ?_⟩
      have hidx : n * (j / n) + j % n = j := hdiv
      simp [hidx]
  · rintro ⟨batch, hbatch, hx⟩
    obtain ⟨k, -, rfl⟩ := List.mem_map.mp hbatch
    exact List.mem_of_mem_drop (List.mem_of_mem_take hx)

/-! ### One level -/

/-- Every entry is what the table has. -/
def Cache.Faithful (t : Tree κ ρ) (cache : Cache κ ρ) : Prop :=
  ∀ k row, cache k = some row → row = t.row k

/-- The parent of a cached row is cached, or still to be read. -/
def Cache.Closed (t : Tree κ ρ) (todo : κ → Prop) (cache : Cache κ ρ) : Prop :=
  ∀ k r p, cache k = some (some r) → t.parent r = some p → cache.has p = true ∨ todo p

theorem foldl_set_none (batch : List κ) (cache : Cache κ ρ) (k : κ) :
    batch.foldl (·.set · none) cache k = if k ∈ batch then some none else cache k := by
  induction batch generalizing cache with
  | nil => rfl
  | cons a rest ih =>
    rw [List.foldl_cons, ih]
    by_cases hr : k ∈ rest
    · simp [hr]
    · by_cases ha : k = a <;> simp [hr, ha, Cache.set]

/-- What the rows of a query leave in the cache, and the parents they ask for. -/
theorem foldl_rows {rows : List ρ} (hrows : ∀ r ∈ rows, t.row (t.key r) = some r)
    (found : Cache κ ρ × List κ) :
    let found' := rows.foldl (fun found row =>
      let cache := found.1.set (t.key row) (some row)
      match t.parent row with
      | some p => if cache.has p then (cache, found.2) else (cache, found.2 ++ [p])
      | none => (cache, found.2)) found
    (∀ k, found'.1 k = if k ∈ rows.map t.key then some (t.row k) else found.1 k) ∧
      found.2 ⊆ found'.2 ∧
      ∀ r ∈ rows, ∀ p, t.parent r = some p → found'.1.has p = true ∨ p ∈ found'.2 := by
  induction rows generalizing found with
  | nil => simp
  | cons r rest ih =>
    obtain ⟨hr, hrest⟩ := List.forall_mem_cons.mp hrows
    set next := (match t.parent r with
      | some p =>
        if (found.1.set (t.key r) (some r)).has p then (found.1.set (t.key r) (some r), found.2)
        else (found.1.set (t.key r) (some r), found.2 ++ [p])
      | none => (found.1.set (t.key r) (some r), found.2)) with hnext
    have hcache : next.1 = found.1.set (t.key r) (some r) := by
      rw [hnext]
      split
      · split <;> rfl
      · rfl
    have hkeeps : found.2 ⊆ next.2 := by
      rw [hnext]
      split
      · split
        · exact List.Subset.refl _
        · exact List.subset_append_left _ _
      · exact List.Subset.refl _
    have hasks : ∀ p, t.parent r = some p → next.1.has p = true ∨ p ∈ next.2 := by
      intro p hp
      rw [hnext, hp]
      dsimp only
      split
      · exact .inl ‹_›
      · exact .inr (by simp)
    obtain ⟨hrows', hsub, hall⟩ := ih hrest next
    simp only [List.foldl_cons]
    have hgrown : ∀ k, next.1.has k = true →
        (∀ found', (∀ k, found' k = if k ∈ rest.map t.key then some (t.row k) else next.1 k) →
          Cache.has found' k = true) := by
      intro k hk found' hfound'
      simp only [Cache.has, hfound' k]
      split
      · rfl
      · exact hk
    refine ⟨fun k => ?_, fun _ hp => hsub (hkeeps hp), ?_⟩
    · rw [hrows' k, hcache]
      by_cases hk : k ∈ rest.map t.key
      · simp [hk]
      · by_cases hkr : k = t.key r
        · subst hkr
          simp [hk, Cache.set, hr]
        · simp [hk, hkr, Cache.set]
    · refine List.forall_mem_cons.mpr ⟨fun p hp => ?_, hall⟩
      rcases hasks p hp with hhas | hmem
      · exact .inl (hgrown p hhas _ hrows')
      · exact .inr (hsub hmem)

theorem loadBatch_spec (hanswers : Answers t fetch size) {batch : List κ}
    (hbatch : batch.length ≤ size) (hkeyed : t.Keyed) (found : Cache κ ρ × List κ) :
    let found' := loadBatch t fetch found batch
    (∀ k, found'.1 k = if k ∈ batch then some (t.row k) else found.1 k) ∧
      found.2 ⊆ found'.2 ∧
      ∀ k ∈ batch, ∀ r p, t.row k = some r → t.parent r = some p →
        found'.1.has p = true ∨ p ∈ found'.2 := by
  have hrows : ∀ r ∈ fetch batch, t.row (t.key r) = some r :=
    fun r hr => ((hanswers batch hbatch r).mp hr).2
  obtain ⟨hcache, hsub, hasks⟩ := foldl_rows hrows (batch.foldl (·.set · none) found.1, found.2)
  have hkeys : ∀ k r, k ∈ batch → t.row k = some r → r ∈ fetch batch := by
    intro k r hk hr
    have hkey := hkeyed k r hr
    exact (hanswers batch hbatch r).mpr ⟨hkey.symm ▸ hk, hkey.symm ▸ hr⟩
  refine ⟨fun k => ?_, hsub, fun k hk r p hr hp => hasks r (hkeys k r hk hr) p hp⟩
  rw [loadBatch, hcache k]
  dsimp only
  rw [foldl_set_none]
  by_cases hk : k ∈ batch
  · simp only [hk, if_true]
    split
    · rfl
    · rename_i hnone
      cases hr : t.row k with
      | none => rfl
      | some r =>
        exact absurd (List.mem_map.mpr ⟨r, hkeys k r hk hr, hkeyed k r hr⟩) hnone
  · have hnone : k ∉ (fetch batch).map t.key := by
      intro hmem
      obtain ⟨r, hr, rfl⟩ := List.mem_map.mp hmem
      exact hk ((hanswers batch hbatch r).mp hr).1
    simp [hk, hnone]

/-- All batches of a level. -/
theorem foldl_loadBatch_spec (hanswers : Answers t fetch size) (hkeyed : t.Keyed)
    {bs : List (List κ)} (hbs : ∀ batch ∈ bs, batch.length ≤ size) (found : Cache κ ρ × List κ) :
    let found' := bs.foldl (loadBatch t fetch) found
    (∀ k, found'.1 k = if ∃ batch ∈ bs, k ∈ batch then some (t.row k) else found.1 k) ∧
      found.2 ⊆ found'.2 ∧
      ∀ k, (∃ batch ∈ bs, k ∈ batch) → ∀ r p, t.row k = some r → t.parent r = some p →
        found'.1.has p = true ∨ p ∈ found'.2 := by
  induction bs generalizing found with
  | nil => simp
  | cons batch rest ih =>
    obtain ⟨hbatch, hrest⟩ := List.forall_mem_cons.mp hbs
    obtain ⟨hcache, hsub, hasks⟩ := loadBatch_spec hanswers hbatch hkeyed found
    obtain ⟨hcache', hsub', hasks'⟩ := ih hrest (loadBatch t fetch found batch)
    simp only [List.foldl_cons]
    refine ⟨fun k => ?_, fun _ hp => hsub' (hsub hp), ?_⟩
    · rw [hcache' k, hcache k]
      by_cases hr : ∃ b ∈ rest, k ∈ b
      · have hany : ∃ b ∈ batch :: rest, k ∈ b := by
          obtain ⟨b, hb, hk⟩ := hr
          exact ⟨b, List.mem_cons_of_mem _ hb, hk⟩
        rw [if_pos hr, if_pos hany]
      · by_cases hk : k ∈ batch
        · simp [hk]
        · simp [hk]
    · rintro k ⟨b, hb, hk⟩ r p hr hp
      rcases List.mem_cons.mp hb with rfl | hb
      · rcases hasks k hk r p hr hp with hhas | hmem
        · left
          simp only [Cache.has, hcache' p]
          split
          · rfl
          · exact hhas
        · exact .inr (hsub' hmem)
      · exact hasks' k ⟨b, hb, hk⟩ r p hr hp

/-- A level caches what was missing, and asks for the parents that are missing then. -/
theorem level_spec (hanswers : Answers t fetch size) (hkeyed : t.Keyed) (hsize : 0 < size)
    {missing : List κ} (hfaithful : cache.Faithful t) (hclosed : cache.Closed t (· ∈ missing)) :
    let found := (slices size missing).foldl (loadBatch t fetch) (cache, [])
    let rest := found.2.eraseDups.filter (!found.1.has ·)
    found.1.Faithful t ∧ found.1.Closed t (· ∈ rest) ∧
      ∀ k, cache.has k = true ∨ k ∈ missing → found.1.has k = true := by
  obtain ⟨hcache, -, hasks⟩ := foldl_loadBatch_spec hanswers hkeyed
    (fun batch => length_of_mem_slices) (cache, [])
  dsimp only at hcache hasks ⊢
  set found := (slices size missing).foldl (loadBatch t fetch) (cache, [])
  simp only [← mem_slices hsize] at hcache hasks
  have hhas : ∀ k, cache.has k = true ∨ k ∈ missing → found.1.has k = true := by
    intro k hk
    simp only [Cache.has, hcache k]
    split
    · rfl
    · rename_i hmissing
      exact hk.resolve_right hmissing
  refine ⟨fun k row hk => ?_, fun k r p hk hp => ?_, hhas⟩
  · rw [hcache k] at hk
    split at hk
    · exact (Option.some.inj hk).symm
    · exact hfaithful k row hk
  · by_cases hp' : found.1.has p = true
    · exact .inl hp'
    right
    have hmem : p ∈ found.2 := by
      rw [hcache k] at hk
      split at hk
      · rename_i hmissing
        exact (hasks k hmissing r p (Option.some.inj hk) hp).resolve_left hp'
      · rcases hclosed k r p hk hp with hold | hmissing
        · exact absurd (hhas p (.inl hold)) hp'
        · exact absurd (hhas p (.inr hmissing)) hp'
    simpa [hp'] using hmem

/-! ### The whole load -/

theorem loadLevels_spec (hanswers : Answers t fetch size) (hkeyed : t.Keyed) (hsize : 0 < size)
    {depths : ℕ} {missing : List κ} (hfaithful : cache.Faithful t)
    (hclosed : cache.Closed t (· ∈ missing)) :
    let loaded := loadLevels t fetch size depths missing cache
    loaded.Faithful t ∧ (∀ k, cache.has k = true → loaded.has k = true) ∧
      ∀ k, cache.has k = true ∨ k ∈ missing → ∀ j < depths, ∀ a, t.up j k = some a →
        loaded.has a = true := by
  induction depths generalizing missing cache with
  | zero => exact ⟨hfaithful, fun _ h => h, fun _ _ j hj => absurd hj (Nat.not_lt_zero j)⟩
  | succ depths ih =>
    simp only [loadLevels]
    split
    · -- Nothing is missing, so every parent of a cached row is cached.
      rename_i hempty
      obtain rfl := List.isEmpty_iff.mp hempty
      refine ⟨hfaithful, fun _ h => h, fun k hk j hj a ha => ?_⟩
      have hk' : cache.has k = true := by simpa using hk
      clear hk hj
      induction j generalizing k with
      | zero =>
        obtain rfl := Option.some.inj ha
        exact hk'
      | succ j ihj =>
        obtain ⟨row, hrow⟩ := Option.isSome_iff_exists.mp hk'
        have hstored := hfaithful k row hrow
        cases hr : t.row k with
        | none => simp [Tree.up, hr] at ha
        | some r =>
          cases hp : t.parent r with
          | none => simp [Tree.up, hr, hp] at ha
          | some p =>
            simp only [Tree.up, hr, hp, Option.bind_some] at ha
            rw [hstored, hr] at hrow
            exact ihj p ha ((hclosed k r p hrow hp).resolve_right (by simp))
    · obtain ⟨hfaithful', hclosed', hhas⟩ := level_spec hanswers hkeyed hsize hfaithful hclosed
      obtain ⟨hloaded, hkept, hup⟩ := ih hfaithful' hclosed'
      refine ⟨hloaded, fun k hk => hkept k (hhas k (.inl hk)), fun k hk j hj a ha => ?_⟩
      have hcached := hhas k hk
      cases j with
      | zero =>
        obtain rfl := Option.some.inj ha
        exact hkept _ hcached
      | succ j =>
        obtain ⟨row, hrow⟩ := Option.isSome_iff_exists.mp hcached
        have hstored := hfaithful' k row hrow
        cases hr : t.row k with
        | none => simp [Tree.up, hr] at ha
        | some r =>
          cases hp : t.parent r with
          | none => simp [Tree.up, hr, hp] at ha
          | some p =>
            simp only [Tree.up, hr, hp, Option.bind_some] at ha
            rw [hstored, hr] at hrow
            exact hup p (hclosed' k r p hrow hp) j (by omega) a ha

/-- A walk over the loaded rows is the walk over the table, as far as levels were loaded. -/
theorem climb_loaded (hanswers : Answers t fetch size) (hkeyed : t.Keyed) (hsize : 0 < size)
    {depths : ℕ} {missing : List κ} {k : κ} (hk : k ∈ missing) {n : ℕ} (hn : n ≤ depths) :
    ((loadLevels t fetch size depths missing fun _ => none).tree t).climb n [] k =
      t.climb n [] k := by
  have hempty : Cache.Faithful t (fun _ : κ => (none : Option (Option ρ))) :=
    fun _ _ h => by cases h
  have hclosed : Cache.Closed t (· ∈ missing) (fun _ : κ => (none : Option (Option ρ))) :=
    fun _ _ _ h => by cases h
  obtain ⟨hfaithful, -, hup⟩ := @loadLevels_spec _ _ _ _ _ _ _ hanswers hkeyed hsize depths missing
    hempty hclosed
  set loaded := loadLevels t fetch size depths missing fun _ => none
  have hrow : ∀ j < n, ∀ a, t.up j k = some a → (loaded.tree t).row a = t.row a := by
    intro j hj a ha
    obtain ⟨row, hrow⟩ := Option.isSome_iff_exists.mp (hup k (.inr hk) j (by omega) a ha)
    simp [Cache.tree, hrow, hfaithful a row hrow]
  have hkey : (loaded.tree t).key = t.key := rfl
  have hparent : (loaded.tree t).parent = t.parent := rfl
  exact Tree.climb_congr hkey hparent hrow

end Hierarchy
