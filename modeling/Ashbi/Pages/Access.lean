import Mathlib.Data.List.Induction
import Ashbi.Keyed.Rows
import Ashbi.Pages.Page

/-! What `load` and `rights` come to: a walk over the stored pages, whatever was loaded with it. -/

namespace Ashbi.Pages

open Checked Hierarchy

/-- The pages of an organization, and their parents. -/
def State.tree (s : State) (organizationId : Id) : Tree Id Page where
  row id := s.findPage id organizationId
  key := (·.id)
  parent := (·.parentId)

/-- The same pages as a load sees them: an administrator needs no ancestors. -/
def State.loads (s : State) (user : User) : Tree Id Page :=
  { s.tree user.organizationId with
    parent := fun row => if user.role = .admin then none else row.parentId }

/-- One query of a level. -/
def State.fetch (s : State) (organizationId : Id) (batch : List Id) : List Page :=
  (s.pages.filter fun row =>
    batch.contains row.id && row.organizationId = organizationId).take 100

variable {s : State} {user : User} {id k : Id}

/-! ### Rows -/

section Rows

variable (hunique : (s.pages.map (·.id)).Nodup) {organizationId : Id} {page : Page}
include hunique

theorem findPage_eq :
    s.findPage id organizationId = (s.page id).filter (·.organizationId = organizationId) :=
  Keyed.find_and hunique _

theorem findPage_some : s.findPage id organizationId = some page ↔
    s.page id = some page ∧ page.organizationId = organizationId := by
  rw [findPage_eq hunique, Option.filter_eq_some_iff, decide_eq_true_eq]

theorem findPage_of_mem (h : page ∈ s.pages) :
    s.findPage page.id page.organizationId = some page :=
  (findPage_some hunique).mpr ⟨Keyed.find_of_mem hunique h, rfl⟩

theorem fetch_answers :
    Answers (s.loads user) (s.fetch user.organizationId) 100 := by
  intro batch hbatch row
  have hlength := Nat.le_trans (Keyed.length_filter_le hunique batch
    (·.organizationId = user.organizationId)) hbatch
  have hkey : (s.loads user).key row = row.id := rfl
  have hrow : (s.loads user).row row.id = some row ↔
      row ∈ s.pages ∧ row.organizationId = user.organizationId := by
    refine (findPage_some hunique).trans ?_
    have hfind := Keyed.find_iff (k := row.id) (r := row) hunique
    rw [show s.page row.id = Keyed.find (·.id) s.pages row.id from rfl, hfind]
    simp
  rw [State.fetch, List.take_of_length_le hlength, List.mem_filter, hkey, hrow]
  simp only [Bool.and_eq_true, List.contains_eq_mem, decide_eq_true_eq]
  tauto

end Rows

theorem tree_keyed (s : State) (organizationId : Id) : (s.tree organizationId).Keyed := by
  intro k row h
  have hfind := List.find?_some h
  simp only [Bool.and_eq_true, decide_eq_true_eq] at hfind
  exact hfind.1

/-! ### Loading -/

theorem loads_keyed (s : State) (user : User) : (s.loads user).Keyed :=
  tree_keyed s user.organizationId

theorem loadBatch_eq (found : Pages.Cache × List Id) (batch : List Id) :
    Pages.loadBatch s user found batch =
      Hierarchy.loadBatch (s.loads user) (s.fetch user.organizationId) found batch := by
  unfold Pages.loadBatch Hierarchy.loadBatch
  dsimp only
  congr 1
  funext found row
  by_cases hrole : user.role = .admin
  · cases hp : row.parentId with
    | none =>
      simp only [State.loads, State.tree, hrole, if_true]
      rfl
    | some parentId =>
      simp only [State.loads, State.tree, hrole, if_true, ne_eq, not_true_eq_false,
        decide_false, Bool.false_and, Bool.false_eq_true, if_false]
      rfl
  cases hp : row.parentId with
  | none =>
    simp only [State.loads, State.tree, hp, hrole, if_false]
    rfl
  | some parentId =>
    have hset : Pages.Cache.set found.1 row.id (some row) =
        Hierarchy.Cache.set found.1 row.id (some row) := rfl
    have hhas : ∀ cache : Pages.Cache, Pages.Cache.has cache parentId =
        Hierarchy.Cache.has cache parentId := fun _ => rfl
    simp only [State.loads, State.tree, hp, hset, hhas, hrole, ne_eq, not_false_eq_true,
      decide_true, if_false, Bool.true_and, Bool.not_eq_true']
    by_cases hc : Hierarchy.Cache.has (Hierarchy.Cache.set found.1 row.id (some row))
      parentId = true
    · simp [hc]
    · simp [hc]

theorem loadLevels_eq (depths : ℕ) (missing : List Id) (cache : Pages.Cache) :
    Pages.loadLevels s user depths missing cache =
      Hierarchy.loadLevels (s.loads user) (s.fetch user.organizationId) 100
        depths missing cache := by
  induction depths generalizing missing cache with
  | zero => rfl
  | succ depths ih =>
    have hbatch : Pages.loadBatch s user =
        Hierarchy.loadBatch (s.loads user) (s.fetch user.organizationId) := by
      funext found batch
      exact loadBatch_eq found batch
    simp only [Pages.loadLevels, Hierarchy.loadLevels, hbatch, ih]
    rfl

/-- The seed rows in an empty cache. -/
def seeded (user : User) (seed : List Page) : Pages.Cache :=
  seed.foldl (fun cache row =>
    if row.organizationId = user.organizationId then cache.set row.id (some row) else cache)
    fun _ => none

theorem seeded_concat (seed : List Page) (row : Page) :
    seeded user (seed ++ [row]) =
      if row.organizationId = user.organizationId then (seeded user seed).set row.id (some row)
      else seeded user seed := by
  simp [seeded]

/-- A seeded entry is a seed row of the organization, and each of these has one. -/
theorem seeded_spec (seed : List Page) :
    (∀ k row, seeded user seed k = some row → ∃ page ∈ seed, row = some page ∧ page.id = k ∧
      page.organizationId = user.organizationId) ∧
    ∀ page ∈ seed, page.organizationId = user.organizationId →
      (seeded user seed).has page.id = true := by
  induction seed using List.reverseRecOn with
  | nil => simp [seeded]
  | append_singleton seed row ih =>
    obtain ⟨hentry, hhas⟩ := ih
    rw [seeded_concat]
    constructor
    · intro k found hk
      have hseed : seeded user seed k = some found → ∃ page ∈ seed ++ [row], found = some page ∧
          page.id = k ∧ page.organizationId = user.organizationId := fun h => by
        obtain ⟨page, hpage, hrest⟩ := hentry k found h
        exact ⟨page, List.mem_append_left _ hpage, hrest⟩
      split at hk
      · rename_i horg
        unfold Pages.Cache.set at hk
        split at hk
        · rename_i hid
          exact ⟨row, by simp, (Option.some.inj hk).symm, hid.symm, horg⟩
        · exact hseed hk
      · exact hseed hk
    · intro page hpage horg
      rcases List.mem_append.mp hpage with hpage | hpage
      · have hold := hhas page hpage horg
        split
        · unfold Pages.Cache.has Pages.Cache.set
          split
          · rfl
          · exact hold
        · exact hold
      · obtain rfl := List.mem_singleton.mp hpage
        rw [if_pos horg]
        simp [Pages.Cache.has, Pages.Cache.set]

/-- The page is asked for, or among the seed rows. -/
def Asked (user : User) (ids : List Id) (seed : List Page) (id : Id) : Prop :=
  id ∈ ids ∨ ∃ page ∈ seed, page.id = id ∧ page.organizationId = user.organizationId

/-- Of a page that was asked for, as many ancestors are loaded as a walk can visit. -/
theorem climb_load (hunique : (s.pages.map (·.id)).Nodup) {ids : List Id} {seed : List Page}
    (hseed : seed ⊆ s.pages) (hid : Asked user ids seed id) :
    (Hierarchy.Cache.tree (load s user ids seed fun _ => none) (s.loads user)).climb 201 [] id =
        (s.loads user).climb 201 [] id ∧
    ((load s user ids seed fun _ => none) id).join = s.findPage id user.organizationId := by
  obtain ⟨hentry, hhas⟩ := @seeded_spec user seed
  set above := if user.role = .admin then []
    else (seed.filterMap (·.parentId)).filter (!(seeded user seed).has ·) with habove
  set missing := ((ids.eraseDups.filter (!(seeded user seed).has ·)) ++ above).eraseDups
    with hmissing
  have hload : load s user ids seed (fun _ => none) =
      Hierarchy.loadLevels (s.loads user) (s.fetch user.organizationId) 100 201
        missing (seeded user seed) := by
    rw [← loadLevels_eq]
    rfl
  have hfaithful : Hierarchy.Cache.Faithful (s.loads user) (seeded user seed) := by
    intro k row hk
    obtain ⟨page, hpage, rfl, rfl, horg⟩ := hentry k row hk
    have hfind := findPage_of_mem hunique (hseed hpage)
    rw [horg] at hfind
    exact hfind.symm
  have hclosed : Hierarchy.Cache.Closed (s.loads user) (· ∈ missing) (seeded user seed) := by
    intro k row p hk hp
    obtain ⟨page, hpage, hrow, -, -⟩ := hentry k _ hk
    obtain rfl := Option.some.inj hrow
    by_cases hcached : (seeded user seed).has p = true
    · exact .inl hcached
    right
    change (if user.role = .admin then none else row.parentId) = some p at hp
    split at hp
    · cases hp
    rename_i hrole
    rw [hmissing, habove, if_neg hrole, List.mem_eraseDups, List.mem_append]
    refine .inr (List.mem_filter.mpr ⟨List.mem_filterMap.mpr ⟨row, hpage, hp⟩, ?_⟩)
    simpa using hcached
  have hasked : Hierarchy.Cache.has (seeded user seed) id = true ∨ id ∈ missing := by
    rcases hid with hid | ⟨page, hpage, rfl, horg⟩
    · by_cases hcached : (seeded user seed).has id = true
      · exact .inl hcached
      · right
        rw [hmissing, List.mem_eraseDups, List.mem_append]
        refine .inl (List.mem_filter.mpr ⟨List.mem_eraseDups.mpr hid, ?_⟩)
        simpa using hcached
    · exact .inl (hhas page hpage horg)
  have hspec := fun depths => @loadLevels_spec _ _ _ _ _ _ _ (fetch_answers hunique)
    (loads_keyed s user) (Nat.succ_pos 99) depths _ hfaithful hclosed
  obtain ⟨hloaded, -, hup⟩ := hspec 201
  rw [← hload] at hloaded hup
  have hrow : ∀ j < 201, ∀ a, (s.loads user).up j id = some a →
      (Hierarchy.Cache.tree (load s user ids seed fun _ => none) (s.loads user)).row a =
        (s.loads user).row a := by
    intro j hj a ha
    obtain ⟨row, hcached⟩ := Option.isSome_iff_exists.mp (hup id hasked j hj a ha)
    simp [Hierarchy.Cache.tree, hcached, hloaded a row hcached]
  refine ⟨Tree.climb_congr ?_ ?_ hrow, hrow 0 (Nat.succ_pos 200) id rfl⟩
  · rfl
  · rfl

/-! ### Rights -/

/-- The rights that a walk over these pages gives. -/
def granted (user : User) (own canEdit : Bool) (pages : List Page) : Rights :=
  if pages.getLast?.any (·.parentId.isNone) && pages.all (·.allows user) then
    let canEdit := canEdit && pages.all (·.allowsEdit user)
    ⟨true, canEdit, own && canEdit⟩
  else .none

theorem granted_cons {own canEdit : Bool} {page : Page} {rest : List Page} (hrest : rest ≠ []) :
    granted user own canEdit (page :: rest) =
      if page.allows user then granted user own (canEdit && page.allowsEdit user) rest
      else .none := by
  obtain ⟨next, above, rfl⟩ := List.exists_cons_of_ne_nil hrest
  unfold granted
  rw [List.getLast?_cons_cons, List.all_cons]
  by_cases hallows : page.allows user = true
  · simp [hallows, Bool.and_assoc]
  · simp [hallows]

/-- The walk of `rights` stops where the pages of the climb end. -/
theorem rightsUpwards_eq (t : Tree Id Page) (hkey : t.key = (·.id))
    (hparent : t.parent = (·.parentId))
    {own canEdit : Bool} {cache : Pages.Cache} {n : ℕ} {seen : List Id} :
    rightsUpwards user own cache n seen canEdit (cache k).join =
      granted user own canEdit ((Hierarchy.Cache.tree cache t).climb n seen k) := by
  induction n generalizing k seen canEdit with
  | zero => rfl
  | succ n ih =>
    cases hrow : (cache k).join with
    | none => simp [Tree.climb, Hierarchy.Cache.tree, hrow, rightsUpwards, granted]
    | some page =>
      simp only [Tree.climb, Hierarchy.Cache.tree, hrow, hkey, hparent, rightsUpwards]
      by_cases hseen : seen.contains page.id = true
      · rw [if_pos hseen, if_pos hseen]
        rfl
      rw [if_neg hseen, if_neg hseen]
      cases hp : page.parentId with
      | none =>
        by_cases hallows : page.allows user = true
        · simp [granted, hp, hallows]
        · simp [granted, hallows]
      | some parentId =>
        dsimp only
        rw [ih]
        simp only [Hierarchy.Cache.tree, hkey, hparent]
        by_cases hallows : page.allows user = true
        · rw [if_neg (by simp [hallows])]
          cases hrest : Tree.climb ⟨fun k => (cache k).join, (·.id), (·.parentId)⟩ n
              (page.id :: seen) parentId with
          | nil => simp [granted, hp]
          | cons next above =>
            have hcons : granted user own canEdit (page :: next :: above) = _ :=
              granted_cons (List.cons_ne_nil _ _)
            rw [hcons, if_pos hallows]
        · rw [if_pos (by simpa using hallows)]
          simp [granted, hallows]

/-- What a user may do with a page, by the stored pages alone. -/
def State.rightsOn (s : State) (user : User) (id : Id) : Rights :=
  match s.findPage id user.organizationId with
  | none => .none
  | some page =>
    if user.role = .admin then ⟨true, true, true⟩
    else granted user (page.authorId = user.id) true
      ((s.tree user.organizationId).climb 201 [] id)

/-- The rights after a load do not depend on what else it loads. -/
theorem rights_eq (hunique : (s.pages.map (·.id)).Nodup) {ids : List Id} {seed : List Page}
    (hseed : seed ⊆ s.pages) (hid : Asked user ids seed id) :
    rights user (load s user ids seed fun _ => none) id = s.rightsOn user id := by
  obtain ⟨hclimb, hrow⟩ := climb_load hunique hseed hid
  unfold rights rightsWithin State.rightsOn
  rw [hrow]
  cases hpage : s.findPage id user.organizationId with
  | none => rfl
  | some page =>
    dsimp only
    split
    · rfl
    rename_i hrole
    have hloads : s.loads user = s.tree user.organizationId := by
      simp [State.loads, State.tree, hrole]
    rw [hloads] at hclimb
    rw [← hpage, ← hrow, rightsUpwards_eq (s.tree user.organizationId) rfl rfl, hclimb]

end Ashbi.Pages
