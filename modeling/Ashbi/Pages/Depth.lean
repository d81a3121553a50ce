import Ashbi.Pages.Forest

/-! How deep the forest of pages gets, and the loops that walk it. -/

namespace Ashbi.Pages

open Checked Hierarchy

variable {s s' : State}

/-! ### Transactions -/

theorem create_ok {env : Env} {input : CreateInput} {actor : Actor}
    (h : createWorkspacePageInTransaction s env input actor = .ok s') :
    ∃ page, s.insert page = .ok s' := by
  unfold createWorkspacePageInTransaction at h
  simp only [bind_ok, pure_ok] at h
  obtain ⟨_, -, _, -, _, -, s₁, hinsert, _, -, _, -, rfl⟩ := h
  exact ⟨_, hinsert⟩

theorem authorize_ok {id : Id} {actor : Actor} {options : AuthorizeOptions} {access : Authorized}
    (h : authorizeWorkspacePage s id actor options = .ok access) :
    access.page ∈ s.pages ∧ access.page.id = id := by
  unfold authorizeWorkspacePage at h
  simp only [bind_ok, refuse_ok, found_ok, pure_ok] at h
  obtain ⟨user, -, _, -, _, -, _, -, page, hpage, rfl⟩ := h
  split at hpage
  · have hfind := List.find?_some hpage
    simp only [Bool.and_eq_true, decide_eq_true_eq] at hfind
    exact ⟨List.mem_of_find?_eq_some hpage, hfind.1⟩
  · have hfind := List.find?_some hpage
    simp only [Bool.and_eq_true, decide_eq_true_eq] at hfind
    exact ⟨List.mem_of_find?_eq_some hpage, hfind.1.1⟩

/-- A page that is archived already is not archived again. -/
theorem validateChange_ok {id : Id} {input : UpdateInput} {actor : Actor} {access : Authorized}
    (h : validateWorkspacePageChange s id input actor = .ok access) :
    access.page ∈ s.pages ∧ access.page.id = id ∧
      (input.archived = some true → access.page.active = true) := by
  unfold validateWorkspacePageChange at h
  simp only [bind_ok, refuse_ok, pure_ok] at h
  obtain ⟨access', haccess, _, -, _, -, _, harchived, _, -, _, -, _, -, rfl⟩ := h
  obtain ⟨hmem, hid⟩ := authorize_ok haccess
  refine ⟨hmem, hid, fun htrue => ?_⟩
  simpa [htrue] using harchived

/-- The stored page that an update writes, and whether it archives the page. -/
theorem update_transaction_ok (hunique : s.ids.Nodup) {env : Env} {id : Id} {input : UpdateInput}
    {actor : Actor} (h : updateWorkspacePageInTransaction s env id input actor = .ok s') :
    ∃ page, s.page id = some page ∧ s.update page (input.row env.now page) = .ok s' ∧
      (page.active && !(input.row env.now page).active) = decide (input.archived = some true) := by
  unfold updateWorkspacePageInTransaction at h
  simp only [bind_ok, found_ok, pure_ok] at h
  obtain ⟨access, haccess, page, hpage, s₁, hupdate, _, -, _, -, rfl⟩ := h
  have hfind := List.find?_some hpage
  simp only [Bool.and_eq_true, decide_eq_true_eq] at hfind
  have hstored := page_of_mem hunique (List.mem_of_find?_eq_some hpage)
  rw [hfind.1.1] at hstored
  obtain ⟨hmem, hid, hactive⟩ := validateChange_ok haccess
  have hsame : access.page = page := by
    have haccessed := page_of_mem hunique hmem
    rw [hid, hstored] at haccessed
    exact (Option.some.inj haccessed).symm
  refine ⟨page, hstored, hupdate, ?_⟩
  rcases ha : input.archived with _ | _ | _
  · simp [UpdateInput.row, Page.active, ha]
  · simp [UpdateInput.row, Page.active, ha]
  · have htrue := hactive ha
    rw [hsame] at htrue
    simp [UpdateInput.row, Page.active, ha] at htrue ⊢
    exact htrue

/-! ### Steps and runs -/

/-- An update that names a parent keeps the tree below the page within the bound. -/
def MoveFits (s : State) : Step → Prop
  | .update _ id input _ =>
    ∀ n, input.parentId = some (some n) → Fits s id n (input.archived = some true)
  | _ => True

/-- The stored parent always fits. -/
theorem fits_parent (hbound : Bounded s) {p n : Id} {archiving : Bool}
    (hp : s.parent p = some n) : Fits s p n archiving := by
  intro q lq ln k hq hn hk
  have hgraft := hq.graft hk (fun _ _ => rfl) (Lineage.child hp hn)
  have hlen := hbound q _ hgraft
  obtain ⟨hlt, -⟩ := List.getElem?_eq_some_iff.mp hk
  simp only [List.length_append, List.length_take, List.length_cons] at hlen hlt
  left
  omega

/-- Where rows keep their ids and parents, the forest is the same. -/
theorem Rooted.map (hs : Rooted s) {f : Page → Page} (hid : ∀ page, (f page).id = page.id)
    (hp : ∀ page, (f page).parentId = page.parentId) {fits : Prop} :
    Rooted ⟨s.users, s.pages.map f⟩ ∧
      (Bounded s → fits → Bounded ⟨s.users, s.pages.map f⟩) := by
  have hids : State.ids ⟨s.users, s.pages.map f⟩ = s.ids := by simp [State.ids, hid]
  have hparent : State.parent ⟨s.users, s.pages.map f⟩ = s.parent := by
    funext id
    simp only [State.parent, page_map hid]
    cases s.page id with
    | none => rfl
    | some page => exact hp page
  refine ⟨⟨hids ▸ hs.unique, ?_, ?_⟩, ?_⟩
  · rw [hparent, hids]
    exact hs.linked
  · rw [hparent]
    exact hs.chain
  · intro hb _
    unfold Bounded
    rwa [hparent]

theorem step_rooted {st : Step} (hs : Rooted s) (h : s.step st = .ok s') :
    Rooted s' ∧ (Bounded s → MoveFits s st → Bounded s') := by
  cases st with
  | create env input actor =>
    obtain ⟨page, hinsert⟩ := create_ok h
    obtain ⟨hnew, hadmits, revision, rfl⟩ := insert_ok hinsert
    obtain ⟨hrooted, hbounded⟩ := hs.insert { page with revision := revision } hnew hadmits
    exact ⟨hrooted, fun hb _ => hbounded hb⟩
  | update env id input actor =>
    obtain ⟨page, hstored, hupdate, harchiving⟩ := update_transaction_ok hs.unique h
    have hid := page_id hstored
    obtain ⟨hadmits, hids, hparent⟩ :=
      @update_ok s s' page (input.row env.now page) (hid.symm ▸ hstored) rfl hupdate
    rw [harchiving] at hparent
    obtain ⟨hrooted, hbounded⟩ := hs.update hadmits hids hparent
    refine ⟨hrooted, fun hb hfits => hbounded hb fun n hn => ?_⟩
    cases hp : input.parentId with
    | none =>
      have hkept : page.parentId = some n := by simpa [UpdateInput.row, hp] using hn
      exact fits_parent hb (by simp [State.parent, UpdateInput.row, hid, hstored, hkept])
    | some parentId =>
      have hnew : parentId = some n := by simpa [UpdateInput.row, hp] using hn
      have hmoved := hfits n (by rw [hp, hnew])
      rw [← hid] at hmoved
      exact hmoved
  | audience id accessMode grants =>
    obtain rfl := Except.ok.inj h
    exact hs.map (fun page => by by_cases hid : page.id = id <;> simp [hid])
      fun page => by by_cases hid : page.id = id <;> simp [hid]
  | users users =>
    obtain rfl := Except.ok.inj h
    exact ⟨⟨hs.unique, hs.linked, hs.chain⟩, fun hb _ => hb⟩

theorem Reached.rooted {allowed : State → Step → Prop} (h : Reached allowed s) : Rooted s := by
  induction h with
  | start users =>
    refine ⟨List.nodup_nil, ?_, fun _ => ⟨[], .root rfl⟩⟩
    intro id n hn
    cases hn
  | step _ _ hs ih => exact (step_rooted ih hs).1

theorem Reached.bounded (h : Reached MoveFits s) : Bounded s := by
  induction h with
  | start users =>
    intro id l hl
    rw [hl.unique (.root rfl)]
    exact Nat.zero_le _
  | step hreached hfits hs ih => exact (step_rooted hreached.rooted hs).2 ih hfits

/-! ### Loops -/

theorem findActive_ok (hs : Rooted s) {id organizationId : Id} {page : Page}
    (h : s.findActive id organizationId = some page) :
    page.id = id ∧ page.parentId = s.parent id := by
  have hfind := List.find?_some h
  simp only [Bool.and_eq_true, decide_eq_true_eq] at hfind
  have hpage := page_of_mem hs.unique (List.mem_of_find?_eq_some h)
  rw [hfind.1.1] at hpage
  exact ⟨hfind.1.1, by simp [State.parent, hpage]⟩

/-- A walk ends with the chain, so a greater bound changes nothing. -/
theorem parentUpwards_bound (hs : Rooted s) {organizationId id : Id} {l visited : List Id}
    {depths : ℕ} (hl : Lineage s.parent id l) (hlt : l.length < depths) (more : ℕ) :
    parentUpwards s organizationId (depths + more) visited (some id) =
      parentUpwards s organizationId depths visited (some id) := by
  induction hl generalizing depths visited with
  | @root id hroot =>
    obtain ⟨depths, rfl⟩ : ∃ d, depths = d + 1 := ⟨depths - 1, by omega⟩
    rw [Nat.succ_add]
    simp only [parentUpwards]
    split
    · rfl
    · cases hfind : s.findActive id organizationId with
      | none => rfl
      | some page =>
        obtain ⟨-, hparent⟩ := findActive_ok hs hfind
        simp [hparent, hroot, parentUpwards]
  | @child id parentId l hp hb ih =>
    obtain ⟨depths, rfl⟩ : ∃ d, depths = d + 1 := ⟨depths - 1, by omega⟩
    rw [Nat.succ_add]
    simp only [parentUpwards]
    split
    · rfl
    · cases hfind : s.findActive id organizationId with
      | none => rfl
      | some page =>
        obtain ⟨-, hparent⟩ := findActive_ok hs hfind
        simp only [hparent, hp]
        exact ih (Nat.lt_of_succ_lt_succ hlt)

/-- The rows of a cache are stored. -/
def Cache.Holds (s : State) (cache : Cache) : Prop :=
  ∀ id page, cache id = some (some page) → page.id = id ∧ page ∈ s.pages

theorem Cache.Holds.set_none {cache : Cache} (h : cache.Holds s) (id : Id) :
    (cache.set id none).Holds s := by
  intro id' page hpage
  unfold Cache.set at hpage
  split at hpage
  · cases hpage
  · exact h id' page hpage

theorem Cache.Holds.set_row {cache : Cache} (h : cache.Holds s) {row : Page}
    (hrow : row ∈ s.pages) :
    (cache.set row.id (some row)).Holds s := by
  intro id page hpage
  unfold Cache.set at hpage
  split at hpage
  · rename_i hid
    cases hpage
    exact ⟨hid.symm, hrow⟩
  · exact h id page hpage

section Load

variable {user : User}

theorem loadBatch_holds {found : Cache × List Id} {batch : List Id} (h : found.1.Holds s) :
    (loadBatch s user found batch).1.Holds s := by
  apply List.foldlRecOn (motive := fun found : Cache × List Id => found.1.Holds s)
  · exact List.foldlRecOn (motive := Cache.Holds s) _ _ h fun _ h id _ => h.set_none id
  · intro found' hholds row hrow
    have hstored := hholds.set_row (List.mem_filter.mp (List.mem_of_mem_take hrow)).1
    dsimp only
    split
    · split <;> exact hstored
    · exact hstored

/-- A batch only adds the parents of its rows. -/
theorem loadBatch_parents (hs : Rooted s) {found : Cache × List Id} {batch : List Id} :
    ∀ n ∈ (loadBatch s user found batch).2, n ∈ found.2 ∨ ∃ id ∈ batch, s.parent id = some n := by
  apply List.foldlRecOn (motive := fun found' : Cache × List Id =>
    ∀ n ∈ found'.2, n ∈ found.2 ∨ ∃ id ∈ batch, s.parent id = some n)
  · exact fun n hn => .inl hn
  · intro found' hparents row hrow
    obtain ⟨hmem, hrow⟩ := List.mem_filter.mp (List.mem_of_mem_take hrow)
    simp only [Bool.and_eq_true, List.contains_eq_mem, decide_eq_true_eq] at hrow
    cases hp : row.parentId with
    | none => exact hparents
    | some parentId =>
      dsimp only
      split
      · intro n hn
        rcases List.mem_append.mp hn with hn | hn
        · exact hparents n hn
        · obtain rfl := List.mem_singleton.mp hn
          exact .inr ⟨row.id, hrow.1, by simp [State.parent, page_of_mem hs.unique hmem, hp]⟩
      · exact hparents

theorem foldl_loadBatch_parents (hs : Rooted s) {found : Cache × List Id} {bs : List (List Id)} :
    ∀ n ∈ (bs.foldl (loadBatch s user) found).2,
      n ∈ found.2 ∨ ∃ batch ∈ bs, ∃ id ∈ batch, s.parent id = some n := by
  apply List.foldlRecOn (motive := fun found' : Cache × List Id =>
    ∀ n ∈ found'.2, n ∈ found.2 ∨ ∃ batch ∈ bs, ∃ id ∈ batch, s.parent id = some n)
  · exact fun n hn => .inl hn
  · intro found' hparents batch hbatch n hn
    rcases loadBatch_parents hs n hn with hn | hchild
    · exact hparents n hn
    · exact .inr ⟨batch, hbatch, hchild⟩

theorem loadLevels_holds {depths : ℕ} {missing : List Id} {cache : Cache} (h : cache.Holds s) :
    (loadLevels s user depths missing cache).Holds s := by
  induction depths generalizing missing cache with
  | zero => exact h
  | succ depths ih =>
    simp only [loadLevels]
    split
    · exact h
    · apply ih
      exact List.foldlRecOn (motive := fun found : Cache × List Id => found.1.Holds s) _ _ h
        fun _ hfound _ _ => loadBatch_holds hfound

/-- A load ends with the chains of its ids, so a greater bound changes nothing. -/
theorem loadLevels_bound (hs : Rooted s) {depths : ℕ} {missing : List Id} {cache : Cache}
    (h : ∀ id ∈ missing, ∃ l, Lineage s.parent id l ∧ l.length < depths) (more : ℕ) :
    loadLevels s user (depths + more) missing cache = loadLevels s user depths missing cache := by
  induction depths generalizing missing cache with
  | zero =>
    obtain rfl : missing = [] := by
      apply List.eq_nil_iff_forall_not_mem.mpr
      intro id hid
      obtain ⟨l, -, hlt⟩ := h id hid
      exact Nat.not_lt_zero _ hlt
    cases more with
    | zero => rfl
    | succ more => simp [loadLevels]
  | succ depths ih =>
    rw [Nat.succ_add]
    simp only [loadLevels]
    split
    · rfl
    · apply ih
      intro n hn
      have hparents :
          n ∈ ((Hierarchy.slices 100 missing).foldl (loadBatch s user) (cache, [])).2 := by
        simpa using (List.mem_filter.mp hn).1
      rcases foldl_loadBatch_parents hs n hparents with hnone | ⟨batch, hbatch, id, hid, hp⟩
      · cases hnone
      obtain ⟨l, hl, hlt⟩ := h id ((Hierarchy.mem_slices (by decide)).mpr ⟨batch, hbatch, hid⟩)
      cases hl with
      | root hroot => rw [hroot] at hp; cases hp
      | child hp' hb =>
        obtain rfl := Option.some.inj (hp'.symm.trans hp)
        exact ⟨_, hb, Nat.lt_of_succ_lt_succ hlt⟩

theorem loadWithin_holds {depths : ℕ} {ids : List Id} {seed : List Page} {cache : Cache}
    (hseed : seed ⊆ s.pages) (h : cache.Holds s) :
    (loadWithin s user depths ids seed cache).Holds s := by
  apply loadLevels_holds
  apply List.foldlRecOn (motive := Cache.Holds s) _ _ h
  intro cache' hcache row hrow
  split
  · exact hcache.set_row (hseed hrow)
  · exact hcache

theorem loadWithin_bound (hs : Rooted s) (hbound : Bounded s) (ids : List Id) (seed : List Page)
    (cache : Cache) (more : ℕ) :
    loadWithin s user (201 + more) ids seed cache = load s user ids seed cache := by
  apply loadLevels_bound hs
  intro id _
  obtain ⟨l, hl⟩ := hs.chain id
  exact ⟨l, hl, Nat.lt_succ_of_le (hbound id l hl)⟩

theorem rightsUpwards_none {own canEdit : Bool} {cache : Cache} {depths : ℕ} {seen : List Id} :
    rightsUpwards user own cache depths seen canEdit none = .none := by
  cases depths <;> rfl

/-- The rights of a page are found before the bound of the walk. -/
theorem rightsUpwards_bound (hs : Rooted s) {cache : Cache} (hcache : cache.Holds s) {own : Bool}
    {id : Id} {l : List Id} (hl : Lineage s.parent id l) {page : Page} (hpage : page ∈ s.pages)
    (hid : page.id = id) {seen : List Id} {canEdit : Bool} {depths : ℕ} (hlt : l.length < depths)
    (more : ℕ) :
    rightsUpwards user own cache (depths + more) seen canEdit (some page) =
      rightsUpwards user own cache depths seen canEdit (some page) := by
  have hparent : ∀ page ∈ s.pages, page.parentId = s.parent page.id := fun page hp => by
    simp [State.parent, page_of_mem hs.unique hp]
  induction hl generalizing page seen canEdit depths with
  | @root id hroot =>
    obtain ⟨depths, rfl⟩ : ∃ d, depths = d + 1 := ⟨depths - 1, by omega⟩
    rw [Nat.succ_add]
    simp only [rightsUpwards, hparent page hpage, hid, hroot]
  | @child id parentId l hp hb ih =>
    obtain ⟨depths, rfl⟩ : ∃ d, depths = d + 1 := ⟨depths - 1, by omega⟩
    rw [Nat.succ_add]
    simp only [rightsUpwards, hparent page hpage, hid, hp]
    split
    · rfl
    split
    · rfl
    cases hnext : (cache parentId).join with
    | none => rw [rightsUpwards_none, rightsUpwards_none]
    | some next =>
      obtain ⟨hnid, hnext⟩ := hcache parentId next (Option.join_eq_some_iff.mp hnext)
      exact ih hnext hnid (Nat.lt_of_succ_lt_succ hlt)

theorem rightsWithin_bound (hs : Rooted s) (hbound : Bounded s) {cache : Cache}
    (hcache : cache.Holds s) (id : Id) (more : ℕ) :
    rightsWithin user (201 + more) cache id = rights user cache id := by
  unfold rights rightsWithin
  cases hpage : (cache id).join with
  | none => rfl
  | some page =>
    obtain ⟨-, hmem⟩ := hcache id page (Option.join_eq_some_iff.mp hpage)
    obtain ⟨l, hl⟩ := hs.chain page.id
    dsimp only
    split
    · rfl
    · exact rightsUpwards_bound hs hcache hl hmem rfl (Nat.lt_succ_of_le (hbound _ l hl)) more

end Load

/-! ### Every reachable state -/

/-- The ancestors of every page end at a root without repeating a page. -/
def Forest (s : State) : Prop :=
  ∀ page ∈ s.pages, ∃ l, Lineage s.parent page.id l ∧ (page.id :: l).Nodup ∧ ∀ id ∈ l, id ∈ s.ids

/-- No chain is longer than the loops allow, so their bounds decide nothing. -/
structure NeverCutOff (s : State) : Prop where
  depth : ∀ page ∈ s.pages, ∀ l, Lineage s.parent page.id l → l.length ≤ 200
  loads : ∀ user ids seed cache more,
    loadWithin s user (201 + more) ids seed cache = load s user ids seed cache
  walks : ∀ user ids seed id more, seed ⊆ s.pages →
    rightsWithin user (201 + more) (load s user ids seed fun _ => none) id =
      rights user (load s user ids seed fun _ => none) id
  parents : ∀ page ∈ s.pages, ∀ organizationId more,
    parentUpwards s organizationId (200 + more) [page.id] page.parentId =
      validateWorkspacePageParent s page.parentId organizationId (some page.id)

theorem Rooted.forest (hs : Rooted s) : Forest s := by
  intro page _
  obtain ⟨l, hl⟩ := hs.chain page.id
  refine ⟨l, hl, hl.nodup, fun id hid => ?_⟩
  obtain ⟨child, hchild⟩ := hl.exists_child hid
  exact hs.linked child id hchild

theorem Rooted.neverCutOff (hs : Rooted s) (hbound : Bounded s) : NeverCutOff s where
  depth page _ l hl := hbound page.id l hl
  loads _ ids seed cache more := loadWithin_bound hs hbound ids seed cache more
  walks _ _ _ id more hseed := by
    have hempty : Cache.Holds s fun _ => none := fun _ _ hrow => by cases hrow
    exact rightsWithin_bound hs hbound (loadWithin_holds hseed hempty) id more
  parents page hpage organizationId more := by
    have hparent : page.parentId = s.parent page.id := by
      simp [State.parent, page_of_mem hs.unique hpage]
    rw [hparent]
    cases hp : s.parent page.id with
    | none => cases more <;> rfl
    | some n =>
      obtain ⟨l, hl⟩ := hs.chain n
      have hle := hbound page.id _ (.child hp hl)
      exact parentUpwards_bound hs hl hle more

/-- The pages always form a forest, and while every move fits, no loop is cut off. -/
theorem bounded_forest {allowed : State → Step → Prop} (h : Reached allowed s) :
    Forest s ∧ ((∀ s st, allowed s st → MoveFits s st) → NeverCutOff s) := by
  refine ⟨h.rooted.forest, fun hfits => ?_⟩
  have hreached : Reached MoveFits s := by
    induction h with
    | start users => exact .start users
    | step _ ha hs ih => exact ih.step (hfits _ _ ha) hs
  exact h.rooted.neverCutOff hreached.bounded

end Ashbi.Pages
