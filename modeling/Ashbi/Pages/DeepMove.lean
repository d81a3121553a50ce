import Ashbi.Pages.Depth

/-! An administrator can move a tree below the deepest page that may have children. -/

namespace Ashbi.Pages

open Checked Hierarchy

variable {s s' : State}

/-! ### Guards that let a row pass -/

theorem guardUpwards_of_lineage {depths : ℕ} {seen l : List Id} {id : Id}
    (hl : Lineage s.parent id l) (hlt : l.length < depths) (hseen : ∀ a ∈ id :: l, a ∉ seen) :
    guardUpwards s depths seen (some id) = .ok () := by
  induction hl generalizing depths seen with
  | @root id hroot =>
    obtain ⟨depths, rfl⟩ : ∃ d, depths = d + 1 := ⟨depths - 1, by omega⟩
    have hid : id ∉ seen := hseen id List.mem_cons_self
    simp [guardUpwards, hid, hroot]
  | @child id parentId l hp hb ih =>
    obtain ⟨depths, rfl⟩ : ∃ d, depths = d + 1 := ⟨depths - 1, by omega⟩
    have hid : id ∉ seen := hseen id List.mem_cons_self
    simp only [guardUpwards, hp, List.contains_eq_mem, hid, decide_false, Bool.false_eq_true,
      ↓reduceIte]
    apply ih (Nat.lt_of_succ_lt_succ hlt)
    intro a ha hin
    rcases List.mem_cons.mp hin with rfl | hin
    · exact (Lineage.child hp hb).not_mem ha
    · exact hseen a (List.mem_cons_of_mem _ ha) hin

def sampleAdmin : User := ⟨"admin", "org", .admin, true⟩

def sampleActor : Actor := ⟨"admin", "org", .admin⟩

def samplePage (id : Id) (parentId : Option Id) (revision : ℕ) : Page :=
  ⟨id, "org", "admin", parentId, .team, [], revision, none⟩

/-- The state of one administrator with active team pages. -/
structure Plain (s : State) : Prop where
  rooted : Rooted s
  users : s.users = [sampleAdmin]
  pages : ∀ page ∈ s.pages, page = samplePage page.id page.parentId page.revision

/-- A query that selects a stored page by its id finds it. -/
theorem Rooted.find (hs : Rooted s) {id : Id} {page : Page} (hpage : s.page id = some page)
    {query : Page → Bool} (hquery : query page = true)
    (hid : ∀ row, query row = true → row.id = id) : s.pages.find? query = some page := by
  cases hfind : s.pages.find? query with
  | none =>
    rw [List.find?_eq_none] at hfind
    exact absurd hquery (hfind page (page_mem hpage))
  | some other =>
    have hother := page_of_mem hs.unique (List.mem_of_find?_eq_some hfind)
    rw [hid other (List.find?_some hfind), hpage] at hother
    exact hother.symm

theorem Plain.row (h : Plain s) {id : Id} {page : Page} (hpage : s.page id = some page) :
    page = samplePage id page.parentId page.revision := by
  have hrow := h.pages page (page_mem hpage)
  rwa [page_id hpage] at hrow

theorem Plain.rootRow (h : Plain s) {id : Id} (hin : id ∈ s.ids)
    (hroot : Lineage s.parent id []) :
    ∃ revision, s.page id = some (samplePage id none revision) := by
  obtain ⟨page, hpage⟩ := Option.isSome_iff_exists.mp (page_isSome.mpr hin)
  cases hroot with
  | root hnone =>
    have hparent : page.parentId = none := by simpa [State.parent, hpage] using hnone
    refine ⟨page.revision, ?_⟩
    rw [hpage, h.row hpage, hparent]
    rfl

theorem Plain.findActive (h : Plain s) {id : Id} {page : Page} (hpage : s.page id = some page) :
    s.findActive id "org" = some page := by
  apply h.rooted.find hpage
  · rw [h.row hpage]
    simp [samplePage, Page.active]
  · intro row hrow
    simp only [Bool.and_eq_true, decide_eq_true_eq] at hrow
    exact hrow.1.1

theorem Plain.findPage (h : Plain s) {id : Id} {page : Page} (hpage : s.page id = some page) :
    s.findPage id "org" = some page := by
  apply h.rooted.find hpage
  · rw [h.row hpage]
    simp [samplePage]
  · intro row hrow
    simp only [Bool.and_eq_true, decide_eq_true_eq] at hrow
    exact hrow.1

theorem Plain.parentUpwards (h : Plain s) {depths : ℕ} {visited l : List Id} {id : Id}
    (hin : id ∈ s.ids) (hl : Lineage s.parent id l) (hlt : l.length < depths)
    (hseen : ∀ a ∈ id :: l, a ∉ visited) :
    parentUpwards s "org" depths visited (some id) = .ok () := by
  induction hl generalizing depths visited with
  | @root id hroot =>
    obtain ⟨depths, rfl⟩ : ∃ d, depths = d + 1 := ⟨depths - 1, by omega⟩
    have hid : id ∉ visited := hseen id List.mem_cons_self
    obtain ⟨page, hpage⟩ := Option.isSome_iff_exists.mp (page_isSome.mpr hin)
    have hparent : page.parentId = none := by simpa [State.parent, hpage] using hroot
    simp [Pages.parentUpwards, hid, h.findActive hpage, hparent]
  | @child id parentId l hp hb ih =>
    obtain ⟨depths, rfl⟩ : ∃ d, depths = d + 1 := ⟨depths - 1, by omega⟩
    have hid : id ∉ visited := hseen id List.mem_cons_self
    obtain ⟨page, hpage⟩ := Option.isSome_iff_exists.mp (page_isSome.mpr hin)
    have hparent : page.parentId = some parentId := by simpa [State.parent, hpage] using hp
    simp only [Pages.parentUpwards, List.contains_eq_mem, hid, decide_false, Bool.false_eq_true,
      ↓reduceIte, h.findActive hpage, hparent]
    apply ih (h.rooted.linked _ _ hp) (Nat.lt_of_succ_lt_succ hlt)
    intro a ha hin
    rcases List.mem_cons.mp hin with rfl | hin
    · exact (Lineage.child hp hb).not_mem ha
    · exact hseen a (List.mem_cons_of_mem _ ha) hin

/-- One id selects one row. -/
theorem Plain.rows (h : Plain s) {id : Id} {page : Page} (hpage : s.page id = some page) :
    (s.pages.filter fun row =>
      [id].contains row.id && row.organizationId = sampleAdmin.organizationId) = [page] := by
  have hall : ∀ row ∈ s.pages.filter fun row =>
      [id].contains row.id && row.organizationId = sampleAdmin.organizationId, row = page := by
    intro row hrow
    obtain ⟨hmem, hpred⟩ := List.mem_filter.mp hrow
    simp only [List.contains_eq_mem, List.mem_singleton, Bool.and_eq_true, decide_eq_true_eq]
      at hpred
    have hstored := page_of_mem h.rooted.unique hmem
    rw [hpred.1, hpage] at hstored
    exact (Option.some.inj hstored).symm
  have hmem : page ∈ s.pages.filter fun row =>
      [id].contains row.id && row.organizationId = sampleAdmin.organizationId := by
    refine List.mem_filter.mpr ⟨page_mem hpage, ?_⟩
    have horg : page.organizationId = sampleAdmin.organizationId := by rw [h.row hpage]; rfl
    simp [page_id hpage, horg]
  have hnodup := (List.Nodup.of_map _ h.rooted.unique).filter fun row =>
    [id].contains row.id && row.organizationId = sampleAdmin.organizationId
  rw [List.eq_replicate_of_mem hall] at hnodup hmem ⊢
  have hle := List.nodup_replicate.mp hnodup
  obtain ⟨hpos, -⟩ := List.mem_replicate.mp hmem
  rw [Nat.le_antisymm hle (Nat.pos_of_ne_zero hpos)]
  rfl

theorem loadLevels_nil {depths : ℕ} {user : User} {cache : Cache} :
    loadLevels s user depths [] cache = cache := by
  cases depths <;> simp [loadLevels]

/-- An administrator's load reads one level. -/
theorem Plain.loadLevels (h : Plain s) {id : Id} {page : Page} (hpage : s.page id = some page)
    (depths : ℕ) : loadLevels s sampleAdmin (depths + 1) [id] (fun _ => none) =
      (Cache.set (fun _ => none) id none).set page.id (some page) := by
  have hbatches : Hierarchy.slices 100 [id] = [[id]] := by
    simp [Hierarchy.slices, List.range_succ]
  have hone : loadBatch s sampleAdmin (fun _ => none, []) [id] =
      ((Cache.set (fun _ => none) id none).set page.id (some page), []) := by
    unfold loadBatch
    simp only [h.rows hpage]
    cases hp : page.parentId <;> simp [hp, sampleAdmin]
  simp only [Pages.loadLevels, hbatches, List.foldl_cons, List.foldl_nil, hone]
  simp [loadLevels_nil]

theorem Plain.load (h : Plain s) {id : Id} {page : Page} (hpage : s.page id = some page) :
    (load s sampleAdmin [id] [] fun _ => none) id = some (some page) := by
  have hmissing : ([id].eraseDups.filter fun id => !Cache.has (fun _ => none) id) ++
      (if sampleAdmin.role = .admin then []
        else (([] : List Page).filterMap (·.parentId)).filter
          fun id => !Cache.has (fun _ => none) id) = [id] := by
    simp [sampleAdmin, Cache.has, List.eraseDups_cons]
  unfold Pages.load loadWithin
  simp only [List.foldl_nil, hmissing]
  simp only [List.eraseDups_cons, List.filter_nil, List.eraseDups_nil]
  rw [h.loadLevels hpage 200]
  simp [Cache.set, page_id hpage]

/-! ### Requests of the administrator -/

theorem Plain.staff (h : Plain s) : currentWikiStaff s sampleActor = .ok sampleAdmin := by
  simp only [currentWikiStaff, h.users]
  decide

theorem Plain.authorize (h : Plain s) {id : Id} {page : Page} (hpage : s.page id = some page)
    (options : AuthorizeOptions) :
    authorizeWorkspacePage s id sampleActor options =
      .ok ⟨page, sampleAdmin, ⟨true, true, true⟩⟩ := by
  have hrights : rights sampleAdmin (Pages.load s sampleAdmin [id] [] fun _ => none) id =
      ⟨true, true, true⟩ := by
    simp only [rights, rightsWithin, h.load hpage]
    rfl
  have hfound : (if options.includeArchived then s.findPage id sampleAdmin.organizationId
      else s.findActive id sampleAdmin.organizationId) = some page := by
    split
    · exact h.findPage hpage
    · exact h.findActive hpage
  simp only [authorizeWorkspacePage, bind_ok, refuse_ok, found_ok, pure_ok]
  refine ⟨sampleAdmin, h.staff, (), ?_⟩
  rw [hrights]
  exact ⟨rfl, (), by simp, (), by simp, page, hfound, rfl⟩

theorem Plain.authorizeParent (h : Plain s) {parentId : Option Id}
    (hparent : ∀ n, parentId = some n → n ∈ s.ids) :
    authorizeParent s parentId sampleActor = .ok () := by
  cases parentId with
  | none => rfl
  | some n =>
    obtain ⟨page, hpage⟩ := Option.isSome_iff_exists.mp (page_isSome.mpr (hparent n rfl))
    simp only [Pages.authorizeParent, bind_ok]
    exact ⟨_, h.authorize hpage _, rfl⟩

theorem Plain.readPage (h : Plain s) (id : Id) (hid : id ∈ s.ids) :
    ∃ page, readWorkspacePage s id sampleActor = .ok page := by
  obtain ⟨page, hpage⟩ := Option.isSome_iff_exists.mp (page_isSome.mpr hid)
  refine ⟨page, ?_⟩
  simp only [readWorkspacePage, bind_ok, found_ok]
  exact ⟨_, h.authorize hpage _, h.findPage hpage⟩

theorem Plain.validateParent (h : Plain s) {id : Id} {parentId : Option Id}
    (ha : Admits s id parentId) (visited : Option Id) (hv : ∀ a ∈ visited, a = id) :
    validateWorkspacePageParent s parentId "org" visited = .ok () := by
  cases parentId with
  | none => rfl
  | some n =>
    obtain ⟨hin, ln, hln, hlt, hout⟩ := ha n rfl
    apply h.parentUpwards (page_isSome.mp hin) hln hlt
    intro a han hvisited
    obtain rfl := hv a (Option.mem_toList.mp hvisited)
    exact hout han

/-- The guard stores the administrator's rows. -/
theorem Plain.scopeGuard (h : Plain s) {id : Id} {parentId : Option Id} (ha : Admits s id parentId)
    {old : Option Page} (hold : ∀ page ∈ old, page.organizationId = "org") (revision : ℕ) :
    scopeGuard s old (samplePage id parentId revision) =
      .ok (samplePage id parentId ((old.map (·.revision + 1)).getD revision)) := by
  have horg : old.any (fun page => decide (page.organizationId ≠ "org")) = false := by
    cases old with
    | none => rfl
    | some page => simp [hold page rfl]
  cases parentId with
  | none =>
    simp only [Pages.scopeGuard, samplePage, bind_ok, refuse_ok, pure_ok]
    exact ⟨(), horg, (), by simp [h.users, sampleAdmin], trivial⟩
  | some n =>
    obtain ⟨hin, ln, hln, hlt, hout⟩ := ha n rfl
    obtain ⟨page, hpage⟩ := Option.isSome_iff_exists.mp hin
    have hactive : page.active = true := by rw [h.row hpage]; rfl
    have hporg : page.organizationId = "org" := by rw [h.row hpage]; rfl
    have hguard : guardUpwards s 200 [id] (some n) = .ok () := by
      apply guardUpwards_of_lineage hln hlt
      intro a han hid
      exact hout (List.mem_singleton.mp hid ▸ han)
    simp only [Pages.scopeGuard, samplePage, bind_ok, refuse_ok, pure_ok]
    refine ⟨(), horg, (), by simp [h.users, sampleAdmin], (), ?_, (), ?_, (), hguard, trivial⟩
    · simp [hpage, hporg]
    · simp [hpage, hactive]

/-- An administrator may add a page below every page with fewer than 200 ancestors. -/
theorem Plain.create (h : Plain s) {id : Id} (parentId : Option Id) (hnew : id ∉ s.ids)
    (ha : Admits s id parentId) :
    s.step (.create ⟨id, 0, true⟩ ⟨parentId, .team⟩ sampleActor) =
      .ok ⟨s.users, s.pages ++ [samplePage id parentId 0]⟩ ∧
      Plain ⟨s.users, s.pages ++ [samplePage id parentId 0]⟩ := by
  have hnone : s.page (samplePage id parentId 0).id = none := by
    cases hpage : s.page id with
    | none => exact hpage
    | some page => exact absurd (page_isSome.mp (by rw [hpage]; rfl)) hnew
  have hplain : Plain ⟨s.users, s.pages ++ [samplePage id parentId 0]⟩ := by
    refine ⟨(h.rooted.insert _ hnone ha).1, h.users, ?_⟩
    intro page hpage
    rcases List.mem_append.mp hpage with hpage | hpage
    · exact h.pages page hpage
    · obtain rfl := List.mem_singleton.mp hpage
      rfl
  refine ⟨?_, hplain⟩
  have hinsert : s.insert (samplePage id parentId 0) =
      .ok ⟨s.users, s.pages ++ [samplePage id parentId 0]⟩ := by
    simp only [State.insert, bind_ok, refuse_ok, pure_ok]
    exact ⟨(), by rw [hnone]; rfl, _, h.scopeGuard ha (by simp) 0, rfl⟩
  obtain ⟨page, hread⟩ := hplain.readPage id (by simp [State.ids, samplePage])
  simp only [State.step, createWorkspacePageInTransaction, bind_ok, pure_ok]
  refine ⟨_, h.staff, (), ?_, (), ?_, _, hinsert, (), rfl, page, hread, rfl⟩
  · exact h.authorizeParent fun n hn => page_isSome.mp (ha n hn).1
  · exact h.validateParent ha none (by simp)

/-- An administrator may move a page below every page with fewer than 200 ancestors. -/
theorem Plain.move (h : Plain s) {id n : Id} {revision : ℕ}
    (hpage : s.page id = some (samplePage id none revision)) (ha : Admits s id (some n)) :
    ∃ s', s.step (.update ⟨"", 0, true⟩ id ⟨revision, some (some n), none⟩ sampleActor) = .ok s' ∧
      s'.ids = s.ids ∧ ∀ q, s'.parent q = if q = id then some n else s.parent q := by
  have hin : n ∈ s.ids := page_isSome.mp (ha n rfl).1
  have hidin : id ∈ s.ids := page_isSome.mp (by rw [hpage]; rfl)
  have hfind : s.pages.find? (fun page =>
      page.id = id && page.organizationId = sampleActor.organizationId &&
        page.revision = revision) = some (samplePage id none revision) := by
    apply h.rooted.find hpage
    · simp [samplePage, sampleActor]
    · intro row hrow
      simp only [Bool.and_eq_true, decide_eq_true_eq] at hrow
      exact hrow.1.1
  let moved : State := s.put (samplePage id (some n) (revision + 1))
  have hupdate : s.update (samplePage id none revision) (samplePage id (some n) revision) =
      .ok moved := by
    simp only [State.update, State.updateRow, bind_ok, pure_ok]
    refine ⟨moved, ⟨(), ?_, _, h.scopeGuard ha (by simp [samplePage]) revision, rfl⟩, rfl⟩
    simp [accessGuard, samplePage, refuse]
  have hparent : ∀ q, moved.parent q = if q = id then some n else s.parent q := fun q =>
    parent_put (samplePage id (some n) (revision + 1)) (page_isSome.mpr hidin)
  have hids : moved.ids = s.ids := ids_put _
  have hplain : Plain moved := by
    have hkept : ∀ q, moved.parent q =
        if q = id ∨ (false && s.lifts id q) = true then some n else s.parent q := by simp [hparent]
    refine ⟨(h.rooted.update ha hids hkept).1, h.users, ?_⟩
    intro page hmem
    obtain ⟨row, hrow, rfl⟩ := List.mem_map.mp hmem
    split
    · rfl
    · exact h.pages row hrow
  obtain ⟨page, hread⟩ := hplain.readPage id (hids ▸ hidin)
  have hvalid : validateWorkspacePageChange s id ⟨revision, some (some n), none⟩ sampleActor =
      .ok ⟨samplePage id none revision, sampleAdmin, ⟨true, true, true⟩⟩ := by
    simp only [validateWorkspacePageChange, bind_ok, refuse_ok, pure_ok]
    refine ⟨_, h.authorize hpage _, (), ?_, (), ?_, (), ?_, (), ?_, (), ?_, (), ?_, rfl⟩
    · simp [samplePage]
    · simp [samplePage]
    · simp [samplePage, Page.active]
    · apply h.authorizeParent
      intro m hm
      simp [UpdateInput.moving, samplePage] at hm
      exact hm ▸ hin
    · exact h.validateParent ha (some id) (by simp)
    · simp
  refine ⟨moved, ?_, hids, hparent⟩
  simp only [State.step, updateWorkspacePageInTransaction, bind_ok, found_ok, pure_ok]
  exact ⟨_, hvalid, _, hfind, moved, hupdate, (), rfl, page, hread, rfl⟩

/-! ### A tree below the deepest parent -/

def towerId (n : ℕ) : Id := String.ofList (List.replicate (n + 1) 'p')

theorem towerId_inj {m n : ℕ} (h : towerId m = towerId n) : m = n := by
  have hlist := congrArg (fun id : String => id.toList.length) h
  simpa [towerId] using hlist

/-- One more page of the administrator, with the chain of its parent. -/
theorem Plain.grow (h : Plain s) (hreached : Reached (fun _ _ => True) s) (id : Id)
    (hnew : id ∉ s.ids) {parentId : Option Id} {l : List Id}
    (hl : (parentId = none ∧ l = []) ∨ ∃ n ln, parentId = some n ∧ n ∈ s.ids ∧
      Lineage s.parent n ln ∧ ln.length < 200 ∧ l = n :: ln) :
    ∃ s', Reached (fun _ _ => True) s' ∧ Plain s' ∧ s'.ids = s.ids ++ [id] ∧
      Lineage s'.parent id l ∧
      ∀ q lq, q ∈ s.ids → Lineage s.parent q lq → Lineage s'.parent q lq := by
  have hnone : s.page (samplePage id parentId 0).id = none := by
    cases hpage : s.page id with
    | none => exact hpage
    | some page => exact absurd (page_isSome.mp (by rw [hpage]; rfl)) hnew
  have hkept : ∀ q lq, q ∈ s.ids → Lineage s.parent q lq → Lineage
      (State.parent ⟨s.users, s.pages ++ [samplePage id parentId 0]⟩) q lq :=
    fun q lq hq hlq => h.rooted.lineage_insert hnone
      (by rintro rfl; exact hnew hq) hlq
  have hparent : State.parent ⟨s.users, s.pages ++ [samplePage id parentId 0]⟩ id = parentId := by
    rw [parent_append hnone]
    exact if_pos rfl
  have hids : State.ids ⟨s.users, s.pages ++ [samplePage id parentId 0]⟩ = s.ids ++ [id] := by
    simp [State.ids, samplePage]
  rcases hl with ⟨rfl, rfl⟩ | ⟨n, ln, rfl, hin, hln, hlt, rfl⟩
  · obtain ⟨hstep, hplain⟩ := h.create none hnew (by simp [Admits])
    exact ⟨_, hreached.step trivial hstep, hplain, hids, .root hparent, hkept⟩
  · have hadmits : Admits s id (some n) := fun m hm => by
      obtain rfl := Option.some.inj hm
      refine ⟨page_isSome.mpr hin, ln, hln, hlt, fun hmem => hnew ?_⟩
      rcases List.mem_cons.mp hmem with he | hmem
      · exact he ▸ hin
      · obtain ⟨c, hc⟩ := hln.exists_child hmem
        exact h.rooted.linked c _ hc
    obtain ⟨hstep, hplain⟩ := h.create (some n) hnew hadmits
    exact ⟨_, hreached.step trivial hstep, hplain, hids,
      .child hparent (hkept n ln hin hln), hkept⟩

/-- `n + 1` pages, each below the one before. -/
theorem exists_tower {n : ℕ} (hn : n < 200) : ∃ s, Reached (fun _ _ => True) s ∧ Plain s ∧
    s.ids = (List.range (n + 1)).map towerId ∧
    ∃ l, Lineage s.parent (towerId n) l ∧ l.length = n := by
  induction n with
  | zero =>
    have hstart : Reached (fun _ _ => True) ⟨[sampleAdmin], []⟩ := .start _
    have hplain : Plain ⟨[sampleAdmin], []⟩ := ⟨hstart.rooted, rfl, by simp⟩
    obtain ⟨s, hreached, hnext, hids, hl, -⟩ :=
      hplain.grow hstart (towerId 0) (by simp [State.ids]) (.inl ⟨rfl, rfl⟩)
    exact ⟨s, hreached, hnext, by simpa [State.ids] using hids, [], hl, rfl⟩
  | succ n ih =>
    obtain ⟨s, hreached, hplain, hids, l, hl, hlen⟩ := ih (by omega)
    have hin : towerId n ∈ s.ids := by
      rw [hids]
      exact List.mem_map_of_mem (by simp)
    have hnew : towerId (n + 1) ∉ s.ids := by
      rw [hids]
      intro hold
      obtain ⟨m, hm, he⟩ := List.mem_map.mp hold
      have hmn := towerId_inj he
      rw [List.mem_range] at hm
      omega
    obtain ⟨s', hreached', hnext, hids', hl', -⟩ := hplain.grow hreached _ hnew
      (.inr ⟨towerId n, l, rfl, hin, hl, by omega, rfl⟩)
    refine ⟨s', hreached', hnext, ?_, _, hl', by simp [hlen]⟩
    rw [hids', hids, ← List.map_singleton, ← List.map_append, ← List.range_succ]

/-- A page with one page below it moves below the 200th page of a tower: the guards only
count the ancestors of the page that moves. -/
theorem bounded_forest_deep_move : ∃ s, Reached (fun _ _ => True) s ∧
    ∃ page ∈ s.pages, ∃ l, Lineage s.parent page.id l ∧ l.length = 201 := by
  obtain ⟨s, hreached, hplain, hids, l, hl, hlen⟩ := exists_tower (n := 199) (by omega)
  have hfresh : ∀ n, 199 < n → towerId n ∉ s.ids := by
    intro n hn hold
    rw [hids] at hold
    obtain ⟨m, hm, he⟩ := List.mem_map.mp hold
    have hmn := towerId_inj he
    rw [List.mem_range] at hm
    omega
  have htop : towerId 199 ∈ s.ids := by
    rw [hids]
    exact List.mem_map_of_mem (by simp)
  -- a root and a page below it
  obtain ⟨s₁, hreached₁, hplain₁, hids₁, hroot₁, hkept₁⟩ :=
    hplain.grow hreached _ (hfresh 200 (by omega)) (.inl ⟨rfl, rfl⟩)
  have hne : towerId 201 ≠ towerId 200 := fun he => absurd (towerId_inj he) (by omega)
  have hin₁ : towerId 200 ∈ s₁.ids := by simp [hids₁]
  have hleaf : towerId 201 ∉ s₁.ids := by
    rw [hids₁]
    simpa using ⟨hfresh 201 (by omega), hne⟩
  obtain ⟨s₂, hreached₂, hplain₂, hids₂, hleaf₂, hkept₂⟩ := hplain₁.grow hreached₁ _ hleaf
    (.inr ⟨towerId 200, [], rfl, hin₁, hroot₁, by simp, rfl⟩)
  have hl₂ := hkept₂ _ _ (by simp [hids₁, htop]) (hkept₁ _ _ htop hl)
  have hroot₂ := hkept₂ _ _ hin₁ hroot₁
  -- the root moves below the tower
  have hout : towerId 200 ∉ towerId 199 :: l := by
    intro hmem
    rcases List.mem_cons.mp hmem with he | hmem
    · exact absurd (towerId_inj he) (by omega)
    · obtain ⟨c, hc⟩ := hl.exists_child hmem
      exact hfresh 200 (by omega) (hplain.rooted.linked c _ hc)
  have hadmits : Admits s₂ (towerId 200) (some (towerId 199)) := fun m hm => by
    obtain rfl := Option.some.inj hm
    exact ⟨page_isSome.mpr (by simp [hids₂, hids₁, htop]), l, hl₂, by omega, hout⟩
  obtain ⟨revision, hrow⟩ := hplain₂.rootRow (by simp [hids₂, hids₁]) hroot₂
  obtain ⟨s₃, hstep, hids₃, hparent⟩ := hplain₂.move hrow hadmits
  have hmoved : Lineage s₃.parent (towerId 200) (towerId 199 :: l) := by
    refine .child (by simp [hparent]) (hl₂.congr fun b hb => ?_)
    have hb' : b ≠ towerId 200 := by
      rintro rfl
      exact hout hb
    simp [hparent, hb']
  have hdeep : Lineage s₃.parent (towerId 201) (towerId 200 :: towerId 199 :: l) := by
    refine .child ?_ hmoved
    rw [hparent, if_neg hne]
    exact hleaf₂.parent_eq
  obtain ⟨page, hpage⟩ := Option.isSome_iff_exists.mp
    (page_isSome.mpr (show towerId 201 ∈ s₃.ids by simp [hids₃, hids₂]))
  refine ⟨s₃, hreached₂.step trivial hstep, page, page_mem hpage, _, page_id hpage ▸ hdeep, ?_⟩
  simp [hlen]

/-- A page without children may move below every page that may have children. -/
theorem fits_leaf {p n : Id} {archiving : Bool}
    (hleaf : ∀ page ∈ s.pages, page.parentId ≠ some p)
    (hdepth : ∀ ln, Lineage s.parent n ln → ln.length < 200) : Fits s p n archiving := by
  intro q lq ln k hq hn hk
  cases k with
  | zero => exact .inl (by simpa using hdepth ln hn)
  | succ k =>
    obtain ⟨c, hc⟩ := hq.exists_child (List.mem_of_getElem? hk)
    obtain ⟨page, hpage, hparent⟩ := Option.bind_eq_some_iff.mp hc
    exact absurd hparent (hleaf page (page_mem hpage))

/-- Two pages, one moved below the other, and the other archived. -/
theorem bounded_forest_sample : ∃ s, Reached MoveFits s ∧
    s.pages = [⟨"a", "org", "admin", none, .team, [], 1, some 9⟩, samplePage "b" none 2] ∧
    Forest s ∧ NeverCutOff s := by
  have hstart : Reached MoveFits ⟨[sampleAdmin], []⟩ := .start _
  have hfirst : State.step ⟨[sampleAdmin], []⟩ (.create ⟨"a", 0, true⟩ ⟨none, .team⟩ sampleActor) =
      .ok ⟨[sampleAdmin], [samplePage "a" none 0]⟩ := by decide +kernel
  have hsecond : State.step ⟨[sampleAdmin], [samplePage "a" none 0]⟩
      (.create ⟨"b", 0, true⟩ ⟨none, .team⟩ sampleActor) =
      .ok ⟨[sampleAdmin], [samplePage "a" none 0, samplePage "b" none 0]⟩ := by decide +kernel
  have hboth := (hstart.step (by trivial) hfirst).step (by trivial) hsecond
  have hfits : Fits ⟨[sampleAdmin], [samplePage "a" none 0, samplePage "b" none 0]⟩ "b" "a"
    false := by
    apply fits_leaf (by decide)
    intro ln hln
    rw [hln.unique (.root (by decide))]
    decide
  have hmove : State.step ⟨[sampleAdmin], [samplePage "a" none 0, samplePage "b" none 0]⟩
      (.update ⟨"", 0, true⟩ "b" ⟨0, some (some "a"), none⟩ sampleActor) =
      .ok ⟨[sampleAdmin], [samplePage "a" none 0, samplePage "b" (some "a") 1]⟩ := by
    decide +kernel
  have hmoved := hboth.step (by rintro n ⟨⟩; exact hfits) hmove
  have harchive : State.step ⟨[sampleAdmin], [samplePage "a" none 0, samplePage "b" (some "a") 1]⟩
      (.update ⟨"", 9, true⟩ "a" ⟨0, none, some true⟩ sampleActor) =
      .ok ⟨[sampleAdmin], [⟨"a", "org", "admin", none, .team, [], 1, some 9⟩,
        samplePage "b" none 2]⟩ := by decide +kernel
  have harchived := hmoved.step (by rintro n ⟨⟩) harchive
  obtain ⟨hforest, hbounded⟩ := bounded_forest harchived
  exact ⟨_, harchived, rfl, hforest, hbounded fun _ _ ha => ha⟩

end Ashbi.Pages
