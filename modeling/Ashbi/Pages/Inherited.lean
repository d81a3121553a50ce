import Ashbi.Pages.Access
import Ashbi.Pages.Depth

/-! Rights come from the page and all its ancestors, and an archived ancestor takes none away. -/

namespace Ashbi.Pages

open Checked Hierarchy

variable {s s' : State} {organizationId p k : Id}

/-- Each page has at most 200 ancestors, all of its organization. -/
structure ShallowForest (s : State) : Prop where
  unique : s.ids.Nodup
  ancestry : ∀ page ∈ s.pages,
    ∃ l, Trail (s.tree page.organizationId) page.id l ∧ l.length ≤ 201

/-- What `rights` answers after one `load`. -/
def rightsAfter (s : State) (user : User) (ids : List Id) (seed : List Page) (id : Id) : Rights :=
  rights user (load s user ids seed fun _ => none) id

/-! ### Along a trail -/

theorem allows_of_allowsEdit {user : User} {page : Page} (h : page.allowsEdit user = true) :
    page.allows user = true := by
  cases hmode : page.accessMode with
  | team => simp [Page.allows, hmode]
  | restricted =>
    simp only [Page.allowsEdit, hmode, Bool.or_eq_true, decide_eq_true_eq, List.any_eq_true,
      Bool.and_eq_true, reduceCtorEq, false_or] at h
    rcases h with hauthor | ⟨grant, hgrant, huser, -⟩
    · simp [Page.allows, hauthor]
    · simp only [Page.allows, hmode, Bool.or_eq_true, Bool.and_eq_true, decide_eq_true_eq,
        List.any_eq_true]
      exact .inr ⟨trivial, grant, hgrant, huser⟩

theorem getLast?_root {t : Tree Id Page} (hparent : t.parent = (·.parentId)) {l : List Page}
    (h : Trail t k l) : l.getLast?.any (·.parentId.isNone) = true := by
  induction h with
  | root hr hp => simpa [hparent] using hp
  | child hr hp hl ih =>
    obtain ⟨next, above, rfl⟩ := List.exists_cons_of_ne_nil hl.ne_nil
    rwa [List.getLast?_cons_cons]

theorem granted_trail {user : User} {own : Bool} {l : List Page}
    (h : Trail (s.tree organizationId) k l) :
    granted user own true l =
      ⟨l.all (·.allows user), l.all (·.allowsEdit user), own && l.all (·.allowsEdit user)⟩ := by
  unfold granted
  rw [getLast?_root rfl h, Bool.true_and]
  by_cases hall : l.all (·.allows user) = true
  · simp [hall]
  · have hedit : l.all (·.allowsEdit user) = false := by
      rw [Bool.eq_false_iff]
      intro hedit
      rw [List.all_eq_true] at hall hedit
      exact hall fun page hpage => allows_of_allowsEdit (hedit page hpage)
    simp [hall, hedit, Rights.none]

/-- A user who is not an administrator has the rights that every page of the trail gives. -/
theorem rightsAfter_trail (hunique : s.ids.Nodup) {user : User} (hrole : user.role ≠ .admin)
    {ids : List Id} {seed : List Page} (hseed : seed ⊆ s.pages) {page : Page}
    (hasked : Asked user ids seed page.id) (hpage : page ∈ s.pages) {l : List Page}
    (hl : Trail (s.tree user.organizationId) page.id l) (hlen : l.length ≤ 201) :
    rightsAfter s user ids seed page.id =
      ⟨l.all (·.allows user), l.all (·.allowsEdit user),
        page.authorId = user.id && l.all (·.allowsEdit user)⟩ := by
  have hfound : s.findPage page.id user.organizationId = some page := by
    obtain ⟨head, above, rfl⟩ := List.exists_cons_of_ne_nil hl.ne_nil
    have hrow : s.findPage page.id user.organizationId = some head := hl.head_row
    obtain ⟨hstored, -⟩ := (findPage_some hunique).mp hrow
    rw [hrow, ← hstored, page_of_mem hunique hpage]
  rw [rightsAfter, rights_eq hunique hseed hasked, State.rightsOn, hfound]
  simp only [hrole, if_false]
  rw [hl.climb_eq (tree_keyed s _) hlen fun _ _ => List.not_mem_nil, granted_trail hl]

/-! ### The rows of an update -/

/-- A row may change its place and its state, and keeps its readers. -/
structure Page.SameReaders (row row' : Page) : Prop where
  id : row'.id = row.id
  organizationId : row'.organizationId = row.organizationId
  authorId : row'.authorId = row.authorId
  accessMode : row'.accessMode = row.accessMode
  grants : row'.grants = row.grants

namespace Page.SameReaders

variable {row row' row'' : Page}

theorem refl (row : Page) : row.SameReaders row := ⟨rfl, rfl, rfl, rfl, rfl⟩

theorem symm (h : row.SameReaders row') : row'.SameReaders row :=
  ⟨h.id.symm, h.organizationId.symm, h.authorId.symm, h.accessMode.symm, h.grants.symm⟩

theorem trans (h : row.SameReaders row') (h' : row'.SameReaders row'') : row.SameReaders row'' :=
  ⟨h'.id.trans h.id, h'.organizationId.trans h.organizationId, h'.authorId.trans h.authorId,
    h'.accessMode.trans h.accessMode, h'.grants.trans h.grants⟩

theorem allows (h : row.SameReaders row') (user : User) : row'.allows user = row.allows user := by
  simp only [Page.allows, h.authorId, h.accessMode, h.grants]

theorem allowsEdit (h : row.SameReaders row') (user : User) :
    row'.allowsEdit user = row.allowsEdit user := by
  simp only [Page.allowsEdit, h.authorId, h.accessMode, h.grants]

end Page.SameReaders

/-- Every stored row is still stored, with the same readers. -/
def KeepsReaders (s s' : State) : Prop :=
  ∀ k row, s.page k = some row → ∃ row', s'.page k = some row' ∧ row.SameReaders row'

theorem updateRow_keepsReaders {old new : Page}
    (hold : ∃ row, s.page old.id = some row ∧ row.SameReaders old) (hsame : old.SameReaders new)
    (h : s.updateRow old new = .ok s') : KeepsReaders s s' := by
  unfold State.updateRow at h
  simp only [bind_ok, pure_ok] at h
  obtain ⟨_, -, stored, hstored, rfl⟩ := h
  obtain ⟨heq, -⟩ := scopeGuard_ok hstored
  have hnew : new.SameReaders stored := by
    rw [heq]
    exact ⟨rfl, rfl, rfl, rfl, rfl⟩
  intro k row hrow
  rw [page_put]
  split
  · rename_i hk
    obtain ⟨row', hrow', hreaders⟩ := hold
    rw [hnew.id, hsame.id] at hk
    rw [hk, hrow'] at hrow
    obtain rfl := Option.some.inj hrow
    exact ⟨stored, by rw [hk, hrow']; rfl, (hreaders.trans hsame).trans hnew⟩
  · exact ⟨row, hrow, .refl row⟩

theorem foldlM_keepsReaders {children : List Page} {parentId : Option Id}
    (hold : ∀ child ∈ children, ∃ row, s.page child.id = some row ∧ row.SameReaders child)
    (h : children.foldlM (fun s child => s.updateRow child { child with parentId := parentId }) s =
      .ok s') : KeepsReaders s s' := by
  induction children generalizing s with
  | nil =>
    obtain rfl := pure_ok.mp h
    exact fun k row hrow => ⟨row, hrow, .refl row⟩
  | cons child rest ih =>
    rw [List.foldlM_cons] at h
    obtain ⟨s₁, h₁, hrest⟩ := bind_ok.mp h
    have hsame : child.SameReaders { child with parentId := parentId } := ⟨rfl, rfl, rfl, rfl, rfl⟩
    have hkeeps := updateRow_keepsReaders (hold child List.mem_cons_self) hsame h₁
    have hlater := ih (fun next hnext => by
      obtain ⟨row, hrow, hreaders⟩ := hold next (List.mem_cons_of_mem _ hnext)
      obtain ⟨row', hrow', hreaders'⟩ := hkeeps _ row hrow
      exact ⟨row', hrow', hreaders'.symm.trans hreaders⟩) hrest
    intro k row hrow
    obtain ⟨row', hrow', hreaders⟩ := hkeeps k row hrow
    obtain ⟨row'', hrow'', hreaders'⟩ := hlater k row' hrow'
    exact ⟨row'', hrow'', hreaders.trans hreaders'⟩

theorem update_keepsReaders (hunique : s.ids.Nodup) {old new : Page}
    (hold : s.page old.id = some old) (hsame : old.SameReaders new)
    (h : s.update old new = .ok s') : KeepsReaders s s' := by
  unfold State.update at h
  obtain ⟨s₁, h₁, hchildren⟩ := bind_ok.mp h
  have hkeeps := updateRow_keepsReaders ⟨old, hold, .refl old⟩ hsame h₁
  obtain ⟨-, stored, rfl, -⟩ := updateRow_ok h₁
  unfold archiveChildren at hchildren
  split at hchildren
  · have hrest := foldlM_keepsReaders (fun child hchild => by
      have hmem := List.mem_of_mem_filter hchild
      exact ⟨child, page_of_mem (by rwa [ids_put]) hmem, .refl child⟩) hchildren
    intro k row hrow
    obtain ⟨row', hrow', hreaders⟩ := hkeeps k row hrow
    obtain ⟨row'', hrow'', hreaders'⟩ := hrest k row' hrow'
    exact ⟨row'', hrow'', hreaders.trans hreaders'⟩
  · obtain rfl := Except.ok.inj hchildren
    exact hkeeps

/-- A restricted page is archived without active children only. -/
theorem update_lifts {old new : Page} (hid : new.id = old.id) (h : s.update old new = .ok s')
    (harchived : (old.active && !new.active) = true) (hlifts : s.lifts new.id k = true) :
    old.accessMode = .team := by
  unfold State.update State.updateRow accessGuard at h
  simp only [bind_ok, refuse_ok] at h
  obtain ⟨_, ⟨_, ⟨_, -, hrestricted⟩, -⟩, -⟩ := h
  cases hmode : old.accessMode with
  | team => rfl
  | restricted =>
    obtain ⟨row, hrow, -, hparent, hactive⟩ := lifts_iff.mp hlifts
    simp only [hmode, decide_true, Bool.true_and, harchived, Bool.eq_false_iff, ne_eq,
      List.any_eq_true, Bool.and_eq_true, decide_eq_true_eq] at hrestricted
    exact absurd ⟨row, hrow, hid ▸ hparent, hactive⟩ hrestricted

/-! ### Trails after an archive -/

/-- Two trails of which one is shorter and which no user can tell apart. -/
structure SameRights (l l' : List Page) : Prop where
  length : l'.length ≤ l.length
  allows : ∀ user, (l'.all fun page => page.allows user) = l.all fun page => page.allows user
  allowsEdit : ∀ user,
    (l'.all fun page => page.allowsEdit user) = l.all fun page => page.allowsEdit user

theorem SameRights.cons {row row' : Page} {l l' : List Page} (h : SameRights l l')
    (hrow : row.SameReaders row') : SameRights (row :: l) (row' :: l') where
  length := Nat.succ_le_succ h.length
  allows user := by simp only [List.all_cons, hrow.allows, h.allows]
  allowsEdit user := by simp only [List.all_cons, hrow.allowsEdit, h.allowsEdit]

/-- A team page asks for nothing. -/
theorem SameRights.skip {row' : Page} {l l' : List Page} (hteam : row'.accessMode = .team)
    (h : SameRights l (row' :: l')) : SameRights l l' where
  length := Nat.le_of_succ_le h.length
  allows user := by
    have hallows := h.allows user
    simpa [Page.allows, hteam] using hallows
  allowsEdit user := by
    have hallows := h.allowsEdit user
    simpa [Page.allowsEdit, hteam] using hallows

/-- Only a team page is skipped, and only by its children. -/
theorem archive_trail (hunique : s.ids.Nodup) (hids : s'.ids = s.ids) {page : Page}
    {archiving : Bool} (hpage : s.page p = some page) (hkeeps : KeepsReaders s s')
    (hparent : ∀ id, s'.parent id =
      if id = p ∨ (archiving && s.lifts p id) = true then page.parentId else s.parent id)
    (hteam : ∀ id, (archiving && s.lifts p id) = true → page.accessMode = .team)
    {l : List Page} (h : Trail (s.tree organizationId) k l) :
    ∃ l', Trail (s'.tree organizationId) k l' ∧ SameRights l l' := by
  have hunique' : s'.ids.Nodup := hids ▸ hunique
  have hrow' : ∀ k row, s.findPage k organizationId = some row → ∃ row',
      s'.findPage k organizationId = some row' ∧ row.SameReaders row' ∧
        row.parentId = s.parent k ∧ row'.parentId = s'.parent k := by
    intro k row hrow
    obtain ⟨hstored, horg⟩ := (findPage_some hunique).mp hrow
    obtain ⟨row', hrow', hreaders⟩ := hkeeps k row hstored
    refine ⟨row', (findPage_some hunique').mpr ⟨hrow', ?_⟩, hreaders, ?_, ?_⟩
    · rw [hreaders.organizationId, horg]
    · simp [State.parent, hstored]
    · simp [State.parent, hrow']
  induction h with
  | @root k row hr hp =>
    obtain ⟨row', hr', hreaders, hold, hnew⟩ := hrow' k row hr
    have hnone : s'.parent k = none := by
      have hroot : s.parent k = none := hold.symm.trans hp
      rw [hparent]
      split
      · rename_i hmoved
        rcases hmoved with rfl | hlifted
        · rw [← hroot, State.parent, hpage]
          rfl
        · rw [lifts_parent hunique (Bool.and_eq_true_iff.mp hlifted).2] at hroot
          cases hroot
      · exact hroot
    have hnil : SameRights [] [] := ⟨Nat.le_refl 0, fun _ => rfl, fun _ => rfl⟩
    exact ⟨[row'], .root hr' (hnew.trans hnone), hnil.cons hreaders⟩
  | @child k b row l hr hp hl ih =>
    obtain ⟨row', hr', hreaders, hold, hnew⟩ := hrow' k row hr
    obtain ⟨above, habove, hsame⟩ := ih
    have hb : s.parent k = some b := hold.symm.trans hp
    by_cases hlifted : (archiving && s.lifts p k) = true
    · -- the row goes up past the archived page
      have hbp : b = p := by
        rw [lifts_parent hunique (Bool.and_eq_true_iff.mp hlifted).2] at hb
        exact (Option.some.inj hb).symm
      subst hbp
      obtain ⟨head, rest, rfl⟩ := List.exists_cons_of_ne_nil hl.ne_nil
      obtain ⟨head', rest', rfl⟩ := List.exists_cons_of_ne_nil habove.ne_nil
      have hhead : s.findPage b organizationId = some head := hl.head_row
      obtain ⟨hstored, -⟩ := (findPage_some hunique).mp hhead
      obtain rfl := Option.some.inj (hstored.symm.trans hpage)
      obtain ⟨row'', hhead', hreaders', -, hparent'⟩ := hrow' b head hhead
      obtain rfl := Option.some.inj (habove.head_row.symm.trans hhead')
      have hskip := hsame.skip (hreaders'.accessMode.trans (hteam k hlifted))
      have hk : row'.parentId = head'.parentId := by
        rw [hnew, hparent', hparent k, hparent b, if_pos (.inr hlifted), if_pos (.inl rfl)]
      refine ⟨row' :: rest', ?_, hskip.cons hreaders⟩
      cases habove with
      | root _ hroot => exact .root hr' (hk.trans hroot)
      | child _ hc hrest => exact .child hr' (hk.trans hc) hrest
    · refine ⟨row' :: above, .child hr' ?_ habove, hsame.cons hreaders⟩
      change row'.parentId = some b
      rw [hnew, hparent]
      split
      · rename_i hmoved
        rcases hmoved with rfl | hmoved
        · rw [← hb, State.parent, hpage]
          rfl
        · exact absurd hmoved hlifted
      · exact hb

/-- An update that leaves the page where it is keeps every trail as good as it was. -/
theorem update_sameRights (hunique : s.ids.Nodup) {env : Env} {id : Id} {input : UpdateInput}
    {actor : Actor} {page : Page} (hpage : s.page id = some page)
    (hstays : input.moving page = false)
    (h : updateWorkspacePageInTransaction s env id input actor = .ok s') :
    s'.ids = s.ids ∧ KeepsReaders s s' ∧ ∀ organizationId k l,
      Trail (s.tree organizationId) k l →
        ∃ l', Trail (s'.tree organizationId) k l' ∧ SameRights l l' := by
  obtain ⟨page', hpage', hupdate, harchiving⟩ := update_transaction_ok hunique h
  obtain rfl := Option.some.inj (hpage.symm.trans hpage')
  have hid := page_id hpage
  have hold : s.page page.id = some page := hid.symm ▸ hpage
  have hreaders : page.SameReaders (input.row env.now page) := ⟨rfl, rfl, rfl, rfl, rfl⟩
  obtain ⟨-, hids, hparent⟩ := update_ok hold hreaders.id hupdate
  have hkeeps := update_keepsReaders hunique hold hreaders hupdate
  have hsame : (input.row env.now page).parentId = page.parentId := by
    cases hp : input.parentId with
    | none => simp [UpdateInput.row, hp]
    | some parentId => simpa [UpdateInput.moving, UpdateInput.row, hp] using hstays
  rw [hsame, hreaders.id] at hparent
  refine ⟨hids, hkeeps, fun organizationId k l hl => ?_⟩
  refine archive_trail hunique hids hold hkeeps hparent (fun other hlifted => ?_) hl
  obtain ⟨harchived, hlifts⟩ := Bool.and_eq_true_iff.mp hlifted
  rw [← hreaders.id] at hlifts
  exact update_lifts hreaders.id hupdate harchived hlifts

/-- The rights on a page are those on its counterpart where no user can tell the trails apart. -/
theorem rightsAfter_sameRights (hs : ShallowForest s) (hunique' : s'.ids.Nodup)
    (hkeeps : KeepsReaders s s')
    (htrails : ∀ organizationId k l, Trail (s.tree organizationId) k l →
      ∃ l', Trail (s'.tree organizationId) k l' ∧ SameRights l l')
    {user : User} {page : Page} (hpage : page ∈ s.pages) {ids ids' : List Id}
    {seed seed' : List Page} (hseed : seed ⊆ s.pages) (hseed' : seed' ⊆ s'.pages)
    (hasked : Asked user ids seed page.id) (hasked' : Asked user ids' seed' page.id) :
    rightsAfter s' user ids' seed' page.id = rightsAfter s user ids seed page.id := by
  have hstored := page_of_mem hs.unique hpage
  obtain ⟨page', hstored', hreaders⟩ := hkeeps page.id page hstored
  by_cases hplain : user.role ≠ .admin ∧ page.organizationId = user.organizationId
  · obtain ⟨hrole, horg⟩ := hplain
    obtain ⟨l, hl, hlen⟩ := hs.ancestry page hpage
    rw [horg] at hl
    obtain ⟨l', hl', hsame⟩ := htrails _ _ _ hl
    rw [rightsAfter_trail hs.unique hrole hseed hasked hpage hl hlen]
    rw [← hreaders.id] at hl' hasked' ⊢
    rw [rightsAfter_trail hunique' hrole hseed' hasked' (page_mem hstored') hl'
      (Nat.le_trans hsame.length hlen), hsame.allows, hsame.allowsEdit, hreaders.authorId]
  · -- an administrator has all rights, and another organization has none
    rw [rightsAfter, rightsAfter, rights_eq hs.unique hseed hasked,
      rights_eq hunique' hseed' hasked',
      State.rightsOn, State.rightsOn, findPage_eq hs.unique, findPage_eq hunique',
        hstored, hstored']
    by_cases horg : page.organizationId = user.organizationId
    · have hrole : user.role = .admin := by
        by_contra hrole
        exact hplain ⟨hrole, horg⟩
      simp [horg, hreaders.organizationId, hrole, Option.filter]
    · simp [horg, hreaders.organizationId, Option.filter]

/-! ### Every user and page -/

/-- Who does not administrate reads, or edits, exactly the pages that it may read, or edit, with
all their ancestors; and an archive that does not also move the page leaves all rights on the
other pages as they are. -/
theorem rights_inherited (hs : ShallowForest s) :
    (∀ user : User, user.role ≠ .admin → ∀ page ∈ s.pages,
      page.organizationId = user.organizationId →
      ∃ l, Trail (s.tree user.organizationId) page.id l ∧ ∀ ids seed, seed ⊆ s.pages →
        Asked user ids seed page.id →
        let permissions := rightsAfter s user ids seed page.id
        (permissions.canRead = l.all fun page => page.allows user) ∧
        (permissions.canEdit = l.all fun page => page.allowsEdit user) ∧
        ∀ ancestor ∈ l, ∀ ids' seed', seed' ⊆ s.pages → Asked user ids' seed' ancestor.id →
          let inherited := rightsAfter s user ids' seed' ancestor.id
          (permissions.canRead = true → inherited.canRead = true) ∧
          (permissions.canEdit = true → inherited.canEdit = true)) ∧
    ∀ env id input actor page s', s.page id = some page → input.archived = some true →
      input.moving page = false →
      updateWorkspacePageInTransaction s env id input actor = .ok s' →
      ∀ user, ∀ other ∈ s.pages, other.id ≠ id → other.active = true →
        ∀ ids seed ids' seed', seed ⊆ s.pages → seed' ⊆ s'.pages →
          Asked user ids seed other.id → Asked user ids' seed' other.id →
          rightsAfter s' user ids' seed' other.id = rightsAfter s user ids seed other.id := by
  constructor
  · intro user hrole page hpage horg
    obtain ⟨l, hl, hlen⟩ := hs.ancestry page hpage
    rw [horg] at hl
    refine ⟨l, hl, fun ids seed hseed hasked => ?_⟩
    dsimp only
    rw [rightsAfter_trail hs.unique hrole hseed hasked hpage hl hlen]
    refine ⟨rfl, rfl, fun ancestor hancestor ids' seed' hseed' hasked' => ?_⟩
    obtain ⟨below, above, rfl⟩ := List.append_of_mem hancestor
    have habove := hl.of_append (tree_keyed s _)
    have hrow : s.findPage ancestor.id user.organizationId = some ancestor := habove.head_row
    have hstored := page_mem ((findPage_some hs.unique).mp hrow).1
    have hshort : (ancestor :: above).length ≤ 201 := by
      simp only [List.length_append] at hlen
      omega
    rw [rightsAfter_trail hs.unique hrole hseed' hasked' hstored habove hshort]
    simp only [List.all_append, Bool.and_eq_true]
    exact ⟨And.right, And.right⟩
  · intro env id input actor page s' hpage _ hstays h user other hother _ _
      ids seed ids' seed' hseed hseed' hasked hasked'
    obtain ⟨hids, hkeeps, htrails⟩ := update_sameRights hs.unique hpage hstays h
    exact rightsAfter_sameRights hs (hids ▸ hs.unique) hkeeps htrails hother hseed hseed' hasked
      hasked'

def sampleAuthor : User := ⟨"u1", "org", .team, true⟩

def sampleReader : User := ⟨"u2", "org", .team, true⟩

/-- A private page, and a shared one with a page of another author below it. -/
def sampleShelves : State :=
  ⟨[sampleAuthor, sampleReader],
   [⟨"private", "org", "u1", none, .restricted, [], 0, none⟩,
    ⟨"shared", "org", "u1", none, .team, [], 0, none⟩,
    ⟨"notes", "org", "u2", some "shared", .team, [], 0, none⟩]⟩

theorem sampleShelves_shallow : ShallowForest sampleShelves where
  unique := by decide
  ancestry page hpage := by
    have hshared : Trail (sampleShelves.tree "org") "shared" [_] := .root rfl rfl
    simp only [sampleShelves, List.mem_cons, List.not_mem_nil, or_false] at hpage
    rcases hpage with rfl | rfl | rfl
    · exact ⟨_, .root rfl rfl, by decide⟩
    · exact ⟨_, hshared, by decide⟩
    · exact ⟨_, .child rfl rfl hshared, by decide⟩

def sampleArchive (parentId : Option (Option Id)) : Except Failure State :=
  updateWorkspacePageInTransaction sampleShelves ⟨"new", 0, true⟩ "shared" ⟨0, parentId, some true⟩
    ⟨"u1", "org", .team⟩

theorem rights_inherited_sample :
    (rightsAfter sampleShelves sampleReader ["notes"] [] "notes").canEdit = true ∧
    ∃ s', sampleArchive none = .ok s' ∧
      rightsAfter s' sampleReader ["notes"] [] "notes" =
        rightsAfter sampleShelves sampleReader ["notes"] [] "notes" :=
  ⟨by decide +kernel, _, rfl,
    (rights_inherited sampleShelves_shallow).2 ⟨"new", 0, true⟩ "shared" ⟨0, none, some true⟩
      ⟨"u1", "org", .team⟩ _ _ rfl rfl rfl rfl sampleReader
      ⟨"notes", "org", "u2", some "shared", .team, [], 0, none⟩ (by decide) (by decide) rfl _ _ _ _
      (List.nil_subset _) (List.nil_subset _) (.inl (by decide)) (.inl (by decide))⟩

/-- The children of a page that is moved and archived at once go to the new parent, whose readers
may be others; and who manages a page need not manage those above it. -/
theorem moved_archive_hides :
    ShallowForest sampleShelves ∧
    (∃ s', sampleArchive (some (some "private")) = .ok s' ∧
      rightsAfter sampleShelves sampleReader ["notes"] [] "notes" = ⟨true, true, true⟩ ∧
      rightsAfter s' sampleReader ["notes"] [] "notes" = .none) ∧
    (rightsAfter sampleShelves sampleReader ["shared"] [] "shared").canManage = false :=
  ⟨sampleShelves_shallow, ⟨_, rfl, by decide +kernel, by decide +kernel⟩, by decide +kernel⟩

end Ashbi.Pages
