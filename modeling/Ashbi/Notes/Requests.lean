import Ashbi.Notes.Tree

/-! What a request that succeeds has found, and what it stores. -/

namespace Ashbi.Notes

open Checked Hierarchy
open Pages (User Role Rights Actor Failure)

variable {s s' : State} {id k : String} {actor : Actor}

/-! ### Stored rows -/

theorem note_update {change : Note → Note} (hid : ∀ row, (change row).id = row.id) :
    (s.update id change).note k =
      if k = id then (s.note k).map fun row => { change row with revision := row.revision + 1 }
      else s.note k := by
  simp only [State.note, State.update, List.find?_map]
  have hcomp : (fun row : Note => decide (row.id = k)) ∘ (fun row =>
      if row.id = id then { change row with revision := row.revision + 1 } else row) =
      fun row => decide (row.id = k) := by
    funext row
    by_cases hrow : row.id = id <;> simp [hrow, hid]
  rw [hcomp]
  cases hfind : s.notes.find? fun row => decide (row.id = k) with
  | none => simp
  | some row =>
    have hrow : row.id = k := by simpa using List.find?_some hfind
    by_cases hk : k = id <;> simp [hrow, hk]

theorem ids_update {change : Note → Note} (hid : ∀ row, (change row).id = row.id) :
    (s.update id change).ids = s.ids := by
  simp only [State.ids, State.update, List.map_map]
  apply List.map_congr_left
  intro row _
  by_cases hrow : row.id = id <;> simp [hrow, hid]

@[simp] theorem newNote_id {project : Project} {parentId : Option String} {authorId : String}
    {isTemplate : Bool} {audienceBarrier : StoredBarrier} :
    (newNote id project parentId authorId isTemplate audienceBarrier).id = id := rfl

theorem insert_ok {note : Note} (h : s.insert note = .ok s') :
    s.note note.id = none ∧ (∀ k, s'.note k = if k = note.id then some note else s.note k) ∧
      s'.ids = s.ids ++ [note.id] ∧ note.id ∉ s.ids := by
  simp only [State.insert, bind_ok, refuse_ok, pure_ok] at h
  obtain ⟨_, hnew, rfl⟩ := h
  have hnone : s.note note.id = none := by
    simp only [List.any_eq_false, decide_eq_true_eq] at hnew
    simpa [State.note] using hnew
  refine ⟨hnone, fun k => ?_, by simp [State.ids], ?_⟩
  · simp only [State.note, List.find?_append]
    split
    · rename_i hk
      subst hk
      have hfind : s.notes.find? (fun row => decide (row.id = note.id)) = none := hnone
      simp [hfind]
    · rename_i hk
      simp [Ne.symm hk]
  · simpa [State.ids] using hnew

theorem insert_nodup (hunique : s.ids.Nodup) {note : Note} (h : s.insert note = .ok s') :
    s'.ids.Nodup := by
  obtain ⟨-, -, hids, hnew⟩ := insert_ok h
  rw [hids, List.nodup_append]
  refine ⟨hunique, List.nodup_singleton _, ?_⟩
  rintro a ha b hb rfl
  exact hnew (List.mem_singleton.mp hb ▸ ha)

/-! ### Authorization -/

theorem currentWikiStaff_ok {user : User} (h : currentWikiStaff s actor = .ok user) :
    user.id = actor.id ∧ user.organizationId = actor.organizationId ∧ user.isActive = true ∧
      user.role.isStaff = true := by
  simp only [currentWikiStaff, Pages.currentWikiStaff, bind_ok, found_ok] at h
  obtain ⟨_, -, h⟩ := h
  have hfind := List.find?_some h
  simp only [Bool.and_eq_true, decide_eq_true_eq] at hfind
  exact ⟨hfind.1.1.1, hfind.1.1.2, hfind.1.2, hfind.2⟩

theorem findNote_ok (hunique : s.ids.Nodup) {organizationId : String} {deleted : Bool} {note : Note}
    (h : s.findNote id organizationId deleted = some note) :
    s.note id = some note ∧ note.organizationId = organizationId ∧
      note.deletedAt.isSome = deleted := by
  have hfind := List.find?_some h
  simp only [Bool.and_eq_true, decide_eq_true_eq] at hfind
  have hnote := note_of_mem hunique (List.mem_of_find?_eq_some h)
  rw [hfind.1.1] at hnote
  exact ⟨hnote, hfind.1.2, hfind.2⟩

/-- What `authorizeNote` has established when it answers. -/
structure Granted (s : State) (id : String) (actor : Actor) (options : AuthorizeOptions)
    (access : Authorized) : Prop where
  organization : access.user.organizationId = actor.organizationId
  note : s.note id = some access.note
  owned : access.note.organizationId = actor.organizationId
  deleted : access.note.deletedAt.isSome = options.includeDeleted
  path : access.path = path s actor.organizationId [id] options.includeDeleted id
  read : (s.rights access.user options.includeDeleted id).canRead = true
  edit : options.edit = true → (s.rights access.user options.includeDeleted id).canEdit = true
  manage : options.manage = true →
    (s.rights access.user options.includeDeleted id).canManage = true

theorem authorizeNote_ok (hunique : s.ids.Nodup) {options : AuthorizeOptions} {access : Authorized}
    (h : authorizeNote s id actor options = .ok access) : Granted s id actor options access := by
  simp only [authorizeNote, bind_ok, refuse_ok, found_ok, pure_ok] at h
  obtain ⟨user, huser, _, hread, _, hedit, _, hmanage, note, hnote, rfl⟩ := h
  obtain ⟨-, horg, -⟩ := currentWikiStaff_ok huser
  obtain ⟨hstored, howned, hdeleted⟩ := findNote_ok hunique hnote
  refine ⟨horg, hstored, howned.trans horg, hdeleted, horg ▸ rfl, ?_, fun ho => ?_, fun ho => ?_⟩
  · simpa [State.rights] using hread
  · simpa [State.rights, ho] using hedit
  · simpa [State.rights, ho] using hmanage

/-- A reader may open the note, an editor edit it, and its manager manage it. -/
theorem authorizeNote_total {options : AuthorizeOptions} {user : User} {note : Note}
    (huser : currentWikiStaff s actor = .ok user)
    (hread : (s.rights user options.includeDeleted id).canRead = true)
    (hedit : options.edit = true → (s.rights user options.includeDeleted id).canEdit = true)
    (hmanage : options.manage = true → (s.rights user options.includeDeleted id).canManage = true)
    (hnote : s.findNote id user.organizationId options.includeDeleted = some note) :
    ∃ access, authorizeNote s id actor options = .ok access := by
  simp only [State.rights] at hread hedit hmanage
  simp only [authorizeNote, bind_ok, refuse_ok, found_ok, pure_ok]
  refine ⟨_, user, huser, (), by simp [hread], (), ?_, (), ?_, note, hnote, rfl⟩
  · cases ho : options.edit with
    | false => rfl
    | true => simp [hedit ho]
  · cases ho : options.manage with
    | false => rfl
    | true => simp [hmanage ho]

theorem composed_ok {path : List Note} {audience : Audience} :
    composed path = .ok audience ↔ composeDocumentAudience (nodes path) = .ok audience := by
  unfold composed
  split <;> rename_i h <;> simp [h]

/-! ### The parent -/

/-- A walk that is accepted goes up to a root within its bound, through notes of the project, and
meets none of `seen`. -/
theorem validateUpwards_ok (hunique : s.ids.Nodup) {organizationId projectId : String} {depths : ℕ}
    {seen : List String}
    (h : validateUpwards s organizationId projectId depths seen id = .ok ()) :
    ∃ l, Trail (s.tree organizationId false) id l ∧ l.length ≤ depths ∧
      ∀ row ∈ l, row.projectId = projectId ∧ row.id ∉ seen := by
  induction depths generalizing seen id with
  | zero => cases h
  | succ depths ih =>
    simp only [validateUpwards] at h
    split at h
    · cases h
    rename_i hseen
    have hnew : id ∉ seen := by simpa using hseen
    split at h
    · cases h
    rename_i current hfind
    have hcurrent := List.find?_some hfind
    simp only [Bool.and_eq_true, decide_eq_true_eq] at hcurrent
    have hrow : (s.tree organizationId false).row id = some current := by
      rw [tree_row_some hunique]
      have hnote := note_of_mem hunique (List.mem_of_find?_eq_some hfind)
      rw [hcurrent.1.1] at hnote
      exact ⟨hnote, hcurrent.1.2⟩
    have hhere : current.projectId = projectId ∧ current.id ∉ seen :=
      ⟨hcurrent.2, hcurrent.1.1.symm ▸ hnew⟩
    split at h
    · rename_i hroot
      exact ⟨[current], .root hrow hroot, by simp, by simpa using hhere⟩
    · rename_i parentId hparent
      obtain ⟨l, hl, hlength, hall⟩ := ih h
      refine ⟨current :: l, .child hrow hparent hl, by simpa using hlength, ?_⟩
      refine List.forall_mem_cons.mpr ⟨hhere, fun row hmem => ?_⟩
      obtain ⟨hproject, hunseen⟩ := hall row hmem
      exact ⟨hproject, fun hin => hunseen (List.mem_cons_of_mem _ hin)⟩

theorem validateUpwards_of_trail (hunique : s.ids.Nodup) {organizationId projectId : String}
    {depths : ℕ} {seen : List String} {l : List Note}
    (h : Trail (s.tree organizationId false) id l) (hlength : l.length ≤ depths)
    (hall : ∀ row ∈ l, row.projectId = projectId ∧ row.id ∉ seen) :
    validateUpwards s organizationId projectId depths seen id = .ok () := by
  have hfind : ∀ {k row}, (s.tree organizationId false).row k = some row →
      row.projectId = projectId → s.notes.find? (fun row => row.id = k &&
        row.inScope organizationId false && row.projectId = projectId) = some row := by
    intro k row hrow hproject
    obtain ⟨hnote, hscope⟩ := (tree_row_some hunique).mp hrow
    have hfilter := find_note (k := k) hunique fun row =>
      row.inScope organizationId false && row.projectId = projectId
    simp only [← Bool.and_assoc] at hfilter
    rw [hfilter, hnote]
    simp [Option.filter, hscope, hproject]
  induction h generalizing depths seen with
  | @root k row hrow hp =>
    obtain ⟨depths, rfl⟩ : ∃ m, depths = m + 1 := ⟨depths - 1, by simp at hlength; omega⟩
    obtain ⟨hproject, hseen⟩ := hall row List.mem_cons_self
    have hkey : row.id = k := tree_keyed _ _ hrow
    have hroot : row.parentId = none := hp
    simp [validateUpwards, ← hkey, hseen, hkey ▸ hfind hrow hproject, hroot]
  | @child k p row l hrow hp hl ih =>
    obtain ⟨depths, rfl⟩ : ∃ m, depths = m + 1 := ⟨depths - 1, by simp at hlength; omega⟩
    obtain ⟨hproject, hseen⟩ := hall row List.mem_cons_self
    have hkey : row.id = k := tree_keyed _ _ hrow
    have hparent : row.parentId = some p := hp
    have hnodup := (Trail.child hrow hp hl).nodup tree_keyed
    rw [List.map_cons, List.nodup_cons] at hnodup
    have hrest := @ih depths (k :: seen) (by simpa using hlength)
      fun r hr => by
        obtain ⟨hproject', hseen'⟩ := hall r (List.mem_cons_of_mem _ hr)
        refine ⟨hproject', fun hmem => ?_⟩
        rcases List.mem_cons.mp hmem with he | hmem
        · exact hnodup.1 (List.mem_map.mpr ⟨r, hr, he.trans hkey.symm⟩)
        · exact hseen' hmem
    simp only [validateUpwards]
    rw [if_neg (by simpa [← hkey] using hseen), hfind hrow hproject]
    simp only [hparent]
    exact hrest

/-- A parent that a note of the project may have. -/
def Admits (s : State) (organizationId projectId : String) (noteId parentId : Option String) :
    Prop :=
  ∀ n, parentId = some n → ∃ l, Trail (s.tree organizationId false) n l ∧ l.length ≤ 200 ∧
    ∀ row ∈ l, row.projectId = projectId ∧ some row.id ≠ noteId

theorem validateParent_ok (hunique : s.ids.Nodup) {organizationId projectId : String}
    {noteId parentId : Option String}
    (h : validateParent s organizationId parentId projectId noteId = .ok ()) :
    Admits s organizationId projectId noteId parentId := by
  rintro n rfl
  simp only [validateParent, bind_ok, refuse_ok] at h
  obtain ⟨_, -, h⟩ := h
  obtain ⟨l, hl, hlength, hall⟩ := validateUpwards_ok hunique h
  refine ⟨l, hl, hlength, fun row hrow => ⟨(hall row hrow).1, fun he => ?_⟩⟩
  exact (hall row hrow).2 (by simp [← he])

/-! ### Requests -/

theorem createNote_ok (hunique : s.ids.Nodup) {projectId : String} {parentId : Option String}
    {isTemplate : Bool} (h : createNote s id projectId parentId isTemplate actor = .ok s') :
    ∃ project, project.organizationId = actor.organizationId ∧
      Admits s actor.organizationId project.id none parentId ∧
      s.insert (newNote id project parentId actor.id isTemplate .absent) = .ok s' := by
  simp only [createNote, bind_ok, found_ok] at h
  obtain ⟨project, hproject, _, hvalid, _, -, _, -, hinsert⟩ := h
  have hfind := List.find?_some hproject
  simp only [Bool.and_eq_true, decide_eq_true_eq] at hfind
  refine ⟨project, hfind.2, ?_, hinsert⟩
  rw [hfind.1]
  exact validateParent_ok hunique hvalid

/-- A copy carries the composed audience of its template. -/
theorem createFromTemplate_ok (hunique : s.ids.Nodup) {projectId templateId : String}
    {parentId : Option String}
    (h : createFromTemplate s id projectId templateId parentId actor = .ok s') :
    ∃ project audience, project.organizationId = actor.organizationId ∧
      composeDocumentAudience
        (nodes (path s actor.organizationId [templateId] false templateId)) = .ok audience ∧
      s.insert (newNote id project parentId actor.id false audience.barrier) = .ok s' := by
  simp only [createFromTemplate, bind_ok, found_ok] at h
  obtain ⟨_, -, project, hproject, template, -, _, -, access, haccess, _, -, _, -, audience,
    haudience, hinsert⟩ := h
  have hfind := List.find?_some hproject
  simp only [Bool.and_eq_true, decide_eq_true_eq] at hfind
  have hgranted := authorizeNote_ok hunique haccess
  have hpath := hgranted.path
  simp only at hpath
  exact ⟨project, audience, hfind.2, hpath ▸ composed_ok.mp haudience, hinsert⟩

/-- A move keeps the composed audience of the old path as a barrier; other edits leave the place
and the audience as they are. -/
theorem updateNote_ok (hunique : s.ids.Nodup) {input : UpdateInput}
    (h : updateNote s id input actor = .ok s') :
    ∃ note isTemplate, s.note id = some note ∧ note.active = true ∧
      note.organizationId = actor.organizationId ∧
      ((∃ parentId audience, input.parentId = some parentId ∧
          Admits s actor.organizationId note.projectId (some id) parentId ∧
          composeDocumentAudience (nodes (path s actor.organizationId [id] false id)) =
            .ok audience ∧
          s' = s.update id fun row => { row with
            isTemplate := isTemplate, parentId := parentId
            audienceBarrier := audience.barrier }) ∨
        ((input.parentId = none ∨ input.parentId = some note.parentId) ∧
          s' = s.update id fun row => { row with isTemplate := isTemplate })) := by
  simp only [updateNote, bind_ok, refuse_ok] at h
  obtain ⟨existing, hexisting, _, -, _, hvalid, access, haccess, _, -, h⟩ := h
  have hstored := authorizeNote_ok hunique hexisting
  have hgranted := authorizeNote_ok hunique haccess
  refine ⟨existing.note, input.isTemplate.getD access.note.isTemplate, hstored.note, ?_,
    hstored.owned, ?_⟩
  · simpa [Note.active, Option.isNone_iff_eq_none] using hstored.deleted
  cases hparent : input.parentId with
  | none =>
    simp only [UpdateInput.moves, hparent, Option.any_none, Bool.false_eq_true, if_false,
      pure_ok] at h
    exact .inr ⟨.inl rfl, h.symm⟩
  | some parentId =>
    simp only [validateMove, hparent] at hvalid
    by_cases hmoves : parentId = existing.note.parentId
    · simp only [UpdateInput.moves, hparent, Option.any_some, hmoves, ne_eq, not_true_eq_false,
        decide_false, Bool.false_eq_true, if_false, pure_ok] at h
      exact .inr ⟨.inr (by rw [hmoves]), h.symm⟩
    · simp only [UpdateInput.moves, hparent, Option.any_some, hmoves, ne_eq, not_false_eq_true,
        decide_true, if_true, Option.join_some, bind_ok, pure_ok] at h
      obtain ⟨_, -, audience, haudience, rfl⟩ := h
      have hpath := hgranted.path
      simp only at hpath
      exact .inl ⟨parentId, audience, rfl, validateParent_ok hunique hvalid,
        hpath ▸ composed_ok.mp haudience, rfl⟩

/-- Only the note itself is written, and it is where the request says. -/
theorem updateNote_place (hunique : s.ids.Nodup) {input : UpdateInput}
    (h : updateNote s id input actor = .ok s') :
    s'.ids = s.ids ∧ (∀ k, k ≠ id → s'.note k = s.note k) ∧
      ∃ row, s'.note id = some row ∧ ∀ p, input.parentId = some p → row.parentId = p := by
  obtain ⟨note, isTemplate, hnote, -, -, hplace⟩ := updateNote_ok hunique h
  rcases hplace with ⟨parentId, audience, hparent, -, -, rfl⟩ | ⟨hsame, rfl⟩
  · refine ⟨ids_update (by simp), fun k hk => ?_, ?_⟩
    · rw [note_update (by simp), if_neg hk]
    · rw [note_update (by simp), if_pos rfl, hnote]
      exact ⟨_, rfl, fun p hp => Option.some.inj (hparent.symm.trans hp)⟩
  · refine ⟨ids_update (by simp), fun k hk => ?_, ?_⟩
    · rw [note_update (by simp), if_neg hk]
    · rw [note_update (by simp), if_pos rfl, hnote]
      refine ⟨_, rfl, fun p hp => ?_⟩
      rcases hsame with hsame | hsame
      · rw [hp] at hsame
        cases hsame
      · exact (Option.some.inj (hp.symm.trans hsame)).symm

/-! ### Deletion -/

/-- A note that has left its parent and keeps its audience. -/
def Note.detached (row : Note) (audience : Audience) : Note :=
  { row with
    audienceBarrier := audience.barrier, parentId := none, revision := row.revision + 1 }

theorem note_detach (audience : Audience) :
    (s.detach id audience).note k =
      if k = id then (s.note k).map (·.detached audience) else s.note k :=
  note_update fun _ => rfl

theorem ids_detach (audience : Audience) : (s.detach id audience).ids = s.ids :=
  ids_update fun _ => rfl

/-- Children that leave their parent one after another. -/
def State.detachAll (s : State) (promoted : List (String × Audience)) : State :=
  promoted.foldl (fun s child => s.detach child.1 child.2) s

theorem ids_detachAll (promoted : List (String × Audience)) :
    (s.detachAll promoted).ids = s.ids := by
  induction promoted generalizing s with
  | nil => rfl
  | cons child rest ih => exact ih.trans (ids_detach child.2)

theorem note_detachAll_other {promoted : List (String × Audience)}
    (h : k ∉ promoted.map (·.1)) : (s.detachAll promoted).note k = s.note k := by
  induction promoted generalizing s with
  | nil => rfl
  | cons child rest ih =>
    rw [List.map_cons, List.mem_cons, not_or] at h
    have hrest := ih (s := s.detach child.1 child.2) h.2
    rw [note_detach, if_neg h.1] at hrest
    exact hrest

theorem note_detachAll {promoted : List (String × Audience)} {audience : Audience}
    (hnodup : (promoted.map (·.1)).Nodup) (h : (k, audience) ∈ promoted) :
    (s.detachAll promoted).note k = (s.note k).map (·.detached audience) := by
  induction promoted generalizing s with
  | nil => cases h
  | cons child rest ih =>
    rw [List.map_cons, List.nodup_cons] at hnodup
    rcases List.mem_cons.mp h with rfl | h
    · have hrest := note_detachAll_other (s := s.detach k audience) hnodup.1
      rw [note_detach, if_pos rfl] at hrest
      exact hrest
    · have hne : k ≠ child.1 := by
        intro he
        rw [← he] at hnodup
        exact hnodup.1 (List.mem_map.mpr ⟨(k, audience), h, rfl⟩)
      have hrest := ih (s := s.detach child.1 child.2) hnodup.2 h
      rw [note_detach, if_neg hne] at hrest
      exact hrest

/-- The note is an active child of the one that is being deleted. -/
def Note.childOf (row : Note) (id organizationId : String) : Bool :=
  row.parentId = some id && row.inScope organizationId false

/-- Every active child is promoted, with the audience that its path composes to. -/
theorem promotions_ok (hunique : s.ids.Nodup) {organizationId : String}
    {promoted : List (String × Audience)} (h : promotions s id organizationId = .ok promoted) :
    (promoted.map (·.1)).Nodup ∧
      (∀ k, k ∈ promoted.map (·.1) → ∃ row, s.note k = some row ∧ row.childOf id organizationId) ∧
      ∀ k row, s.note k = some row → row.childOf id organizationId → ∃ audience,
        (k, audience) ∈ promoted ∧
        composeDocumentAudience (nodes (path s organizationId [k] false k)) = .ok audience := by
  set children := s.notes.filter (·.childOf id organizationId) with hchildren
  have hall : List.Forall₂ (fun (row : Note) (child : String × Audience) =>
      child.1 = row.id ∧
        composeDocumentAudience
          (nodes (path s organizationId (children.map (·.id)) false row.id)) = .ok child.2)
      children promoted := by
    refine (mapM_ok h).imp fun row child hchild => ?_
    obtain ⟨audience, haudience, hpair⟩ := bind_ok.mp hchild
    obtain rfl := pure_ok.mp hpair
    exact ⟨rfl, composed_ok.mp haudience⟩
  have hkeys : promoted.map (·.1) = children.map (·.id) := by
    have hids := hall.imp fun _ _ hchild => hchild.1.symm
    have hmaps := List.forall₂_map_left_iff.mpr (List.forall₂_map_right_iff.mpr hids)
    rw [List.forall₂_eq_eq_eq] at hmaps
    exact hmaps.symm
  refine ⟨?_, fun k hk => ?_, fun k row hrow hchild => ?_⟩
  · rw [hkeys]
    exact hunique.sublist (List.filter_sublist.map _)
  · rw [hkeys] at hk
    obtain ⟨row, hrow, rfl⟩ := List.mem_map.mp hk
    obtain ⟨hmem, hchild⟩ := List.mem_filter.mp hrow
    exact ⟨row, note_of_mem hunique hmem, hchild⟩
  · have hmem : row ∈ children := List.mem_filter.mpr ⟨note_mem hrow, hchild⟩
    obtain ⟨n, hn, hget⟩ := List.mem_iff_getElem.mp hmem
    obtain ⟨hlength, hget'⟩ := List.forall₂_iff_get.mp hall
    have hn' : n < promoted.length := hlength ▸ hn
    obtain ⟨hkey, haudience⟩ := hget' n hn hn'
    simp only [List.get_eq_getElem, hget] at hkey haudience
    obtain rfl := note_id hrow
    rw [path_eq hunique (List.mem_map_of_mem hmem)] at haudience
    rw [path_eq hunique (by simp)]
    exact ⟨promoted[n].2, by rw [← hkey]; exact List.getElem_mem hn', haudience⟩

/-- What a deletion has done to the note, to its children and to all others. -/
structure Removed (s s' : State) (id organizationId : String) (now : Time) : Prop where
  ids : s'.ids = s.ids
  self : ∃ note audience revision, s.note id = some note ∧ note.inScope organizationId false ∧
    composeDocumentAudience (nodes (path s organizationId [id] false id)) = .ok audience ∧
    s'.note id = some { note with
      audienceBarrier := audience.barrier, parentId := none, revision := revision
      deletedAt := some now }
  kept : ∀ k, k ≠ id → (∀ row, s.note k = some row → ¬ row.childOf id organizationId) →
    s'.note k = s.note k
  promoted : ∀ k row, k ≠ id → s.note k = some row → row.childOf id organizationId → ∃ audience,
    composeDocumentAudience (nodes (path s organizationId [k] false k)) = .ok audience ∧
      s'.note k = some (row.detached audience)

theorem deleteNote_ok (hunique : s.ids.Nodup) {now : Time}
    (h : deleteNote s id now actor = .ok s') : Removed s s' id actor.organizationId now := by
  simp only [deleteNote, preserveNoteAudience, bind_ok, found_ok, pure_ok] at h
  obtain ⟨note, hfound, barrier, ⟨access, haccess, hbarrier⟩, user, huser, promoted, hpromoted,
    rfl⟩ := h
  obtain ⟨hnote, horg, hdeleted⟩ := findNote_ok hunique hfound
  have hgranted := authorizeNote_ok hunique haccess
  have hpath := hgranted.path
  simp only at hpath
  obtain ⟨-, huserOrg, -⟩ := currentWikiStaff_ok huser
  rw [huserOrg] at hpromoted
  obtain ⟨hnodup, hchild, hall⟩ := promotions_ok hunique hpromoted
  have hself : ∃ row, (s.detachAll promoted).note id = some row ∧
      (row = note ∨ ∃ audience, row = note.detached audience) := by
    by_cases hin : id ∈ promoted.map (·.1)
    · obtain ⟨row, hrow, hc⟩ := hchild id hin
      obtain ⟨audience, hmem, -⟩ := hall id row hrow hc
      exact ⟨_, by rw [note_detachAll hnodup hmem, hnote]; rfl, .inr ⟨audience, rfl⟩⟩
    · exact ⟨note, by rw [note_detachAll_other hin, hnote], .inl rfl⟩
  have harchived : ∀ k, State.note (State.update ((s.detachAll promoted).detach id barrier) id
      fun row => { row with deletedAt := some now }) k =
      if k = id then ((s.detachAll promoted).note k).map fun row =>
        { row.detached barrier with revision := row.revision + 1 + 1, deletedAt := some now }
      else (s.detachAll promoted).note k := by
    intro k
    rw [note_update (by simp), note_detach]
    split
    · rw [Option.map_map]
      rfl
    · rfl
  refine ⟨?_, ?_, fun k hk hrow => ?_, fun k row hk hrow hc => ?_⟩
  · refine (ids_update (by simp)).trans ?_
    exact (ids_detach barrier).trans (ids_detachAll promoted)
  · obtain ⟨row, hrow, hsame⟩ := hself
    refine ⟨note, barrier, row.revision + 1 + 1, hnote, ?_, hpath ▸ composed_ok.mp hbarrier, ?_⟩
    · simp only [Note.inScope, Note.active, horg, decide_true, Bool.true_and, Bool.false_or]
      simpa using hdeleted
    · refine (harchived id).trans ?_
      rw [if_pos rfl, hrow]
      rcases hsame with rfl | ⟨audience, rfl⟩ <;> rfl
  · refine ((harchived k).trans (if_neg hk)).trans (note_detachAll_other fun hin => ?_)
    obtain ⟨row, hk', hc⟩ := hchild k hin
    exact hrow row hk' hc
  · obtain ⟨audience, hmem, haudience⟩ := hall k row hrow hc
    refine ⟨audience, haudience, ((harchived k).trans (if_neg hk)).trans ?_⟩
    rw [note_detachAll hnodup hmem, hrow]
    rfl

/-! ### Restoration -/

/-- Where an archived note comes back, and with which barrier. -/
inductive Returns (s : State) (organizationId : String) (note : Note) :
    Option String → StoredBarrier → Prop
  | root (h : note.parentId = none) : Returns s organizationId note none note.audienceBarrier
  | parent {p : String} {row : Note} (h : note.parentId = some p)
      (hrow : (s.tree organizationId false).row p = some row)
      (hproject : row.projectId = note.projectId) :
      Returns s organizationId note (some p) note.audienceBarrier
  | orphan {p : String} {audience : Audience} (h : note.parentId = some p)
      (haudience : composeDocumentAudience (nodes (path s organizationId [note.id] true note.id)) =
        .ok audience) : Returns s organizationId note none audience.barrier

def Note.restored (note : Note) (parentId : Option String) (barrier : StoredBarrier) : Note :=
  { note with
    deletedAt := none, parentId := parentId, audienceBarrier := barrier
    revision := note.revision + 1 }

theorem restoreNote_ok (hunique : s.ids.Nodup) (h : restoreNote s id actor = .ok s') :
    ∃ note parentId barrier, s.note id = some note ∧ note.active = false ∧
      note.organizationId = actor.organizationId ∧
      Returns s actor.organizationId note parentId barrier ∧
      s'.ids = s.ids ∧
      ∀ k, s'.note k = if k = id then some (note.restored parentId barrier) else s.note k := by
  simp only [restoreNote, bind_ok, pure_ok, Prod.exists] at h
  obtain ⟨parentId, barrier, hdata, rfl⟩ := h
  simp only [noteRestoreData, bind_ok] at hdata
  obtain ⟨access, haccess, hdata⟩ := hdata
  have hgranted := authorizeNote_ok hunique haccess
  have hnote := hgranted.note
  have hpath := hgranted.path
  simp only at hpath
  have harchived : access.note.active = false := by
    have hdeleted := hgranted.deleted
    simp only at hdeleted
    simpa [Note.active] using hdeleted
  refine ⟨access.note, parentId, (barrier.map (·.barrier)).getD access.note.audienceBarrier, hnote,
    harchived, hgranted.owned, ?_, ids_update (by simp), fun k => ?_⟩
  · split at hdata
    · rename_i hparent
      obtain ⟨rfl, rfl⟩ := Prod.mk.inj (pure_ok.mp hdata)
      exact .root hparent
    · rename_i p hparent
      split at hdata
      · rename_i parent hfind
        obtain ⟨_, -, hdata⟩ := bind_ok.mp hdata
        obtain ⟨rfl, rfl⟩ := Prod.mk.inj (pure_ok.mp hdata)
        have hfound := List.find?_some hfind
        simp only [Bool.and_eq_true, decide_eq_true_eq] at hfound
        obtain ⟨⟨rfl, hscope⟩, hproject⟩ := hfound
        refine .parent hparent ((tree_row_some hunique).mpr ⟨?_, ?_⟩) hproject
        · exact note_of_mem hunique (List.mem_of_find?_eq_some hfind)
        · rwa [hgranted.organization] at hscope
      · split at hdata
        · rename_i audience haudience
          obtain ⟨rfl, rfl⟩ := Prod.mk.inj (Except.ok.inj hdata)
          refine .orphan hparent ?_
          rw [note_id hnote, ← hpath]
          exact haudience
        · cases hdata
  · rw [note_update (by simp)]
    split
    · rename_i hk
      rw [hk, hnote]
      rfl
    · rfl

end Ashbi.Notes
