import Ashbi.Notes.Audiences

/-! Whether every stored note can still be reached by its author. -/

namespace Ashbi.Notes

open Checked Hierarchy
open Pages (User Role Rights Actor Failure)

variable {s s' : State} {o d : String} {l : List Note} {actor : Actor}

/-! ### Requests, one after another -/

inductive Request
  | create (id projectId : String) (parentId : Option String) (isTemplate : Bool)
  | createFromTemplate (id projectId templateId : String) (parentId : Option String)
  | update (id : String) (input : UpdateInput)
  | delete (id : String) (now : Time)
  | restore (id : String)

def State.serve (s : State) (actor : Actor) : Request → Except Failure State
  | .create id projectId parentId isTemplate => createNote s id projectId parentId isTemplate actor
  | .createFromTemplate id projectId templateId parentId =>
    createFromTemplate s id projectId templateId parentId actor
  | .update id input => updateNote s id input actor
  | .delete id now => deleteNote s id now actor
  | .restore id => restoreNote s id actor

/-- An id that the database makes for a new note is one that the algebra accepts. -/
def Request.fresh : Request → Prop
  | .create id .. | .createFromTemplate id .. => validId id = true
  | _ => True

/-- The states that successful requests lead to, from one without notes. -/
inductive Reached (allowed : State → Actor → Request → Prop) : State → Prop
  | start (users : List User) (projects : List Project)
      (h : ∀ user ∈ users, validId user.id = true ∧ validId user.organizationId = true) :
      Reached allowed ⟨users, projects, []⟩
  | step {s s' : State} (actor : Actor) (request : Request) (h : Reached allowed s)
      (hallowed : allowed s actor request) (hfresh : request.fresh)
      (hok : s.serve actor request = .ok s') : Reached allowed s'

/-- Under the parent there is room for a branch of so many notes. -/
def State.Room (s : State) (organizationId : String) (parentId : Option String) (n : ℕ) : Prop :=
  ∀ p l, parentId = some p → Trail (s.tree organizationId false) p l → n + l.length ≤ 200

/-- The note, or each branch of the subtree that moves, has room in its new place. -/
def Fits (s : State) (actor : Actor) : Request → Prop
  | .create _ _ parentId _ | .createFromTemplate _ _ _ parentId =>
    s.Room actor.organizationId parentId 1
  | .update id input => ∀ d l₁ row l₂,
    Trail (s.tree actor.organizationId false) d (l₁ ++ row :: l₂) → row.id = id →
      s.Room actor.organizationId input.parentId.join (l₁.length + 1)
  | .delete .. | .restore .. => True

/-- Every note leads up to a root, its loaded path is accepted, and its author reads it. -/
structure Whole (s : State) : Prop where
  ends : ∀ row ∈ s.notes, ∃ l, Trail (s.tree row.organizationId (!row.active)) row.id l ∧
    (l.map (·.id)).Nodup
  valid : ∀ row ∈ s.notes,
    pathIsValid (nodes (path s row.organizationId [row.id] (!row.active) row.id)) = true
  author : ∀ row ∈ s.notes, ∀ user : User, user.id = row.authorId →
    user.organizationId = row.organizationId → user.isActive = true → user.role.isStaff = true →
    (s.rights user (!row.active) row.id).canRead = true

/-! ### Open notes -/

/-- A note that is open to the whole team, with ids that the algebra accepts. -/
structure Note.Plain (row : Note) : Prop where
  id : validId row.id = true
  authorId : validId row.authorId = true
  organizationId : validId row.organizationId = true
  accessMode : row.accessMode = .team
  grants : row.grants = some []
  barrier : row.audienceBarrier = .absent ∨ row.audienceBarrier = .stored .everyone .everyone

theorem Note.Plain.wellFormed {row : Note} (h : row.Plain) : row.wellFormed = true := by
  rcases h.barrier with hbarrier | hbarrier <;>
    simp [Node.wellFormed, Node.metadataIsValid, h.accessMode, h.grants, hbarrier,
      StoredBarrier.wellFormed, StoredIds.wellFormed, ids]

theorem Note.Plain.reads {row : Note} (h : row.Plain) (u : String) : row.reads u = true := by
  rcases h.barrier with hbarrier | hbarrier <;>
    simp [Node.reads, h.accessMode, hbarrier, StoredBarrier.admitsReader, StoredIds.admits]

theorem composeNode_plain {row : Note} {audience : Audience} (h : row.Plain)
    (hok : composeNode ⟨none, none⟩ row.toNode = .ok audience) : audience = ⟨none, none⟩ := by
  simp only [composeNode, bind_ok, h.accessMode] at hok
  obtain ⟨-, -, hok⟩ := hok
  rcases h.barrier with hbarrier | hbarrier
  · rw [hbarrier] at hok
    exact (pure_ok.mp hok).symm
  · rw [hbarrier] at hok
    exact (pure_ok.mp hok).symm

/-- The path of such notes composes to everyone. -/
theorem compose_plain {audience : Audience} (h : ∀ row ∈ l, row.Plain)
    (hok : composeDocumentAudience (nodes l) = .ok audience) : audience = ⟨none, none⟩ := by
  simp only [composeDocumentAudience, bind_ok, pure_ok] at hok
  obtain ⟨-, -, last, hlast, rfl⟩ := hok
  suffices hnone : last = ⟨none, none⟩ by
    rw [hnone]
    rfl
  induction l with
  | nil => exact (Except.ok.inj hlast).symm
  | cons row rest ih =>
    rw [List.forall_mem_cons] at h
    simp only [nodes, List.map_cons, List.foldlM_cons] at hlast
    obtain ⟨next, hnext, hlast⟩ := bind_ok.mp hlast
    obtain rfl := composeNode_plain h.1 hnext
    exact ih h.2 hlast

/-! ### The stored tree -/

/-- Every active note leads up to a root of its project, and an archived one is a root. -/
structure Rooted (s : State) : Prop where
  users : ∀ user ∈ s.users, validId user.id = true ∧ validId user.organizationId = true
  ids : s.ids.Nodup
  plain : ∀ k row, s.note k = some row → row.Plain
  archived : ∀ k row, s.note k = some row → row.active = false → row.parentId = none
  trail : ∀ k row, s.note k = some row → row.active = true →
    ∃ l, Trail (s.tree row.organizationId false) k l ∧ ∀ r ∈ l, r.projectId = row.projectId

/-- No path is longer than the reader's bound. -/
def Short (s : State) : Prop :=
  ∀ o d l, Trail (s.tree o false) d l → l.length ≤ 200

theorem inScope_active {row : Note} :
    row.inScope o false = true ↔ row.organizationId = o ∧ row.active = true := by
  simp [Note.inScope]

theorem inScope_archived {row : Note} : row.inScope o true = true ↔ row.organizationId = o := by
  simp [Note.inScope]

namespace Rooted

/-- The trail of any note, in the context that its author reads it in. -/
theorem trail_of (h : Rooted s) {row : Note} (hrow : s.note row.id = some row) :
    ∃ l, Trail (s.tree row.organizationId (!row.active)) row.id l ∧
      (∀ r ∈ l, r.projectId = row.projectId) ∧ (Short s → l.length ≤ 200) := by
  cases hactive : row.active with
  | true =>
    obtain ⟨l, hl, hproject⟩ := h.trail _ row hrow hactive
    exact ⟨l, hl, hproject, fun hs => hs _ _ _ hl⟩
  | false =>
    refine ⟨[row], .root ((tree_row_some h.ids).mpr ⟨hrow, ?_⟩) ?_, by simp, by simp⟩
    · exact inScope_archived.mpr rfl
    · exact h.archived _ row hrow hactive

theorem plain_trail (h : Rooted s) {includeDeleted : Bool}
    (hl : Trail (s.tree o includeDeleted) d l) : ∀ row ∈ l, row.Plain :=
  fun row hrow => h.plain _ row (trail_note h.ids hl hrow).1

theorem owned (h : Rooted s) {includeDeleted : Bool} {projectId : String}
    (hl : Trail (s.tree o includeDeleted) d l) (hproject : ∀ r ∈ l, r.projectId = projectId) :
    ∀ row ∈ l, Owned o projectId row := by
  intro row hrow
  obtain ⟨-, hscope⟩ := trail_note h.ids hl hrow
  have hplain := h.plain_trail hl row hrow
  have horg : row.organizationId = o := by
    simp only [Note.inScope, Bool.and_eq_true, decide_eq_true_eq] at hscope
    exact hscope.1
  exact ⟨hplain.id, hplain.authorId, horg ▸ hplain.organizationId, horg, hproject row hrow,
    hplain.wellFormed⟩

/-- A trail within the bound is read by the author of its first note. -/
theorem reads (h : Rooted s) {row : Note} {includeDeleted : Bool}
    (hl : Trail (s.tree row.organizationId includeDeleted) row.id l)
    (hproject : ∀ r ∈ l, r.projectId = row.projectId) (hlength : l.length ≤ 200)
    (hrow : s.note row.id = some row) {user : User} (hid : user.id = row.authorId)
    (horg : user.organizationId = row.organizationId) (hactive : user.isActive = true)
    (hstaff : user.role.isStaff = true) :
    (s.rights user includeDeleted row.id).canRead = true := by
  have hsound := (sound_trail_iff hl).mpr ⟨hlength, _, _, h.owned hl hproject⟩
  have hplain := h.plain _ row hrow
  obtain ⟨first, rest, rfl⟩ := List.exists_cons_of_ne_nil hl.ne_nil
  have hfirst : first = row := by
    have hnote := (tree_row_some h.ids).mp hl.head_row
    exact Option.some.inj (hnote.1.symm.trans hrow)
  have hvalid : validId user.id = true ∧ validId user.organizationId = true := by
    rw [hid, horg]
    exact ⟨hplain.authorId, hplain.organizationId⟩
  have hmember : Member (nodes (first :: rest)) user = true := by
    simp [Member, nodes, hvalid.1, hactive, hstaff, hfirst, horg, hplain.organizationId]
  by_cases hrole : user.role = .admin
  · have hpath := path_of_trail h.ids hl hlength
    have hadmin : Role.admin.isStaff = true := rfl
    rw [State.rights, horg, hpath]
    simp [documentAudienceRights, nodes, hvalid.1, hactive, hadmin, hfirst, horg, hrole,
      hplain.organizationId]
  · refine (canRead_iff h.ids hrole).mpr ⟨_, horg ▸ hl, hmember, hsound, fun r hr => ?_⟩
    exact (h.plain_trail hl r hr).reads user.id

/-- The tree is whole as long as no path is too long. -/
theorem whole_iff (h : Rooted s) : Whole s ↔ Short s := by
  have hnote : ∀ row ∈ s.notes, s.note row.id = some row := fun row hrow => note_of_mem h.ids hrow
  constructor
  · intro hw o d l hl
    obtain ⟨first, rest, rfl⟩ := List.exists_cons_of_ne_nil hl.ne_nil
    obtain ⟨hfirst, hscope⟩ := (tree_row_some h.ids).mp hl.head_row
    obtain ⟨rfl, hactive⟩ := inScope_active.mp hscope
    have hvalid := hw.valid first (note_mem hfirst)
    obtain ⟨l, hl', -⟩ := hw.ends first (note_mem hfirst)
    rw [hactive, Bool.not_true] at hvalid hl'
    obtain rfl := note_id hfirst
    obtain rfl := hl.unique hl'
    obtain ⟨htrail, hlength⟩ := trail_of_valid h.ids hvalid
    rwa [hl.unique htrail]
  · intro hs
    refine ⟨fun row hrow => ?_, fun row hrow => ?_, fun row hrow user hid horg hactive hstaff => ?_⟩
    · obtain ⟨l, hl, -, -⟩ := h.trail_of (hnote row hrow)
      exact ⟨l, hl, hl.nodup tree_keyed⟩
    · obtain ⟨l, hl, hproject, hlength⟩ := h.trail_of (hnote row hrow)
      rw [path_of_trail h.ids hl (hlength hs)]
      exact ((sound_trail_iff hl).mpr ⟨hlength hs, _, _, h.owned hl hproject⟩).1
    · obtain ⟨l, hl, hproject, hlength⟩ := h.trail_of (hnote row hrow)
      exact h.reads hl hproject (hlength hs) (hnote row hrow) hid horg hactive hstaff

/-- The trail of an active row. -/
theorem trail_row (h : Rooted s) {row : Note} (hrow : (s.tree o false).row d = some row) :
    ∃ l, Trail (s.tree o false) d l ∧ ∀ r ∈ l, r.projectId = row.projectId := by
  obtain ⟨hnote, hscope⟩ := (tree_row_some h.ids).mp hrow
  obtain ⟨rfl, hactive⟩ := inScope_active.mp hscope
  exact h.trail d row hnote hactive

end Rooted

/-! ### A note that becomes active -/

/-- The note, which was not active before, is now, under an active note of its project. -/
structure Added (s s' : State) (row : Note) : Prop where
  users : s'.users = s.users
  ids : s'.ids.Nodup
  before : ∀ old, s.note row.id = some old → old.active = false
  after : ∀ k, s'.note k = if k = row.id then some row else s.note k
  plain : row.Plain
  active : row.active = true
  parent : ∀ p, row.parentId = some p →
    ∃ l, Trail (s.tree row.organizationId false) p l ∧ ∀ r ∈ l, r.projectId = row.projectId

namespace Added

variable {row : Note}

theorem tree_row (h : Added s s' row) (hs : Rooted s) {old : Note}
    (hold : (s.tree o false).row d = some old) : (s'.tree o false).row d = some old := by
  obtain ⟨hnote, hscope⟩ := (tree_row_some hs.ids).mp hold
  refine (tree_row_some h.ids).mpr ⟨?_, hscope⟩
  rw [h.after, if_neg]
  · exact hnote
  · rintro rfl
    have hactive := (inScope_active.mp hscope).2
    rw [h.before old hnote] at hactive
    cases hactive

theorem kept (h : Added s s' row) (hs : Rooted s) (hl : Trail (s.tree o false) d l) :
    Trail (s'.tree o false) d l := hl.congr (fun _ _ hold _ => h.tree_row hs hold) rfl

theorem self (h : Added s s' row) :
    (s'.tree row.organizationId false).row row.id = some row :=
  (tree_row_some h.ids).mpr ⟨by rw [h.after, if_pos rfl], inScope_active.mpr ⟨rfl, h.active⟩⟩

theorem rooted (h : Added s s' row) (hs : Rooted s) : Rooted s' := by
  refine ⟨h.users ▸ hs.users, h.ids, fun k r hr => ?_, fun k r hr harchived => ?_,
    fun k r hr hactive => ?_⟩
  · rw [h.after] at hr
    split at hr
    · obtain rfl := Option.some.inj hr
      exact h.plain
    · exact hs.plain k r hr
  · rw [h.after] at hr
    split at hr
    · obtain rfl := Option.some.inj hr
      exact absurd (h.active.symm.trans harchived) (by decide)
    · exact hs.archived k r hr harchived
  · rw [h.after] at hr
    split at hr
    · rename_i hk
      obtain rfl := Option.some.inj hr
      subst hk
      cases hparent : row.parentId with
      | none => exact ⟨[row], .root h.self hparent, by simp⟩
      | some p =>
        obtain ⟨l, hl, hproject⟩ := h.parent p hparent
        refine ⟨row :: l, .child h.self hparent (h.kept hs hl), ?_⟩
        exact List.forall_mem_cons.mpr ⟨rfl, hproject⟩
    · obtain ⟨l, hl, hproject⟩ := hs.trail k r hr hactive
      exact ⟨l, h.kept hs hl, hproject⟩

/-- Only the path of the note itself is new. -/
theorem short_iff (h : Added s s' row) (hs : Rooted s) (hshort : Short s) :
    Short s' ↔ s.Room row.organizationId row.parentId 1 := by
  constructor
  · intro hs' p l hparent hl
    have hlength := hs' _ _ _ (Trail.child h.self hparent (h.kept hs hl))
    rw [List.length_cons] at hlength
    omega
  · intro hroom o d l hl
    obtain ⟨first, rest, rfl⟩ := List.exists_cons_of_ne_nil hl.ne_nil
    obtain ⟨hfirst, hscope⟩ := (tree_row_some h.ids).mp hl.head_row
    obtain ⟨rfl, hactive⟩ := inScope_active.mp hscope
    rw [h.after] at hfirst
    split at hfirst
    · obtain rfl := Option.some.inj hfirst
      cases hparent : row.parentId with
      | none =>
        cases hl with
        | root => simp
        | child _ hp _ => cases hparent.symm.trans hp
      | some p =>
        obtain ⟨lp, hlp, -⟩ := h.parent p hparent
        obtain rfl := (h.kept hs hlp).unique (hl.above hparent)
        have hlength := hroom p _ hparent hlp
        rw [List.length_cons]
        omega
    · obtain ⟨l, hold, -⟩ := hs.trail d first hfirst hactive
      obtain rfl := (h.kept hs hold).unique hl
      exact hshort _ _ _ hold

end Added

/-! ### A note that changes its place -/

/-- The note is now `row'`, under an active note of its project that is not below it. -/
structure Changed (s s' : State) (row row' : Note) : Prop where
  users : s'.users = s.users
  ids : s'.ids = s.ids
  stored : s.note row.id = some row
  other : ∀ k, k ≠ row.id → s'.note k = s.note k
  self : s'.note row.id = some row'
  plain : row'.Plain
  active : row.active = true
  active' : row'.active = true
  organization : row'.organizationId = row.organizationId
  project : row'.projectId = row.projectId
  parent : ∀ p, row'.parentId = some p → ∃ l, Trail (s.tree row.organizationId false) p l ∧
    ∀ r ∈ l, r.projectId = row.projectId ∧ r.id ≠ row.id

namespace Changed

variable {row row' : Note}

theorem ids' (h : Changed s s' row row') (hs : Rooted s) : s'.ids.Nodup := h.ids ▸ hs.ids

/-- Rows other than the note are where they were. -/
theorem tree_row (h : Changed s s' row row') (hs : Rooted s) {old : Note}
    (hold : (s.tree o false).row d = some old) (hne : old.id ≠ row.id) :
    (s'.tree o false).row d = some old := by
  obtain ⟨hnote, hscope⟩ := (tree_row_some hs.ids).mp hold
  refine (tree_row_some (h.ids' hs)).mpr ⟨?_, hscope⟩
  rw [h.other, hnote]
  rintro rfl
  exact hne (note_id hnote)

theorem kept (h : Changed s s' row row') (hs : Rooted s) (hl : Trail (s.tree o false) d l)
    (hne : ∀ r ∈ l, r.id ≠ row.id) : Trail (s'.tree o false) d l :=
  hl.congr (fun _ r hr hin => h.tree_row hs hr (hne r hin)) rfl

/-- The path of the note itself. -/
theorem path (h : Changed s s' row row') (hs : Rooted s) :
    ∃ m, Trail (s'.tree row.organizationId false) row.id (row' :: m) ∧
      (∀ r ∈ m, r.projectId = row.projectId) ∧
      ((row'.parentId = none ∧ m = []) ∨
        ∃ p, row'.parentId = some p ∧ Trail (s.tree row.organizationId false) p m) := by
  have hself : (s'.tree row.organizationId false).row row.id = some row' :=
    (tree_row_some (h.ids' hs)).mpr
      ⟨h.self, inScope_active.mpr ⟨h.organization, h.active'⟩⟩
  cases hparent : row'.parentId with
  | none => exact ⟨[], .root hself hparent, by simp, .inl ⟨rfl, rfl⟩⟩
  | some p =>
    obtain ⟨m, hm, hproject⟩ := h.parent p hparent
    refine ⟨m, .child hself hparent (h.kept hs hm fun r hr => (hproject r hr).2),
      fun r hr => (hproject r hr).1, .inr ⟨p, rfl, hm⟩⟩

/-- A path through the note goes on above its new place. -/
theorem through (h : Changed s s' row row') (hs : Rooted s) {l₁ l₂ m : List Note}
    (hl : Trail (s.tree row.organizationId false) d (l₁ ++ row :: l₂))
    (hm : Trail (s'.tree row.organizationId false) row.id m) :
    Trail (s'.tree row.organizationId false) d (l₁ ++ m) := by
  refine hl.graft tree_keyed (fun k r hr hin => h.tree_row hs hr ?_) rfl hm
  have hnodup := hl.nodup tree_keyed
  rw [List.map_append, List.nodup_append] at hnodup
  intro he
  exact hnodup.2.2 _ (List.mem_map_of_mem hin) _ (List.mem_map_of_mem List.mem_cons_self) he

/-- What has become of a path. -/
theorem trail (h : Changed s s' row row') (hs : Rooted s) (hl : Trail (s.tree o false) d l) :
    Trail (s'.tree o false) d l ∨ o = row.organizationId ∧ ∃ l₁ l₂, l = l₁ ++ row :: l₂ := by
  by_cases hpass : ∃ r ∈ l, r.id = row.id
  · right
    obtain ⟨r, hr, hid⟩ := hpass
    obtain ⟨hnote, hscope⟩ := trail_note hs.ids hl hr
    rw [hid] at hnote
    obtain rfl := Option.some.inj (hnote.symm.trans h.stored)
    exact ⟨(inScope_active.mp hscope).1.symm, List.append_of_mem hr⟩
  · exact .inl (h.kept hs hl fun r hr hid => hpass ⟨r, hr, hid⟩)

theorem rooted (h : Changed s s' row row') (hs : Rooted s) : Rooted s' := by
  have hcases : ∀ k r, s'.note k = some r → k = row.id ∧ r = row' ∨ s.note k = some r := by
    intro k r hr
    by_cases hk : k = row.id
    · subst hk
      exact .inl ⟨rfl, Option.some.inj (hr.symm.trans h.self)⟩
    · exact .inr ((h.other k hk).symm.trans hr)
  refine ⟨h.users ▸ hs.users, h.ids' hs, fun k r hr => ?_, fun k r hr harchived => ?_,
    fun k r hr hactive => ?_⟩
  · obtain ⟨-, rfl⟩ | hold := hcases k r hr
    · exact h.plain
    · exact hs.plain k r hold
  · obtain ⟨-, rfl⟩ | hold := hcases k r hr
    · exact absurd (h.active'.symm.trans harchived) (by decide)
    · exact hs.archived k r hold harchived
  · obtain ⟨m, hm, hproject, -⟩ := h.path hs
    have hproject' : ∀ r ∈ row' :: m, r.projectId = row.projectId :=
      List.forall_mem_cons.mpr ⟨h.project, hproject⟩
    obtain ⟨rfl, rfl⟩ | hold := hcases k r hr
    · rw [h.organization, h.project]
      exact ⟨_, hm, hproject'⟩
    · obtain ⟨l, hl, hall⟩ := hs.trail k r hold hactive
      obtain hkept | ⟨horg, l₁, l₂, rfl⟩ := h.trail hs hl
      · exact ⟨l, hkept, hall⟩
      · rw [horg] at hl ⊢
        have hrow := hall row (by simp)
        refine ⟨_, h.through hs hl hm, fun q hq => ?_⟩
        rcases List.mem_append.mp hq with hq | hq
        · exact hall q (List.mem_append_left _ hq)
        · exact (hproject' q hq).trans hrow

/-- The paths that get longer are those through the note. -/
theorem short_iff (h : Changed s s' row row') (hs : Rooted s) (hshort : Short s) :
    Short s' ↔ ∀ d l₁ l₂, Trail (s.tree row.organizationId false) d (l₁ ++ row :: l₂) →
      s.Room row.organizationId row'.parentId (l₁.length + 1) := by
  obtain ⟨m, hm, -, hplace⟩ := h.path hs
  constructor
  · intro hs' d l₁ l₂ hl p lp hparent hlp
    obtain ⟨hnone, -⟩ | ⟨q, hq, hmq⟩ := hplace
    · cases hnone.symm.trans hparent
    obtain rfl := Option.some.inj (hq.symm.trans hparent)
    obtain rfl := hmq.unique hlp
    have hlength := hs' _ _ _ (h.through hs hl hm)
    simp only [List.length_append, List.length_cons] at hlength
    omega
  · intro hroom o d l hl
    obtain ⟨first, rest, rfl⟩ := List.exists_cons_of_ne_nil hl.ne_nil
    obtain ⟨hfirst, hscope⟩ := (tree_row_some (h.ids' hs)).mp hl.head_row
    -- the note was active before, so that it had a path
    have hold : ∃ l, Trail (s.tree o false) d l := by
      by_cases hd : d = row.id
      · subst hd
        obtain rfl := Option.some.inj (hfirst.symm.trans h.self)
        obtain ⟨rfl, -⟩ := inScope_active.mp hscope
        obtain ⟨l, hl, -⟩ := hs.trail _ row h.stored h.active
        exact ⟨l, h.organization.symm ▸ hl⟩
      · rw [h.other d hd] at hfirst
        obtain ⟨l, hl, -⟩ := hs.trail_row ((tree_row_some hs.ids).mpr ⟨hfirst, hscope⟩)
        exact ⟨l, hl⟩
    obtain ⟨l, hold⟩ := hold
    obtain hkept | ⟨rfl, l₁, l₂, rfl⟩ := h.trail hs hold
    · rw [← hkept.unique hl]
      exact hshort _ _ _ hold
    · rw [← (h.through hs hold hm).unique hl]
      have hlong := hshort _ _ _ hold
      simp only [List.length_append, List.length_cons] at hlong ⊢
      obtain ⟨-, rfl⟩ | ⟨p, hp, hmp⟩ := hplace
      · rw [List.length_nil]
        omega
      · have hlength := hroom d l₁ l₂ hold p m hp hmp
        omega

end Changed

/-! ### What each request does to the tree -/

theorem currentWikiStaff_valid (hs : Rooted s) {user : User}
    (h : currentWikiStaff s actor = .ok user) :
    validId actor.id = true ∧ validId actor.organizationId = true := by
  obtain ⟨hid, horg, -⟩ := currentWikiStaff_ok h
  simp only [currentWikiStaff, Pages.currentWikiStaff, bind_ok, found_ok] at h
  obtain ⟨_, -, h⟩ := h
  have hvalid := hs.users user (List.mem_of_find?_eq_some h)
  rwa [hid, horg] at hvalid

/-- The composed audience of any path is everyone. -/
theorem Rooted.composed (hs : Rooted s) {includeDeleted : Bool} {audience : Audience}
    (h : composeDocumentAudience (nodes (path s o [d] includeDeleted d)) = .ok audience) :
    audience.barrier = .stored .everyone .everyone := by
  have htrail := (trail_of_sound hs.ids (compose_ok h).1).1
  rw [compose_plain (hs.plain_trail htrail) h]
  rfl

theorem Added.of_insert (hs : Rooted s) {id : String} {project : Project}
    {parentId : Option String} {isTemplate : Bool} {barrier : StoredBarrier}
    (hactor : validId actor.id = true ∧ validId actor.organizationId = true)
    (hfresh : validId id = true) (hproject : project.organizationId = actor.organizationId)
    (hadmits : Admits s actor.organizationId project.id none parentId)
    (hbarrier : barrier = .absent ∨ barrier = .stored .everyone .everyone)
    (h : s.insert (newNote id project parentId actor.id isTemplate barrier) = .ok s') :
    Added s s' (newNote id project parentId actor.id isTemplate barrier) := by
  obtain ⟨hnone, hafter, -, -⟩ := insert_ok h
  have husers : s'.users = s.users := by
    simp only [State.insert, bind_ok, pure_ok] at h
    obtain ⟨_, -, rfl⟩ := h
    rfl
  refine ⟨husers, insert_nodup hs.ids h, fun old hold => ?_, hafter, ?_, rfl, fun p hp => ?_⟩
  · cases hnone.symm.trans hold
  · refine ⟨hfresh, hactor.1, ?_, rfl, rfl, hbarrier⟩
    change validId project.organizationId = true
    rw [hproject]
    exact hactor.2
  · obtain ⟨l, hl, -, hall⟩ := hadmits p hp
    rw [← hproject] at hl
    exact ⟨l, hl, fun r hr => (hall r hr).1⟩

theorem create_added (hs : Rooted s) {id projectId : String} {parentId : Option String}
    {isTemplate : Bool} (hfresh : validId id = true)
    (h : createNote s id projectId parentId isTemplate actor = .ok s') :
    ∃ row, Added s s' row ∧ row.organizationId = actor.organizationId ∧
      row.parentId = parentId := by
  obtain ⟨project, hproject, hadmits, hinsert⟩ := createNote_ok hs.ids h
  simp only [createNote, bind_ok] at h
  obtain ⟨-, -, -, -, user, huser, -⟩ := h
  have hactor := currentWikiStaff_valid hs huser
  exact ⟨_, .of_insert hs hactor hfresh hproject hadmits (.inl rfl) hinsert, hproject, rfl⟩

theorem createFromTemplate_added (hs : Rooted s) {id projectId templateId : String}
    {parentId : Option String} (hfresh : validId id = true)
    (h : createFromTemplate s id projectId templateId parentId actor = .ok s') :
    ∃ row, Added s s' row ∧ row.organizationId = actor.organizationId ∧
      row.parentId = parentId := by
  simp only [createFromTemplate, bind_ok, found_ok] at h
  obtain ⟨read, hread, project, hproject, template, -, _, hvalid, access, haccess, _, -, _, -,
    audience, haudience, hinsert⟩ := h
  have hfind := List.find?_some hproject
  simp only [Bool.and_eq_true, decide_eq_true_eq] at hfind
  have hadmits := validateParent_ok hs.ids hvalid
  rw [← hfind.1] at hadmits
  simp only [authorizeNote, bind_ok] at hread
  obtain ⟨user, huser, -⟩ := hread
  have hactor := currentWikiStaff_valid hs huser
  have hpath := (authorizeNote_ok hs.ids haccess).path
  rw [hpath] at haudience
  have hbarrier := hs.composed (composed_ok.mp haudience)
  exact ⟨_, .of_insert hs hactor hfresh hfind.2 hadmits (.inr hbarrier) hinsert, hfind.2, rfl⟩

/-- A note that is edited is in its old place or in the requested one. -/
theorem update_changed (hs : Rooted s) {id : String} {input : UpdateInput}
    (h : updateNote s id input actor = .ok s') :
    ∃ row row', Changed s s' row row' ∧ row.id = id ∧
      row.organizationId = actor.organizationId ∧
      (row'.parentId = row.parentId ∧
          (input.parentId = none ∨ input.parentId = some row.parentId) ∨
        input.parentId = some row'.parentId) := by
  obtain ⟨note, isTemplate, hnote, hactive, horg, hplace⟩ := updateNote_ok hs.ids h
  obtain rfl := note_id hnote
  have hplain := hs.plain _ note hnote
  rcases hplace with ⟨parentId, audience, hparent, hadmits, haudience, rfl⟩ | ⟨hsame, rfl⟩
  · refine ⟨note, { note with
      isTemplate := isTemplate, parentId := parentId, audienceBarrier := audience.barrier
      revision := note.revision + 1 }, ⟨rfl, ids_update (by simp), hnote, fun k hk => ?_, ?_, ?_,
      hactive, hactive, rfl, rfl, fun p hp => ?_⟩, rfl, horg, .inr hparent⟩
    · rw [note_update (by simp), if_neg hk]
    · rw [note_update (by simp), if_pos rfl, hnote]
      rfl
    · exact ⟨hplain.id, hplain.authorId, hplain.organizationId, hplain.accessMode, hplain.grants,
        .inr (hs.composed haudience)⟩
    · obtain ⟨l, hl, -, hall⟩ := hadmits p hp
      rw [horg]
      exact ⟨l, hl, fun r hr => ⟨(hall r hr).1, fun he => (hall r hr).2 (congrArg some he)⟩⟩
  · refine ⟨note, { note with isTemplate := isTemplate, revision := note.revision + 1 },
      ⟨rfl, ids_update (by simp), hnote, fun k hk => ?_, ?_, ?_, hactive, hactive, rfl, rfl,
      fun p hp => ?_⟩, rfl, horg, .inl ⟨rfl, hsame⟩⟩
    · rw [note_update (by simp), if_neg hk]
    · rw [note_update (by simp), if_pos rfl, hnote]
      rfl
    · exact ⟨hplain.id, hplain.authorId, hplain.organizationId, hplain.accessMode, hplain.grants,
        hplain.barrier⟩
    · obtain ⟨l, hl, hall⟩ := hs.trail _ note hnote hactive
      obtain ⟨first, rest, rfl⟩ := List.exists_cons_of_ne_nil hl.ne_nil
      have hfirst := ((tree_row_some hs.ids).mp hl.head_row).1
      obtain rfl := Option.some.inj (hfirst.symm.trans hnote)
      have hnodup := hl.nodup tree_keyed
      rw [List.map_cons, List.nodup_cons] at hnodup
      refine ⟨rest, hl.above hp, fun r hr => ⟨hall r (List.mem_cons_of_mem _ hr), fun he => ?_⟩⟩
      exact hnodup.1 (List.mem_map.mpr ⟨r, hr, he⟩)

theorem restore_added (hs : Rooted s) {id : String} (h : restoreNote s id actor = .ok s') :
    ∃ row, Added s s' row ∧ row.parentId = none := by
  obtain ⟨note, parentId, barrier, hnote, harchived, -, hreturns, hids, hafter⟩ :=
    restoreNote_ok hs.ids h
  have husers : s'.users = s.users := by
    simp only [restoreNote, bind_ok, pure_ok, Prod.exists] at h
    obtain ⟨_, _, -, rfl⟩ := h
    rfl
  have hparent := hs.archived _ note hnote harchived
  have hplain := hs.plain _ note hnote
  obtain rfl := note_id hnote
  cases hreturns with
  | root =>
    refine ⟨note.restored none note.audienceBarrier, ⟨husers, hids ▸ hs.ids, fun old hold => ?_,
      hafter, ?_, rfl, fun p hp => by cases hp⟩, rfl⟩
    · obtain rfl := Option.some.inj (hold.symm.trans hnote)
      exact harchived
    · exact ⟨hplain.id, hplain.authorId, hplain.organizationId, hplain.accessMode, hplain.grants,
        hplain.barrier⟩
  | parent hp => cases hparent.symm.trans hp
  | orphan hp => cases hparent.symm.trans hp

theorem users_detachAll (promoted : List (String × Audience)) :
    (s.detachAll promoted).users = s.users := by
  induction promoted generalizing s with
  | nil => rfl
  | cons child rest ih => exact ih

theorem delete_users {id : String} {now : Time} (h : deleteNote s id now actor = .ok s') :
    s'.users = s.users := by
  simp only [deleteNote, bind_ok, pure_ok] at h
  obtain ⟨_, -, _, -, _, -, promoted, -, rfl⟩ := h
  exact users_detachAll promoted

namespace Removed

variable {id organizationId : String} {now : Time}

/-- A note that is active afterwards was it before, and is where it was or a root. -/
theorem row_before (h : Removed s s' id organizationId now) {k : String} {row : Note}
    (hrow : s'.note k = some row) (hk : k ≠ id) : s.note k = some row ∨
      ∃ old audience, s.note k = some old ∧ old.inScope organizationId false = true ∧
        composeDocumentAudience (nodes (path s organizationId [k] false k)) = .ok audience ∧
        row = old.detached audience := by
  by_cases hchild : ∃ old, s.note k = some old ∧ old.childOf id organizationId
  · obtain ⟨old, hold, hc⟩ := hchild
    obtain ⟨audience, haudience, hnew⟩ := h.promoted k old hk hold hc
    simp only [Note.childOf, Bool.and_eq_true] at hc
    exact .inr ⟨old, audience, hold, hc.2, haudience, Option.some.inj (hrow.symm.trans hnew)⟩
  · exact .inl ((h.kept k hk fun old hold hc => hchild ⟨old, hold, hc⟩).symm.trans hrow)

theorem rooted (h : Removed s s' id organizationId now) (hs : Rooted s)
    (husers : s'.users = s.users) : Rooted s' := by
  obtain ⟨note, audience, revision, hnote, -, haudience, hself⟩ := h.self
  refine ⟨husers ▸ hs.users, h.ids ▸ hs.ids, fun k row hrow => ?_, fun k row hrow harchived => ?_,
    fun k row hrow hactive => ?_⟩
  · by_cases hk : k = id
    · subst hk
      obtain rfl := Option.some.inj (hrow.symm.trans hself)
      have hplain := hs.plain _ note hnote
      exact ⟨hplain.id, hplain.authorId, hplain.organizationId, hplain.accessMode, hplain.grants,
        .inr (hs.composed haudience)⟩
    · obtain hold | ⟨old, audience, hold, -, haudience, rfl⟩ := h.row_before hrow hk
      · exact hs.plain k row hold
      · have hplain := hs.plain k old hold
        exact ⟨hplain.id, hplain.authorId, hplain.organizationId, hplain.accessMode,
          hplain.grants, .inr (hs.composed haudience)⟩
  · by_cases hk : k = id
    · subst hk
      obtain rfl := Option.some.inj (hrow.symm.trans hself)
      rfl
    · obtain hold | ⟨old, audience, -, -, -, rfl⟩ := h.row_before hrow hk
      · exact hs.archived k row hold harchived
      · rfl
  · have hk : k ≠ id := by
      rintro rfl
      obtain rfl := Option.some.inj (hrow.symm.trans hself)
      simp [Note.active] at hactive
    have hbefore : ∃ old, s.note k = some old ∧ old.active = true ∧
        old.organizationId = row.organizationId ∧ old.projectId = row.projectId := by
      obtain hold | ⟨old, audience, hold, hscope, -, rfl⟩ := h.row_before hrow hk
      · exact ⟨row, hold, hactive, rfl, rfl⟩
      · exact ⟨old, hold, (inScope_active.mp hscope).2, rfl, rfl⟩
    obtain ⟨old, hold, hactive', horg, hproject⟩ := hbefore
    obtain ⟨l, hl, hall⟩ := hs.trail k old hold hactive'
    rw [horg] at hl
    rw [hproject] at hall
    obtain ⟨-, hsame⟩ | ⟨l₁, child, l₂, audience, rfl, -, -, hl'⟩ := h.trail hs.ids hl hk
    · exact ⟨l, hsame, hall⟩
    · refine ⟨_, hl', fun r hr => ?_⟩
      rcases List.mem_append.mp hr with hr | hr
      · exact hall r (List.mem_append_left _ hr)
      · obtain rfl := List.mem_singleton.mp hr
        exact hall child (by simp)

/-- No path gets longer. -/
theorem short (h : Removed s s' id organizationId now) (hs : Rooted s) (hshort : Short s) :
    Short s' := by
  intro o d l hl
  obtain ⟨hd, lold, hold⟩ := h.trail_before hs.ids hl
  have hlength := hshort _ _ _ hold
  obtain ⟨-, hsame⟩ | ⟨l₁, child, l₂, audience, rfl, hne, -, hl'⟩ := h.trail hs.ids hold hd
  · rwa [hl.unique hsame]
  · rw [hl.unique hl']
    simp only [List.length_append, List.length_cons, List.length_nil] at hlength ⊢
    omega

end Removed

/-- What a successful request does: the tree stays rooted, and its paths stay within the bound
exactly if the request fits. -/
theorem serve_rooted (hs : Rooted s) {request : Request} (hfresh : request.fresh)
    (h : s.serve actor request = .ok s') :
    Rooted s' ∧ (Short s → (Short s' ↔ Fits s actor request)) := by
  cases request with
  | create id projectId parentId isTemplate =>
    obtain ⟨row, hadded, horg, hparent⟩ := create_added hs hfresh h
    rw [Fits, ← horg, ← hparent]
    exact ⟨hadded.rooted hs, hadded.short_iff hs⟩
  | createFromTemplate id projectId templateId parentId =>
    obtain ⟨row, hadded, horg, hparent⟩ := createFromTemplate_added hs hfresh h
    rw [Fits, ← horg, ← hparent]
    exact ⟨hadded.rooted hs, hadded.short_iff hs⟩
  | update id input =>
    obtain ⟨row, row', hchanged, rfl, horg, hplace⟩ := update_changed hs h
    refine ⟨hchanged.rooted hs, fun hshort => (hchanged.short_iff hs hshort).trans ?_⟩
    rw [Fits, ← horg]
    have hsame : ∀ d l₁ r l₂, Trail (s.tree row.organizationId false) d (l₁ ++ r :: l₂) →
        r.id = row.id → r = row := by
      intro d l₁ r l₂ hl hid
      have hnote := (trail_note hs.ids hl (show r ∈ l₁ ++ r :: l₂ by simp)).1
      rw [hid] at hnote
      exact Option.some.inj (hnote.symm.trans hchanged.stored)
    -- where the note stays, both sides hold because no path is too long
    have hstays : ∀ d l₁ l₂, Trail (s.tree row.organizationId false) d (l₁ ++ row :: l₂) →
        s.Room row.organizationId row.parentId (l₁.length + 1) := by
      intro d l₁ l₂ hl p lp hp hlp
      obtain rfl := ((hl.of_append tree_keyed).above hp).unique hlp
      have hlength := hshort _ _ _ hl
      simp only [List.length_append, List.length_cons] at hlength
      omega
    obtain ⟨hparent, hinput⟩ | hinput := hplace
    · rw [hparent]
      refine ⟨fun _ d l₁ r l₂ hl hid => ?_, fun _ => hstays⟩
      obtain rfl := hsame d l₁ r l₂ hl hid
      obtain hnone | hsome := hinput
      · intro p lp hp
        rw [hnone] at hp
        cases hp
      · rw [hsome]
        exact hstays d l₁ l₂ hl
    · rw [hinput, Option.join_some]
      refine ⟨fun hroom d l₁ r l₂ hl hid => ?_, fun hroom d l₁ l₂ hl => hroom d l₁ row l₂ hl rfl⟩
      obtain rfl := hsame d l₁ r l₂ hl hid
      exact hroom d l₁ l₂ hl
  | delete id now =>
    have hremoved := deleteNote_ok hs.ids h
    refine ⟨hremoved.rooted hs (delete_users h), fun hshort => ?_⟩
    exact ⟨fun _ => trivial, fun _ => hremoved.short hs hshort⟩
  | restore id =>
    obtain ⟨row, hadded, hparent⟩ := restore_added hs h
    refine ⟨hadded.rooted hs, fun hshort => (hadded.short_iff hs hshort).trans ?_⟩
    rw [hparent]
    exact ⟨fun _ => trivial, fun _ p l hp => by cases hp⟩

/-! ### Runs -/

theorem Reached.rooted {allowed : State → Actor → Request → Prop} (h : Reached allowed s) :
    Rooted s := by
  induction h with
  | start users projects h =>
    have hnone : ∀ k row, State.note ⟨users, projects, []⟩ k ≠ some row := fun k row => by
      simp [State.note]
    exact ⟨h, List.nodup_nil, fun k row hrow => absurd hrow (hnone k row),
      fun k row hrow => absurd hrow (hnone k row), fun k row hrow => absurd hrow (hnone k row)⟩
  | step actor request _ _ hfresh hok ih => exact (serve_rooted ih hfresh hok).1

theorem Reached.short (h : Reached Fits s) : Short s := by
  induction h with
  | start users projects h =>
    intro o d l hl
    obtain ⟨first, rest, rfl⟩ := List.exists_cons_of_ne_nil hl.ne_nil
    cases hl.head_row
  | step actor request h hallowed hfresh hok ih =>
    exact ((serve_rooted h.rooted hfresh hok).2 ih).mpr hallowed

/-- While the requests fit, every stored note can be reached, and the first that does not fit
cuts a note off. -/
theorem notes_stay_reachable (h : Reached Fits s) : Whole s ∧
    ∀ actor request s', request.fresh → s.serve actor request = .ok s' →
      (Whole s' ↔ Fits s actor request) := by
  have hs := h.rooted
  refine ⟨hs.whole_iff.mpr h.short, fun actor request s' hfresh hok => ?_⟩
  obtain ⟨hs', hiff⟩ := serve_rooted hs hfresh hok
  exact hs'.whole_iff.trans (hiff h.short)

/-! ### The chain of notes -/

theorem chain_reached {allowed : State → Actor → Request → Prop} {n : ℕ} (hn : n ≤ 201)
    (h : ∀ i < n, allowed (chain i) staffActor
      (.create (chainId i) "project" (chainParent i) false)) : Reached allowed (chain n) := by
  induction n with
  | zero =>
    refine .start [staff] [project] fun user huser => ?_
    obtain rfl := List.mem_singleton.mp huser
    decide
  | succ n ih =>
    have hn' : n ≤ 200 := Nat.le_of_succ_le_succ hn
    have hbefore := ih (Nat.le_of_succ_le hn) fun i hi => h i (Nat.lt_succ_of_lt hi)
    exact .step staffActor _ hbefore (h n (Nat.lt_succ_self n)) (chainId_valid n hn')
      (chain_create hn')

/-- The next note fits under a chain of fewer than 200. -/
theorem chain_fits {n : ℕ} : Fits (chain n) staffActor
    (.create (chainId n) "project" (chainParent n) false) ↔ n < 200 := by
  cases n with
  | zero => exact ⟨fun _ => by decide, fun _ p l hp => by cases hp⟩
  | succ i =>
    have hl := chain_trail (Nat.lt_succ_self i)
    constructor
    · intro hroom
      have hlength := hroom _ _ rfl hl
      rw [chainTrail_length] at hlength
      omega
    · intro hi p l hp hl'
      obtain rfl := Option.some.inj hp
      rw [hl'.unique hl, chainTrail_length]
      omega

theorem notes_stay_reachable_chain : Whole (chain 200) ∧ ¬ Whole (chain 201) := by
  have hreached : Reached Fits (chain 200) :=
    chain_reached (by decide) fun i hi => chain_fits.mpr hi
  obtain ⟨hw, hnext⟩ := notes_stay_reachable hreached
  refine ⟨hw, fun hcut => ?_⟩
  have hfits := (hnext staffActor (.create (chainId 200) "project" (chainParent 200) false)
    (chain 201) (chainId_valid 200 le_rfl) (chain_create le_rfl)).mp hcut
  exact absurd (chain_fits.mp hfits) (by decide)

/-- The routes accept a note with 200 others above it, and its path is refused. -/
theorem chain_cut_off : Reached (fun _ _ _ => True) (chain 201) ∧ ¬ Whole (chain 201) := by
  have hreached : Reached (fun _ _ _ => True) (chain 201) := chain_reached le_rfl fun _ _ => trivial
  refine ⟨hreached, fun hw => ?_⟩
  have hlength := hreached.rooted.whole_iff.mp hw _ _ _ (chain_trail (show 200 < 201 by decide))
  rw [chainTrail_length] at hlength
  exact absurd hlength (by decide)

end Ashbi.Notes
