import Mathlib.Data.List.Perm.Subperm
import Ashbi.Notes.Note
import Ashbi.Notes.Rights

/-! The tree of notes, and what the requests do to it. -/

namespace Ashbi.Notes

open Checked Hierarchy
open Pages (User Role Rights Actor Failure)

variable {s s' : State} {organizationId id k : String} {includeDeleted : Bool}

/-! ### Rows -/

def State.ids (s : State) : List String := s.notes.map (·.id)

def State.note (s : State) (id : String) : Option Note := s.notes.find? (·.id = id)

theorem note_id {row : Note} (h : s.note k = some row) : row.id = k := by
  simpa using List.find?_some h

theorem note_mem {row : Note} (h : s.note k = some row) : row ∈ s.notes :=
  List.mem_of_find?_eq_some h

theorem note_of_mem (hunique : s.ids.Nodup) {row : Note} (h : row ∈ s.notes) :
    s.note row.id = some row := by
  cases hfind : s.note row.id with
  | none =>
    simp only [State.note, List.find?_eq_none, decide_eq_true_eq] at hfind
    exact absurd rfl (hfind row h)
  | some other =>
    rw [List.inj_on_of_nodup_map hunique (note_mem hfind) h (note_id hfind)]

/-- A search by id and a condition is a search by id, of which the condition is asked. -/
theorem find_note (hunique : s.ids.Nodup) (p : Note → Bool) :
    (s.notes.find? fun row => row.id = k && p row) = (s.note k).filter p := by
  cases hnote : s.note k with
  | none =>
    simp only [State.note, List.find?_eq_none, decide_eq_true_eq] at hnote
    simp only [Option.filter_none, List.find?_eq_none, Bool.and_eq_true, decide_eq_true_eq]
    exact fun row hrow h => hnote row hrow h.1
  | some row =>
    have hid := note_id hnote
    cases hfind : s.notes.find? fun row => row.id = k && p row with
    | none =>
      rw [List.find?_eq_none] at hfind
      have hp := hfind row (note_mem hnote)
      simp only [hid, decide_true, Bool.true_and] at hp
      simp [Option.filter, hp]
    | some other =>
      have hother := List.find?_some hfind
      simp only [Bool.and_eq_true, decide_eq_true_eq] at hother
      have hsame := note_of_mem hunique (List.mem_of_find?_eq_some hfind)
      rw [hother.1, hnote] at hsame
      obtain rfl := Option.some.inj hsame
      simp [Option.filter, hother.2]

theorem tree_row (hunique : s.ids.Nodup) :
    (s.tree organizationId includeDeleted).row k =
      (s.note k).filter (·.inScope organizationId includeDeleted) := find_note hunique _

theorem tree_row_some (hunique : s.ids.Nodup) {row : Note} :
    (s.tree organizationId includeDeleted).row k = some row ↔
      s.note k = some row ∧ row.inScope organizationId includeDeleted = true := by
  rw [tree_row hunique, Option.filter_eq_some_iff]

theorem tree_keyed : (s.tree organizationId includeDeleted).Keyed := by
  intro k row h
  have hfind := List.find?_some h
  simp only [Bool.and_eq_true, decide_eq_true_eq] at hfind
  exact hfind.1

/-- A batch of 100 ids is answered by their rows. -/
theorem fetch_answers (hunique : s.ids.Nodup) :
    Answers (s.tree organizationId includeDeleted) (s.fetch organizationId includeDeleted) 100 := by
  intro batch hbatch row
  set rows := s.notes.filter fun row =>
    batch.contains row.id && row.inScope organizationId includeDeleted with hrows
  have hlength : rows.length ≤ 100 := by
    have hnodup : (rows.map (·.id)).Nodup := hunique.sublist (List.filter_sublist.map _)
    have hsub : rows.map (·.id) ⊆ batch := by
      intro k hk
      obtain ⟨row, hrow, rfl⟩ := List.mem_map.mp hk
      have hin := (List.mem_filter.mp hrow).2
      simp only [Bool.and_eq_true, List.contains_eq_mem, decide_eq_true_eq] at hin
      exact hin.1
    have hle := (List.subperm_of_subset hnodup hsub).length_le
    rw [List.length_map] at hle
    exact hle.trans hbatch
  rw [State.fetch, List.take_of_length_le hlength, hrows, List.mem_filter]
  simp only [Bool.and_eq_true, List.contains_eq_mem, decide_eq_true_eq]
  have hkey : (s.tree organizationId includeDeleted).key row = row.id := rfl
  rw [hkey, tree_row_some hunique]
  constructor
  · rintro ⟨hmem, hin, hscope⟩
    exact ⟨hin, note_of_mem hunique hmem, hscope⟩
  · rintro ⟨hin, hnote, hscope⟩
    exact ⟨note_mem hnote, hin, hscope⟩

/-! ### Paths -/

/-- The loaded path is the walk over the table. -/
theorem path_eq (hunique : s.ids.Nodup) {ids : List String} (hid : id ∈ ids) :
    path s organizationId ids includeDeleted id =
      (s.tree organizationId includeDeleted).climb 200 [] id :=
  climb_loaded (fetch_answers hunique) tree_keyed (by decide) (List.mem_eraseDups.mpr hid)
    (by decide)

variable {l : List Note}

theorem path_of_trail (hunique : s.ids.Nodup)
    (h : Trail (s.tree organizationId includeDeleted) id l) (hlength : l.length ≤ 200) :
    path s organizationId [id] includeDeleted id = l := by
  rw [path_eq hunique (by simp)]
  exact h.climb_eq tree_keyed hlength (by simp)

theorem linked_last {l : List Note} (h : Linked (nodes l)) {row : Note}
    (hrow : l.getLast? = some row) : row.parentId = none := by
  induction l with
  | nil => cases hrow
  | cons first rest ih =>
    cases rest with
    | nil =>
      simp only [List.getLast?_singleton, Option.some.injEq] at hrow
      subst hrow
      simpa [nodes, Linked] using h
    | cons second rest => exact ih h.2 (by rwa [List.getLast?_cons_cons] at hrow)

/-- A path that the algebra accepts goes up to a root. -/
theorem trail_of_valid (hunique : s.ids.Nodup)
    (h : pathIsValid (nodes (path s organizationId [id] includeDeleted id)) = true) :
    Trail (s.tree organizationId includeDeleted) id
        (path s organizationId [id] includeDeleted id) ∧
      (path s organizationId [id] includeDeleted id).length ≤ 200 := by
  obtain ⟨hlength, hlinked, -, first, hfirst, -⟩ := pathIsValid_iff.mp h
  refine ⟨Trail.of_climb (path_eq hunique (by simp)).symm ?_, by simpa [nodes] using hlength⟩
  cases hlast : (path s organizationId [id] includeDeleted id).getLast? with
  | none =>
    rw [List.getLast?_eq_none_iff] at hlast
    simp [hlast, nodes] at hfirst
  | some row => exact ⟨row, rfl, linked_last hlinked hlast⟩

theorem trail_of_sound (hunique : s.ids.Nodup)
    (h : Sound (nodes (path s organizationId [id] includeDeleted id))) :
    Trail (s.tree organizationId includeDeleted) id
        (path s organizationId [id] includeDeleted id) ∧
      (path s organizationId [id] includeDeleted id).length ≤ 200 := trail_of_valid hunique h.1

/-- What a path owes to a document beside its place. -/
structure Owned (organizationId projectId : String) (row : Note) : Prop where
  id : validId row.id = true
  authorId : validId row.authorId = true
  valid : validId organizationId = true
  organization : row.organizationId = organizationId
  project : row.projectId = projectId
  wellFormed : row.wellFormed = true

theorem trail_linked (h : Trail (s.tree organizationId includeDeleted) id l) :
    Linked (nodes l) := by
  induction h with
  | root _ hp => exact ⟨hp, trivial⟩
  | @child k p row rest hrow hp hl ih =>
    refine ⟨?_, ih⟩
    obtain ⟨next, rest', rfl⟩ := List.exists_cons_of_ne_nil hl.ne_nil
    have hkey := tree_keyed _ _ hl.head_row
    have hid : next.id = p := hkey
    have hparent : row.parentId = some p := hp
    simp [hparent, hid]

/-- A trail is sound if it is short enough and every row on it is. -/
theorem sound_trail_iff (h : Trail (s.tree organizationId includeDeleted) id l) :
    Sound (nodes l) ↔ l.length ≤ 200 ∧ ∃ o p, ∀ row ∈ l, Owned o p row := by
  obtain ⟨first, rest, rfl⟩ := List.exists_cons_of_ne_nil h.ne_nil
  have hnodup : ((nodes (first :: rest)).map (·.id)).Nodup := by
    have hkeys := h.nodup tree_keyed
    simpa [nodes, State.tree, Function.comp_def] using hkeys
  rw [Sound, pathIsValid_iff]
  simp only [nodes, List.length_map, List.all_map, List.all_eq_true, Function.comp_apply,
    List.forall_mem_map]
  constructor
  · rintro ⟨⟨hlength, -, -, head, hhead, hbelongs⟩, hwell⟩
    obtain rfl : first.toNode = head := by simpa using hhead
    refine ⟨hlength, first.organizationId, first.projectId, fun row hrow => ?_⟩
    have hrow' := hbelongs row hrow
    exact ⟨hrow'.id, hrow'.authorId, hrow'.organization ▸ hrow'.organizationId,
      hrow'.organization, hrow'.project, hwell row hrow⟩
  · rintro ⟨hlength, o, p, hall⟩
    have hfirst := hall first List.mem_cons_self
    refine ⟨⟨hlength, trail_linked h, hnodup, first.toNode, rfl, fun row hrow => ?_⟩,
      fun row hrow => (hall row hrow).wellFormed⟩
    have hrow' := hall row hrow
    exact ⟨hrow'.id, hrow'.authorId, hrow'.organization.symm ▸ hrow'.valid,
      hrow'.organization.trans hfirst.organization.symm,
      hrow'.project.trans hfirst.project.symm⟩

/-! ### Rights -/

/-- What the user may do with the note. -/
def State.rights (s : State) (user : User) (includeDeleted : Bool) (id : String) : Rights :=
  documentAudienceRights (nodes (path s user.organizationId [id] includeDeleted id)) user

/-- The trail from the note to its root is sound, and every note of it lets the user read. -/
structure Readable (s : State) (user : User) (includeDeleted : Bool) (id : String)
    (l : List Note) : Prop where
  trail : Trail (s.tree user.organizationId includeDeleted) id l
  member : Member (nodes l) user = true
  sound : Sound (nodes l)
  reads : ∀ row ∈ l, row.reads user.id = true

theorem canRead_iff (hunique : s.ids.Nodup) {user : User} (hrole : user.role ≠ .admin) :
    (s.rights user includeDeleted id).canRead = true ↔
      ∃ l, Readable s user includeDeleted id l := by
  obtain ⟨hread, -, -⟩ := @rights_eq (nodes (path s user.organizationId [id] includeDeleted id)) _
    hrole
  rw [State.rights, hread]
  constructor
  · rintro ⟨hmember, hsound, hreads⟩
    refine ⟨_, (trail_of_sound hunique hsound).1, hmember, hsound, ?_⟩
    simpa [nodes] using hreads
  · rintro ⟨l, htrail, hmember, hsound, hreads⟩
    obtain ⟨hlength, -⟩ := pathIsValid_iff.mp hsound.1
    have hpath := path_of_trail hunique htrail (by simpa [nodes] using hlength)
    rw [hpath]
    exact ⟨hmember, hsound, by simpa [nodes] using hreads⟩

theorem canEdit_iff (hunique : s.ids.Nodup) {user : User} (hrole : user.role ≠ .admin) :
    (s.rights user includeDeleted id).canEdit = true ↔
      ∃ l, Readable s user includeDeleted id l ∧ ∀ row ∈ l, row.edits user.id = true := by
  obtain ⟨-, hedit, -⟩ := @rights_eq (nodes (path s user.organizationId [id] includeDeleted id)) _
    hrole
  rw [State.rights, hedit]
  constructor
  · rintro ⟨hmember, hsound, hreads, hedits⟩
    refine ⟨_, ⟨(trail_of_sound hunique hsound).1, hmember, hsound, ?_⟩, ?_⟩
    · simpa [nodes] using hreads
    · simpa [nodes] using hedits
  · rintro ⟨l, ⟨htrail, hmember, hsound, hreads⟩, hedits⟩
    obtain ⟨hlength, -⟩ := pathIsValid_iff.mp hsound.1
    have hpath := path_of_trail hunique htrail (by simpa [nodes] using hlength)
    rw [hpath]
    exact ⟨hmember, hsound, by simpa [nodes] using hreads, by simpa [nodes] using hedits⟩

theorem canManage_iff (hunique : s.ids.Nodup) {user : User} (hrole : user.role ≠ .admin) :
    (s.rights user includeDeleted id).canManage = true ↔
      (s.rights user includeDeleted id).canEdit = true ∧
        ∃ row, s.note id = some row ∧ row.authorId = user.id := by
  obtain ⟨-, -, hmanage⟩ :=
    @rights_eq (nodes (path s user.organizationId [id] includeDeleted id)) _ hrole
  rw [State.rights, hmanage]
  refine and_congr_right fun hedit => ?_
  obtain ⟨l, hreadable, -⟩ := (canEdit_iff hunique hrole).mp hedit
  obtain ⟨hlength, -⟩ := pathIsValid_iff.mp hreadable.sound.1
  rw [path_of_trail hunique hreadable.trail (by simpa [nodes] using hlength)]
  obtain ⟨first, rest, rfl⟩ := List.exists_cons_of_ne_nil hreadable.trail.ne_nil
  obtain ⟨hnote, -⟩ := (tree_row_some hunique).mp hreadable.trail.head_row
  simp [nodes, hnote]

end Ashbi.Notes
