import Ashbi.Repeats.Statements

/-! Every first completion is copied once. -/

namespace Ashbi.Repeats

open Checked Interleaving
open Recurrence (Rule Zones SaveInput Failure Claimed nextDate completionRepeatDate)

section Rows

variable {TaskId : Type} {row row' row'' : Row TaskId}

/-- A completed row has its stamp, or was processed before there were stamps. -/
def Row.Stamped (row : Row TaskId) : Prop :=
  row.status = .completed →
    row.recurrenceFirstCompletedAt.isSome ∨ row.recurrenceCompletionProcessedAt.isSome

/-- What becomes of a row: its origin stays, and so do its stamp and its marker. -/
structure Row.Follows (row row' : Row TaskId) : Prop where
  id : row'.id = row.id
  source : row'.recurrenceSourceId = row.recurrenceSourceId
  origin : row'.recurrenceCompletionSourceId = row.recurrenceCompletionSourceId
  stamp : ∀ first ∈ row.recurrenceFirstCompletedAt, row'.recurrenceFirstCompletedAt = some first
  marker : row.recurrenceCompletionProcessedAt.isSome →
    row'.recurrenceCompletionProcessedAt.isSome
  stamped : row.Stamped → row'.Stamped

theorem Row.Follows.refl (row : Row TaskId) : row.Follows row :=
  ⟨rfl, rfl, rfl, fun _ h => h, fun h => h, fun h => h⟩

theorem Row.Follows.trans (h : row.Follows row') (h' : row'.Follows row'') :
    row.Follows row'' where
  id := h'.id.trans h.id
  source := h'.source.trans h.source
  origin := h'.origin.trans h.origin
  stamp first hfirst := h'.stamp first (h.stamp first hfirst)
  marker hmarker := h'.marker (h.marker hmarker)
  stamped hstamped := h'.stamped (h.stamped hstamped)

theorem Row.follows_scheduled (row : Row TaskId) (rule : Option Rule) (next : Option ℤ) :
    row.Follows (row.scheduled rule next) :=
  ⟨rfl, rfl, rfl, fun _ h => h, fun h => h, fun h => h⟩

theorem Row.follows_advanced (row : Row TaskId) (scheduledDate next : ℤ) :
    row.Follows (row.advanced scheduledDate next) :=
  ⟨rfl, rfl, rfl, fun _ h => h, fun h => h, fun h => h⟩

theorem Row.follows_placed (row : Row TaskId) (boardActive projectActive : Bool)
    (deletedAt : Option Time) : row.Follows (row.placed boardActive projectActive deletedAt) :=
  ⟨rfl, rfl, rfl, fun _ h => h, fun h => h, fun h => h⟩

theorem Row.follows_processedAt (row : Row TaskId) (now : Time) :
    row.Follows (row.processedAt now) :=
  ⟨rfl, rfl, rfl, fun _ h => h, fun _ => rfl, fun _ _ => .inr rfl⟩

/-! ### The trigger -/

section Stamp

variable (stamp : Option Time) (now : Time)

@[simp] theorem stamp_id : (firstCompletionStamp stamp row now).id = row.id := by
  unfold firstCompletionStamp
  cases stamp <;> dsimp only <;> split_ifs <;> rfl

@[simp] theorem stamp_source :
    (firstCompletionStamp stamp row now).recurrenceSourceId = row.recurrenceSourceId := by
  unfold firstCompletionStamp
  cases stamp <;> dsimp only <;> split_ifs <;> rfl

@[simp] theorem stamp_origin : (firstCompletionStamp stamp row now).recurrenceCompletionSourceId =
    row.recurrenceCompletionSourceId := by
  unfold firstCompletionStamp
  cases stamp <;> dsimp only <;> split_ifs <;> rfl

@[simp] theorem stamp_marker :
    (firstCompletionStamp stamp row now).recurrenceCompletionProcessedAt =
    row.recurrenceCompletionProcessedAt := by
  unfold firstCompletionStamp
  cases stamp <;> dsimp only <;> split_ifs <;> rfl

@[simp] theorem stamp_dueDate : (firstCompletionStamp stamp row now).dueDate = row.dueDate := by
  unfold firstCompletionStamp
  cases stamp <;> dsimp only <;> split_ifs <;> rfl

/-- A stamp stays, and a completed row without one gets one. -/
theorem stamp_first : (firstCompletionStamp stamp row now).recurrenceFirstCompletedAt =
    stamp.or (if row.status = .completed then some (row.completedAt.getD now) else none) := by
  unfold firstCompletionStamp
  cases stamp <;> dsimp only <;> split_ifs <;> rfl

theorem stamp_status : (firstCompletionStamp stamp row now).status = row.status := by
  unfold firstCompletionStamp
  cases stamp <;> dsimp only <;> split_ifs <;> rfl

theorem stamp_stamped : (firstCompletionStamp stamp row now).Stamped := by
  intro hcompleted
  rw [stamp_status] at hcompleted
  left
  rw [stamp_first, if_pos hcompleted]
  cases stamp <;> rfl

end Stamp

theorem Row.follows_changed (row : Row TaskId) (status : Status)
    (completedAt : Option (Option Time)) (now : Time) :
    row.Follows (row.changed status completedAt now) where
  id := stamp_id _ _
  source := stamp_source _ _
  origin := stamp_origin _ _
  stamp first hfirst := by
    rw [Row.changed, stamp_first, Option.mem_def.mp hfirst]
    rfl
  marker hmarker := by
    rw [Row.changed, stamp_marker]
    exact hmarker
  stamped _ := stamp_stamped _ _

end Rows

section Tables

variable {TaskId : Type} [DecidableEq TaskId] {db db' db'' : Db TaskId} {copied : List TaskId}

/-- `copied` are the tasks whose completions were copied so far. -/
structure Kept (db : Db TaskId) (copied : List TaskId) : Prop where
  unique : (db.tasks.map (·.id)).Nodup
  issued : ∀ row ∈ db.tasks, row.id ∈ db.issued
  stamped : ∀ row ∈ db.tasks, row.Stamped
  once : copied.Nodup
  marked : ∀ x ∈ copied, x ∈ db.issued ∧
    ∀ row, db.task x = some row → row.recurrenceCompletionProcessedAt.isSome
  recorded : ∀ row ∈ db.tasks, ∀ x ∈ row.recurrenceCompletionSourceId, x ∈ copied

/-- Rows of known ids follow what they were. -/
structure Db.Follows (db db' : Db TaskId) : Prop where
  issued : db.issued ⊆ db'.issued
  rows : ∀ x ∈ db.issued, ∀ row', db'.task x = some row' →
    ∃ row, db.task x = some row ∧ row.Follows row'

theorem Db.Follows.refl (db : Db TaskId) : db.Follows db :=
  ⟨List.Subset.refl _, fun _ _ row hrow => ⟨row, hrow, .refl row⟩⟩

theorem Db.Follows.trans (h : db.Follows db') (h' : db'.Follows db'') : db.Follows db'' where
  issued := List.Subset.trans h.issued h'.issued
  rows x hx row'' hrow'' := by
    obtain ⟨row', hrow', hlate⟩ := h'.rows x (h.issued hx) row'' hrow''
    obtain ⟨row, hrow, hearly⟩ := h.rows x hx row' hrow'
    exact ⟨row, hrow, hearly.trans hlate⟩

/-- What was marked stays marked. -/
theorem Db.Follows.marked (h : db.Follows db') {x : TaskId} (hx : x ∈ db.issued)
    (hmarked : ∀ row, db.task x = some row → row.recurrenceCompletionProcessedAt.isSome) :
    ∀ row, db'.task x = some row → row.recurrenceCompletionProcessedAt.isSome := by
  intro row' hrow'
  obtain ⟨row, hrow, hfollows⟩ := h.rows x hx row' hrow'
  exact hfollows.marker (hmarked row hrow)

theorem task_mem {x : TaskId} {row : Row TaskId} (h : db.task x = some row) : row ∈ db.tasks :=
  List.mem_of_find?_eq_some h

theorem task_id {x : TaskId} {row : Row TaskId} (h : db.task x = some row) : row.id = x := by
  simpa using List.find?_some h

/-! ### Writes -/

section Update

variable (selects : Row TaskId → Bool) {write : Row TaskId → Row TaskId}
  (hwrite : ∀ row : Row TaskId, row.Follows (write row))
include hwrite

omit [DecidableEq TaskId] in
theorem follows_if (row : Row TaskId) :
    row.Follows (if selects row then write row else row) := by
  split
  · exact hwrite row
  · exact .refl row

theorem task_updateMany (x : TaskId) : (db.updateMany selects write).task x =
    (db.task x).map fun row => if selects row then write row else row :=
  Keyed.find_map (fun row => (follows_if selects hwrite row).id) db.tasks x

theorem Db.follows_updateMany : db.Follows (db.updateMany selects write) where
  issued := List.Subset.refl _
  rows x _ row' hrow' := by
    rw [task_updateMany selects hwrite, Option.map_eq_some_iff] at hrow'
    obtain ⟨row, hrow, rfl⟩ := hrow'
    exact ⟨row, hrow, follows_if selects hwrite row⟩

theorem Kept.updateMany (h : Kept db copied) : Kept (db.updateMany selects write) copied where
  unique := by
    have hids : (db.updateMany selects write).tasks.map (·.id) = db.tasks.map (·.id) :=
      Keyed.keys_map (fun row => (follows_if selects hwrite row).id) db.tasks
    rw [hids]
    exact h.unique
  issued := by
    intro row' hrow'
    obtain ⟨row, hrow, rfl⟩ := List.mem_map.mp hrow'
    rw [(follows_if selects hwrite row).id]
    exact h.issued row hrow
  stamped := by
    intro row' hrow'
    obtain ⟨row, hrow, rfl⟩ := List.mem_map.mp hrow'
    exact (follows_if selects hwrite row).stamped (h.stamped row hrow)
  once := h.once
  marked x hx :=
    ⟨(h.marked x hx).1, (db.follows_updateMany selects hwrite).marked (h.marked x hx).1
      (h.marked x hx).2⟩
  recorded := by
    intro row' hrow' x hx
    obtain ⟨row, hrow, rfl⟩ := List.mem_map.mp hrow'
    rw [(follows_if selects hwrite row).origin] at hx
    exact h.recorded row hrow x hx

end Update

section Insert

variable {row : Row TaskId} (hnew : row.id ∉ db.issued)
include hnew

theorem task_insert (h : Kept db copied) (x : TaskId) :
    (db.insert row).task x = if x = row.id then some row else db.task x := by
  apply Keyed.find_append
  rw [Keyed.find_none]
  exact fun other hother heq => hnew (heq ▸ h.issued other hother)

theorem Db.follows_insert (h : Kept db copied) : db.Follows (db.insert row) where
  issued := List.subset_append_left _ _
  rows x hx row' hrow' := by
    have hother : x ≠ row.id := fun heq => hnew (heq ▸ hx)
    rw [task_insert hnew h, if_neg hother] at hrow'
    exact ⟨row', hrow', .refl row'⟩

/-- A new row counts where its origin is new and was marked. -/
theorem Kept.insert (h : Kept db copied) (hstamped : row.Stamped)
    (horigin : ∀ x ∈ row.recurrenceCompletionSourceId, x ∉ copied ∧ x ∈ db.issued ∧
      ∀ other, db.task x = some other → other.recurrenceCompletionProcessedAt.isSome) :
    Kept (db.insert row) (copied ++ row.recurrenceCompletionSourceId.toList) where
  unique := by
    simp only [Db.insert, List.map_append, List.map_cons, List.map_nil]
    apply List.nodup_append.mpr
    refine ⟨h.unique, by simp, fun a ha b hb heq => ?_⟩
    obtain ⟨other, hother, rfl⟩ := List.mem_map.mp ha
    obtain rfl := List.mem_singleton.mp hb
    exact hnew (heq ▸ h.issued other hother)
  issued := by
    intro other hother
    rcases List.mem_append.mp hother with hother | hother
    · exact List.mem_append_left _ (h.issued other hother)
    · obtain rfl := List.mem_singleton.mp hother
      exact List.mem_append_right _ (List.mem_singleton_self _)
  stamped := by
    intro other hother
    rcases List.mem_append.mp hother with hother | hother
    · exact h.stamped other hother
    · obtain rfl := List.mem_singleton.mp hother
      exact hstamped
  once := by
    apply List.nodup_append.mpr
    refine ⟨h.once, by cases row.recurrenceCompletionSourceId <;> simp, fun a ha b hb heq => ?_⟩
    exact (horigin b (Option.mem_toList.mp hb)).1 (heq ▸ ha)
  marked := by
    intro x hx
    have hknown : x ∈ db.issued ∧
        ∀ other, db.task x = some other → other.recurrenceCompletionProcessedAt.isSome := by
      rcases List.mem_append.mp hx with hx | hx
      · exact h.marked x hx
      · exact (horigin x (Option.mem_toList.mp hx)).2
    exact ⟨List.mem_append_left _ hknown.1, (db.follows_insert hnew h).marked hknown.1 hknown.2⟩
  recorded := by
    intro other hother x hx
    rcases List.mem_append.mp hother with hother | hother
    · exact List.mem_append_left _ (h.recorded other hother x hx)
    · obtain rfl := List.mem_singleton.mp hother
      exact List.mem_append_right _ (Option.mem_toList.mpr hx)

end Insert

end Tables

end Ashbi.Repeats
