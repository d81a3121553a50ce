import Ashbi.Repeats.Once

/-! What a statement copies and activates. -/

namespace Ashbi.Repeats

open Checked Interleaving
open Recurrence (Rule Zones SaveInput Failure Claimed nextDate checkSave_ok completionRepeatDate)

section Statements

variable {TaskId : Type} [DecidableEq TaskId] {zones : Zones} {db db' : Db TaskId}
  {copied : List TaskId} {now : Time} {newId : TaskId}

/-! ### Purged rows -/

theorem Db.follows_purge (h : Kept db copied) (keeps : Row TaskId → Bool) :
    db.Follows { db with tasks := db.tasks.filter keeps } where
  issued := List.Subset.refl _
  rows x _ row' hrow' := by
    have hmem := (List.mem_filter.mp (task_mem hrow')).1
    exact ⟨row', (Keyed.find_iff h.unique).mpr ⟨hmem, task_id hrow'⟩, .refl row'⟩

theorem Kept.purge (h : Kept db copied) (keeps : Row TaskId → Bool) :
    Kept { db with tasks := db.tasks.filter keeps } copied where
  unique := h.unique.sublist (List.filter_sublist.map _)
  issued row hrow := h.issued row (List.mem_filter.mp hrow).1
  stamped row hrow := h.stamped row (List.mem_filter.mp hrow).1
  once := h.once
  marked x hx := ⟨(h.marked x hx).1,
    (Db.follows_purge h keeps).marked (h.marked x hx).1 (h.marked x hx).2⟩
  recorded row hrow := h.recorded row (List.mem_filter.mp hrow).1

/-! ### Saved rules -/

/-- A save that turns the repeats after completion on. -/
def turnsOn (db : Db TaskId) (id : TaskId) (input : SaveInput) : Bool :=
  input.rule.any (·.afterCompletion) &&
    (db.task id).any fun task => !task.recurrenceRule.any (·.afterCompletion)

/-- The markers that turning on sets. -/
def Db.markCompleted (db : Db TaskId) (id : TaskId) (now : Time) : Db TaskId :=
  db.updateMany
    (fun row => row.of id && (row.recurrenceFirstCompletedAt.isSome &&
      row.recurrenceCompletionProcessedAt.isNone)) (·.processedAt now)

theorem saveTaskRecurrence_ok (h : Kept db copied) {id : TaskId} {input : SaveInput}
    (hsave : saveTaskRecurrence zones db id input now = .ok db') :
    ∃ next, db' = if turnsOn db id input then
        (db.updateMany (·.id = id) (·.scheduled input.rule next)).markCompleted id now
      else db.updateMany (·.id = id) (·.scheduled input.rule next) := by
  unfold saveTaskRecurrence at hsave
  simp only [bind_ok, found_ok] at hsave
  obtain ⟨task, htask, _, hcheck, hsave⟩ := hsave
  obtain ⟨-, -, rfl⟩ := checkSave_ok.mp hcheck
  rw [Keyed.find_and h.unique] at htask
  have hrow : db.task id = some task := (Option.filter_eq_some_iff.mp htask).1
  refine ⟨nextDate zones input.rule task.recurrenceLastDate now, ?_⟩
  have hturns : turnsOn db id input = (input.rule.any (·.afterCompletion) &&
      !task.recurrenceRule.any (·.afterCompletion)) := by
    simp [turnsOn, hrow]
  rw [hturns]
  split at hsave
  · rename_i hon
    rw [if_pos hon]
    exact (pure_ok.mp hsave).symm
  · rename_i hoff
    rw [if_neg hoff]
    exact (pure_ok.mp hsave).symm

theorem save_step (h : Kept db copied) {id : TaskId} {input : SaveInput}
    (hsave : saveTaskRecurrence zones db id input now = .ok db') :
    Kept db' copied ∧ db.Follows db' := by
  obtain ⟨next, rfl⟩ := saveTaskRecurrence_ok h hsave
  have hscheduled : ∀ row : Row TaskId, row.Follows (row.scheduled input.rule next) :=
    fun row => row.follows_scheduled input.rule next
  have hmarked : ∀ row : Row TaskId, row.Follows (row.processedAt now) :=
    fun row => row.follows_processedAt now
  have hfirst := h.updateMany (·.id = id) hscheduled
  have hfollows := db.follows_updateMany (·.id = id) hscheduled
  split
  · exact ⟨hfirst.updateMany _ hmarked, hfollows.trans (Db.follows_updateMany _ hmarked)⟩
  · exact ⟨hfirst, hfollows⟩

/-- Turning on marks every completed row of the root. -/
theorem save_marks (h : Kept db copied) {id : TaskId} {input : SaveInput}
    (hsave : saveTaskRecurrence zones db id input now = .ok db') (hon : turnsOn db id input = true)
    {x : TaskId} {row : Row TaskId} (hrow : db'.task x = some row) (hof : row.of id = true)
    (hfirst : row.recurrenceFirstCompletedAt.isSome) :
    row.recurrenceCompletionProcessedAt.isSome := by
  obtain ⟨next, rfl⟩ := saveTaskRecurrence_ok h hsave
  rw [if_pos hon, Db.markCompleted, task_updateMany _ fun row =>
    row.follows_processedAt now] at hrow
  obtain ⟨old, -, rfl⟩ := Option.map_eq_some_iff.mp hrow
  split
  · rfl
  · rename_i hselected
    rw [if_neg hselected] at hof hfirst
    simpa [hof, hfirst, Option.isSome_iff_ne_none] using hselected

/-! ### Claims -/

omit [DecidableEq TaskId] in
theorem copyRecurringTask_stamped (live : Row TaskId) (newId : TaskId)
    (recurrence : Origin TaskId) :
    (copyRecurringTask live newId recurrence now).Stamped := stamp_stamped _ _

/-- A scheduled date copies no completion. -/
theorem occurrence_step (h : Kept db copied) (source : Row TaskId) (scheduledDate next : ℤ) :
    Kept (claimOccurrence db source scheduledDate next newId now).2 copied ∧
      db.Follows (claimOccurrence db source scheduledDate next newId now).2 := by
  unfold claimOccurrence
  split
  · exact ⟨h, .refl db⟩
  rename_i live _
  split
  case isFalse => exact ⟨h, .refl db⟩
  split
  · exact ⟨h, .refl db⟩
  rename_i hfresh
  simp only [Bool.or_eq_true, decide_eq_true_eq, not_or] at hfresh
  have hadvanced : ∀ row : Row TaskId, row.Follows (row.advanced scheduledDate next) :=
    fun row => row.follows_advanced scheduledDate next
  have hkept := h.updateMany (·.id = source.id) hadvanced
  have hnew : (copyRecurringTask live newId
      ⟨scheduledDate, source.id, some scheduledDate, none⟩ now).id ∉
        (db.updateMany (·.id = source.id) (·.advanced scheduledDate next)).issued := by
    rw [copyRecurringTask, stamp_id]
    exact hfresh.1
  have hinsert := hkept.insert hnew (copyRecurringTask_stamped live newId _) (by
    simp [copyRecurringTask])
  have hnone : (copyRecurringTask live newId ⟨scheduledDate, source.id, some scheduledDate, none⟩
      now).recurrenceCompletionSourceId = none := stamp_origin _ _
  rw [hnone, Option.toList_none, List.append_nil] at hinsert
  exact ⟨hinsert,
    (db.follows_updateMany _ hadvanced).trans (Db.follows_insert hnew hkept)⟩

/-- What a claim found that copied the completion of `candidate`. -/
structure Found (db : Db TaskId) (source candidate : TaskId) (live root : Row TaskId)
    (rule : Rule) (firstCompletedAt : Time) : Prop where
  completion : db.task candidate = some live
  completed : live.status = .completed
  unmarked : live.recurrenceCompletionProcessedAt = none
  stamp : live.recurrenceFirstCompletedAt = some firstCompletedAt
  of : live.of source = true
  schedule : db.task source = some root
  original : root.recurrenceSourceId = none
  ruled : root.recurrenceRule = some rule
  afterCompletion : rule.afterCompletion = true

/-- The copy of a completion. -/
def repeatOf (zones : Zones) (live : Row TaskId) (source : TaskId) (rule : Rule)
    (firstCompletedAt now : Time) (newId : TaskId) : Row TaskId :=
  copyRecurringTask live newId
    ⟨completionRepeatDate zones rule firstCompletedAt, source, none, some live.id⟩ now

theorem claimCompletion_generated (h : Kept db copied) {source candidate : TaskId}
    (hclaim : claimCompletion zones db source candidate now newId = (.generated, db')) :
    ∃ live root rule firstCompletedAt, Found db source candidate live root rule firstCompletedAt ∧
      newId ∉ db.issued ∧ (∀ row ∈ db.tasks, row.recurrenceCompletionSourceId ≠ some candidate) ∧
      db' = (db.updateMany (·.claimable candidate) (·.processedAt now)).insert
        (repeatOf zones live source rule firstCompletedAt now newId) := by
  unfold claimCompletion at hclaim
  split at hclaim
  · cases hclaim
  rename_i live hlive
  split at hclaim
  · cases hclaim
  rename_i firstCompletedAt hstamp
  split at hclaim
  · cases hclaim
  rename_i root hroot
  split at hclaim
  · cases hclaim
  rename_i rule hrule
  split at hclaim
  · cases hclaim
  rename_i horiginal
  split at hclaim
  · cases hclaim
  split at hclaim
  · cases hclaim
  split at hclaim
  · cases hclaim
  rename_i hfresh
  rw [Keyed.find_and h.unique] at hlive hroot
  obtain ⟨hrow, hconditions⟩ := Option.filter_eq_some_iff.mp hlive
  obtain ⟨hrootRow, -⟩ := Option.filter_eq_some_iff.mp hroot
  have hid : live.id = candidate := task_id hrow
  have hrootId : root.id = source := task_id hrootRow
  simp only [Bool.and_eq_true, decide_eq_true_eq, Option.isNone_iff_eq_none] at hconditions
  simp only [Bool.or_eq_true, Bool.not_eq_true', not_or, Bool.not_eq_false, Bool.not_eq_true,
    Option.isSome_eq_false_iff, Option.isNone_iff_eq_none] at horiginal
  simp only [Bool.or_eq_true, decide_eq_true_eq, not_or, List.any_eq_true, not_exists, not_and,
    hid] at hfresh
  obtain rfl := (Prod.mk.inj hclaim).2
  refine ⟨live, root, rule, firstCompletedAt, ⟨hrow, hconditions.2.2.1, hconditions.2.2.2, hstamp,
    hconditions.2.1, hrootRow, horiginal.2, hrule, horiginal.1⟩, hfresh.1, hfresh.2, ?_⟩
  rw [repeatOf, hid, hrootId]

theorem claimCompletion_same {source candidate : TaskId}
    (hclaim : (claimCompletion zones db source candidate now newId).1 ≠ .generated) :
    (claimCompletion zones db source candidate now newId).2 = db := by
  revert hclaim
  unfold claimCompletion
  split
  · exact fun _ => rfl
  split
  · exact fun _ => rfl
  split
  · exact fun _ => rfl
  split
  · exact fun _ => rfl
  split_ifs <;> first | exact fun _ => rfl | exact fun hne => absurd rfl hne

/-- A copied completion was not copied before, and is marked from then on. -/
theorem claim_step (h : Kept db copied) {source candidate : TaskId}
    (hclaim : claimCompletion zones db source candidate now newId = (.generated, db')) :
    Kept db' (copied ++ [candidate]) ∧ db.Follows db' := by
  obtain ⟨live, root, rule, firstCompletedAt, hfound, hnew, -, rfl⟩ :=
    claimCompletion_generated h hclaim
  have hprocessed : ∀ row : Row TaskId, row.Follows (row.processedAt now) :=
    fun row => row.follows_processedAt now
  have hkept := h.updateMany (·.claimable candidate) hprocessed
  have hid : live.id = candidate := task_id hfound.completion
  have hfresh : (repeatOf zones live source rule firstCompletedAt now newId).id ∉
      (db.updateMany (·.claimable candidate) (·.processedAt now)).issued := by
    rw [repeatOf, copyRecurringTask, stamp_id]
    exact hnew
  have horigin : (repeatOf zones live source rule firstCompletedAt now
      newId).recurrenceCompletionSourceId = some candidate := by
    rw [repeatOf, copyRecurringTask, stamp_origin, hid]
  have hissued : candidate ∈ db.issued := hid ▸ h.issued live (task_mem hfound.completion)
  have hcopy := hkept.insert hfresh (copyRecurringTask_stamped live newId _) (by
    intro x hx
    obtain rfl : candidate = x := Option.some.inj (horigin ▸ hx)
    refine ⟨fun hmem => ?_, hissued, ?_⟩
    · have hmarked := (h.marked candidate hmem).2 live hfound.completion
      rw [hfound.unmarked] at hmarked
      cases hmarked
    · intro row hrow
      rw [task_updateMany _ hprocessed, hfound.completion] at hrow
      obtain rfl := Option.some.inj hrow
      simp [Row.claimable, hid, hfound.completed, hfound.unmarked, Row.processedAt,
        Recurrence.Task.processedAt])
  rw [horigin] at hcopy
  exact ⟨hcopy, (db.follows_updateMany _ hprocessed).trans (Db.follows_insert hfresh hkept)⟩

end Statements

section Machine

variable {TaskId : Type} [LinearOrder TaskId] {zones : Zones} {db : Db TaskId}
  {copied : List TaskId}

/-- The root and the completed task of the copy that a statement makes. -/
def Stmt.repeats {β : Type} (zones : Zones) (st : Stmt TaskId β) (choice : Choice TaskId)
    (db : Db TaskId) : Option (TaskId × TaskId) :=
  match st with
  | .claimCompletion source candidate now =>
    if !choice.conflict &&
        (Repeats.claimCompletion zones db source candidate now choice.newId).1 = .generated then
      some (source, candidate)
    else none
  | _ => none

/-- The root for which a statement turns the repeats after completion on. -/
def Stmt.activates {β : Type} (zones : Zones) (st : Stmt TaskId β) (choice : Choice TaskId)
    (db : Db TaskId) : Option TaskId :=
  match st with
  | .save id input now =>
    if !choice.conflict && ((saveTaskRecurrence zones db id input now).toOption.isSome &&
        turnsOn db id input) then some id
    else none
  | _ => none

theorem repeats_eq_some {β : Type} {st : Stmt TaskId β} {choice : Choice TaskId}
    {source candidate : TaskId} (h : st.repeats zones choice db = some (source, candidate)) :
    ∃ now, claimCompletion zones db source candidate now choice.newId =
      (.generated, (exec zones st choice db).2) := by
  unfold Stmt.repeats at h
  split at h
  case h_2 => cases h
  rename_i root task now
  split at h
  case isFalse => cases h
  rename_i hgenerated
  obtain ⟨rfl, rfl⟩ := Prod.mk.inj (Option.some.inj h)
  simp only [Bool.and_eq_true, Bool.not_eq_true', decide_eq_true_eq] at hgenerated
  refine ⟨now, Prod.ext hgenerated.2 ?_⟩
  simp [exec, hgenerated.1]

theorem claimCompletion_step (h : Kept db copied) (source candidate : TaskId) (now : Time)
    (choice : Choice TaskId) :
    Kept (exec zones (.claimCompletion source candidate now) choice db).2 (copied ++
      (((Stmt.claimCompletion source candidate now).repeats zones choice db).map (·.2)).toList) ∧
      db.Follows (exec zones (.claimCompletion source candidate now) choice db).2 := by
  cases hrepeats : (Stmt.claimCompletion source candidate now).repeats zones choice db with
  | some copy =>
    obtain ⟨root, task⟩ := copy
    obtain ⟨now', hclaim⟩ := repeats_eq_some hrepeats
    exact claim_step h hclaim
  | none =>
    simp only [Option.map_none, Option.toList_none, List.append_nil]
    have hsame : (exec zones (.claimCompletion source candidate now) choice db).2 = db := by
      simp only [Stmt.repeats, ite_eq_right_iff, reduceCtorEq, imp_false, Bool.and_eq_true,
        Bool.not_eq_true', decide_eq_true_eq, not_and] at hrepeats
      simp only [exec]
      split
      · rfl
      · rename_i hconflict
        exact claimCompletion_same (hrepeats (Bool.not_eq_true _ ▸ hconflict))
    rw [hsame]
    exact ⟨h, .refl db⟩

/-- A created task repeats none. -/
theorem create_step (h : Kept db copied) {newId : TaskId} (hfresh : newId ∉ db.issued)
    (projectId : String) (status : Status) (completedAt : Option Time) (now : Time) :
    Kept (db.insert (createdTask newId projectId status completedAt now)) copied ∧
      db.Follows (db.insert (createdTask newId projectId status completedAt now)) := by
  have hnew : (createdTask newId projectId status completedAt now).id ∉ db.issued := by
    rw [createdTask, stamp_id]
    exact hfresh
  have horigin : (createdTask newId projectId status completedAt
      now).recurrenceCompletionSourceId = none := stamp_origin _ _
  have hkept := h.insert hnew (stamp_stamped _ _) (by simp [horigin])
  rw [horigin, Option.toList_none, List.append_nil] at hkept
  exact ⟨hkept, Db.follows_insert hnew h⟩

/-- What a statement does to the tasks. -/
theorem exec_step {β : Type} (st : Stmt TaskId β) (choice : Choice TaskId)
    (h : Kept db copied) :
    Kept (exec zones st choice db).2
      (copied ++ ((st.repeats zones choice db).map (·.2)).toList) ∧
      db.Follows (exec zones st choice db).2 := by
  cases st with
  | findRoots after => simpa [Stmt.repeats] using ⟨h, Db.Follows.refl db⟩
  | findCompleted source after => simpa [Stmt.repeats] using ⟨h, Db.Follows.refl db⟩
  | claimCompletion source candidate now =>
    exact claimCompletion_step h source candidate now choice
  | claimOccurrence source scheduledDate next now =>
    simp only [Stmt.repeats, Option.map_none, Option.toList_none, List.append_nil, exec]
    split
    · exact ⟨h, .refl db⟩
    · exact occurrence_step h source scheduledDate next
  | save id input now =>
    simp only [Stmt.repeats, Option.map_none, Option.toList_none, List.append_nil, exec]
    split
    · exact ⟨h, .refl db⟩
    cases hsave : saveTaskRecurrence zones db id input now with
    | error failure => exact ⟨h, .refl db⟩
    | ok saved => exact save_step h hsave
  | change id status completedAt now =>
    simp only [Stmt.repeats, Option.map_none, Option.toList_none, List.append_nil, exec]
    have hchanged : ∀ row : Row TaskId, row.Follows (row.changed status completedAt now) :=
      fun row => row.follows_changed status completedAt now
    exact ⟨h.updateMany _ hchanged, db.follows_updateMany _ hchanged⟩
  | create projectId status completedAt now =>
    simp only [Stmt.repeats, Option.map_none, Option.toList_none, List.append_nil, exec]
    split
    · exact ⟨h, .refl db⟩
    rename_i hfresh
    exact create_step h hfresh projectId status completedAt now
  | place id boardActive projectActive deletedAt =>
    simp only [Stmt.repeats, Option.map_none, Option.toList_none, List.append_nil, exec]
    have hplaced : ∀ row : Row TaskId,
        row.Follows (row.placed boardActive projectActive deletedAt) :=
      fun row => row.follows_placed boardActive projectActive deletedAt
    exact ⟨h.updateMany _ hplaced, db.follows_updateMany _ hplaced⟩
  | purge ids =>
    simp only [Stmt.repeats, Option.map_none, Option.toList_none, List.append_nil, exec]
    exact ⟨h.purge _, Db.follows_purge h _⟩

/-- After an activation every task of the root that was completed before is marked. -/
theorem activates_marks {β : Type} {st : Stmt TaskId β} {choice : Choice TaskId}
    (h : Kept db copied) {root x : TaskId} {row : Row TaskId}
    (hactivates : st.activates zones choice db = some root)
    (hrow : (exec zones st choice db).2.task x = some row) (hof : row.of root = true)
    (hfirst : row.recurrenceFirstCompletedAt.isSome) :
    row.recurrenceCompletionProcessedAt.isSome := by
  unfold Stmt.activates at hactivates
  split at hactivates
  case h_2 => cases hactivates
  rename_i id input now
  split at hactivates
  case isFalse => cases hactivates
  rename_i hon
  obtain rfl := Option.some.inj hactivates
  simp only [Bool.and_eq_true, Bool.not_eq_true'] at hon
  simp only [exec, hon.1, Bool.false_eq_true, ↓reduceIte] at hrow
  cases hsave : saveTaskRecurrence zones db id input now with
  | error failure =>
    rw [hsave] at hon
    exact absurd hon.2.1 Bool.false_ne_true
  | ok saved =>
    rw [hsave] at hrow
    exact save_marks h hsave hon.2.2 hrow hof hfirst

end Machine

end Ashbi.Repeats
