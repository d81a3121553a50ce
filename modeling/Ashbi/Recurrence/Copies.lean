import Ashbi.Interleaving.History
import Ashbi.Interleaving.Rules
import Ashbi.Recurrence.Tasks

/-! The next date of a recurring task stays behind its last one; what a statement does to the
dates and the copies of a task. -/

namespace Ashbi.Recurrence

open Checked Interleaving

section Dates

variable {TaskId : Type} [DecidableEq TaskId] {s s' : State TaskId} {zones : Zones}

/-! ### Rows -/

/-- The next date comes after the last generated one. -/
def Task.Ordered (task : Task TaskId) : Prop :=
  ∀ last ∈ task.recurrenceLastDate, ∀ next ∈ task.recurrenceNextDate, last < next

structure Kept (s : State TaskId) : Prop where
  unique : (s.tasks.map (·.id)).Nodup
  ordered : ∀ task ∈ s.tasks, task.Ordered

def State.lastDate (s : State TaskId) (id : TaskId) : Option ℤ :=
  (s.task id).bind (·.recurrenceLastDate)

theorem task_of_mem (h : Kept s) {task : Task TaskId} (hmem : task ∈ s.tasks) :
    s.task task.id = some task := by
  cases hfind : s.task task.id with
  | none => simp [State.task] at hfind; exact absurd rfl (hfind task hmem)
  | some other =>
    have hid : other.id = task.id := by simpa using List.find?_some hfind
    rw [List.inj_on_of_nodup_map h.unique (List.mem_of_find?_eq_some hfind) hmem hid]

section Update

variable (selects : Task TaskId → Bool) (write : Task TaskId → Task TaskId)

theorem task_updateMany (hid : ∀ task, (write task).id = task.id) (id : TaskId) :
    (s.updateMany selects write).task id =
      (s.task id).map fun task => if selects task then write task else task := by
  simp only [State.task, State.updateMany, List.find?_map]
  congr 2
  funext task
  by_cases h : selects task <;> simp [h, hid]

omit [DecidableEq TaskId] in
theorem Kept.updateMany (h : Kept s) (hid : ∀ task, (write task).id = task.id)
    (hordered : ∀ task ∈ s.tasks, selects task = true → (write task).Ordered) :
    Kept (s.updateMany selects write) where
  unique := by
    have hids : (s.updateMany selects write).tasks.map (·.id) = s.tasks.map (·.id) := by
      simp only [State.updateMany, List.map_map]
      apply List.map_congr_left
      intro task _
      by_cases hs : selects task <;> simp [hs, hid]
    rw [hids]
    exact h.unique
  ordered := by
    intro task htask
    obtain ⟨row, hrow, rfl⟩ := List.mem_map.mp htask
    split
    · rename_i hs
      exact hordered row hrow hs
    · exact h.ordered row hrow

theorem lastDate_updateMany (hid : ∀ task, (write task).id = task.id)
    (hlast : ∀ task, (write task).recurrenceLastDate = task.recurrenceLastDate) (id : TaskId) :
    (s.updateMany selects write).lastDate id = s.lastDate id := by
  unfold State.lastDate
  rw [task_updateMany selects write hid]
  cases s.task id with
  | none => rfl
  | some task => by_cases hs : selects task <;> simp [hs, hlast]

end Update

/-- A new row without dates changes no last date. -/
theorem Kept.insert (h : Kept s) (row : Task TaskId) (hnew : s.task row.id = none)
    (hlast : row.recurrenceLastDate = none) :
    Kept (⟨s.tasks ++ [row]⟩ : State TaskId) ∧
      ∀ x, (⟨s.tasks ++ [row]⟩ : State TaskId).lastDate x = s.lastDate x := by
  have hfresh : ∀ task ∈ s.tasks, task.id ≠ row.id := by simpa [State.task] using hnew
  refine ⟨⟨?_, ?_⟩, fun x => ?_⟩
  · simp only [List.map_append, List.map_cons, List.map_nil]
    apply List.nodup_append.mpr
    refine ⟨h.unique, by simp, fun a ha b hb => ?_⟩
    obtain ⟨task, htask, rfl⟩ := List.mem_map.mp ha
    rw [List.mem_singleton.mp hb]
    exact hfresh task htask
  · intro task htask
    rcases List.mem_append.mp htask with htask | htask
    · exact h.ordered task htask
    · intro last hl
      rw [List.mem_singleton.mp htask, hlast] at hl
      cases hl
  · simp only [State.lastDate, State.task, List.find?_append]
    cases hfind : s.tasks.find? (·.id = x) with
    | some task => rfl
    | none => by_cases hx : row.id = x <;> simp [hx, hlast]

/-! ### Saved rules -/

theorem nextDate_gt {rule : Option Rule} {lastDate : Option ℤ} {now : Time} :
    ∀ last ∈ lastDate, ∀ next ∈ nextDate zones rule lastDate now, last < next := by
  intro last hlast next hnext
  obtain rfl := hlast
  unfold nextDate at hnext
  cases rule with
  | none => cases hnext
  | some rule =>
    simp only at hnext
    split at hnext
    · cases hnext
    split at hnext
    · obtain rfl := Option.some.inj hnext
      exact recurrenceAfter_gt rule last
    · rename_i hle
      obtain rfl := Option.some.inj hnext
      exact Int.not_le.mp hle

theorem save_kept (h : Kept s) {id : TaskId} {input : SaveInput} {now : Time}
    (hsave : saveTaskRecurrence zones s id input now = .ok s') :
    Kept s' ∧ ∀ x, s'.lastDate x = s.lastDate x := by
  unfold saveTaskRecurrence at hsave
  simp only [bind_ok, found_ok] at hsave
  obtain ⟨task, htask, _, hcheck, hsave⟩ := hsave
  obtain ⟨-, -, rfl⟩ := checkSave_ok.mp hcheck
  have hid : task.id = id := by
    have hfind := List.find?_some htask
    simp only [Bool.and_eq_true, decide_eq_true_eq] at hfind
    exact hfind.1
  let next := nextDate zones input.rule task.recurrenceLastDate now
  have hsaved : Kept (s.updateMany (·.id = id) (·.scheduled input.rule next)) := by
    apply h.updateMany _ (·.scheduled input.rule next) (fun _ => rfl)
    intro row hrow hselected
    have hrowid : row.id = task.id := by
      rw [hid]
      simpa using hselected
    have hsame := List.inj_on_of_nodup_map h.unique hrow (List.mem_of_find?_eq_some htask) hrowid
    subst hsame
    exact nextDate_gt
  have hlast := lastDate_updateMany (s := s) (·.id = id) (·.scheduled input.rule next)
    (fun _ => rfl) (fun _ => rfl)
  split at hsave
  · obtain rfl := pure_ok.mp hsave
    constructor
    · exact hsaved.updateMany _ (·.processedAt now) (fun _ => rfl) fun row hrow _ =>
        hsaved.ordered row hrow
    · intro x
      rw [← hlast x]
      exact lastDate_updateMany _ (·.processedAt now) (fun _ => rfl) (fun _ => rfl) x
  · obtain rfl := pure_ok.mp hsave
    exact ⟨hsaved, hlast⟩

/-! ### Claimed dates -/

/-- A claim that generates a copy advances its source from the claimed date. -/
theorem claim_kept (h : Kept s) {source : Task TaskId} {scheduledDate next : ℤ} {newId : TaskId}
    (hdated : scheduledDate < next)
    (hclaim : claimOccurrence s source scheduledDate next newId = (.generated, s')) :
    Kept s' ∧ (∀ last ∈ s.lastDate source.id, last < scheduledDate) ∧
      s'.lastDate source.id = some scheduledDate ∧
      ∀ x, x ≠ source.id → s'.lastDate x = s.lastDate x := by
  unfold claimOccurrence at hclaim
  split at hclaim
  · cases hclaim
  rename_i live hlive
  split at hclaim
  case isFalse => cases hclaim
  rename_i hcurrent
  split at hclaim
  · cases hclaim
  rename_i hfresh
  obtain rfl := (Prod.mk.inj hclaim).2
  simp only [Bool.and_eq_true, decide_eq_true_eq] at hcurrent
  have hfind := List.find?_some hlive
  simp only [Bool.and_eq_true, decide_eq_true_eq] at hfind
  have hmem := List.mem_of_find?_eq_some hlive
  have hstored := task_of_mem h hmem
  rw [hfind.1.1] at hstored
  simp only [Bool.or_eq_true, not_or, Bool.not_eq_true, Option.isSome_eq_false_iff,
    Option.isNone_iff_eq_none] at hfresh
  have hadvanced : Kept (s.updateMany (·.id = source.id) (·.advanced scheduledDate next)) := by
    apply h.updateMany _ (·.advanced scheduledDate next) (fun _ => rfl)
    intro row _ _ last hlast newer hnewer
    obtain rfl := Option.some.inj hlast
    obtain rfl := Option.some.inj hnewer
    exact hdated
  have hlasts := fun x => task_updateMany (s := s) (·.id = source.id)
    (·.advanced scheduledDate next) (fun _ => rfl) x
  have hnew : (s.updateMany (·.id = source.id) (·.advanced scheduledDate next)).task newId =
      none := by
    rw [hlasts, hfresh.1]
    rfl
  obtain ⟨hkept, hsame⟩ := hadvanced.insert
    (copyRecurringTask live newId scheduledDate) hnew rfl
  refine ⟨hkept, ?_, ?_, fun x hx => ?_⟩
  · intro last hl
    simp only [State.lastDate, hstored, Option.bind_some] at hl
    exact h.ordered live hmem last hl scheduledDate hcurrent.1
  · rw [hsame]
    simp only [State.lastDate, hlasts, hstored]
    simp [hfind.1.1, Task.advanced]
  · rw [hsame]
    simp only [State.lastDate, hlasts]
    cases hrow : s.task x with
    | none => rfl
    | some row =>
      have hrowid : row.id = x := by simpa using List.find?_some hrow
      simp [hrowid, hx]

/-- A claim that comes to anything else changes nothing. -/
theorem claim_same {source : Task TaskId} {scheduledDate next : ℤ} {newId : TaskId}
    (hclaim : (claimOccurrence s source scheduledDate next newId).1 ≠ .generated) :
    (claimOccurrence s source scheduledDate next newId).2 = s := by
  unfold claimOccurrence at hclaim ⊢
  split
  · rfl
  split
  · split
    · rfl
    · rename_i hlive hcurrent hfresh
      simp only [hlive, hcurrent, ↓reduceIte, hfresh] at hclaim
      exact absurd rfl hclaim
  · rfl

end Dates

section Copies

variable {TaskId : Type} [LinearOrder TaskId] {zones : Zones} {s s' : State TaskId}

/-! ### Generated copies -/

/-- The source and the date of the copy that a statement generates. -/
def Stmt.generates {β : Type} (st : Stmt TaskId β) (newId : TaskId) (s : State TaskId) :
    Option (TaskId × ℤ) :=
  match st with
  | .claim source scheduledDate next =>
    if (claimOccurrence s source scheduledDate next newId).1 = .generated then
      some (source.id, scheduledDate)
    else none
  | _ => none

/-- The scheduled dates of the stored copies of `x`, oldest first. -/
def State.copies (s : State TaskId) (x : TaskId) : List ℤ :=
  (s.tasks.filter (·.recurrenceSourceId = some x)).filterMap (·.recurrenceScheduledDate)

/-- A claim is dated when it advances to a later date. -/
def Stmt.Dated {β : Type} : Stmt TaskId β → Prop
  | .claim _ scheduledDate next => scheduledDate < next
  | _ => True

theorem copies_updateMany (selects : Task TaskId → Bool) (write : Task TaskId → Task TaskId)
    (hsource : ∀ task, (write task).recurrenceSourceId = task.recurrenceSourceId)
    (hdate : ∀ task, (write task).recurrenceScheduledDate = task.recurrenceScheduledDate)
    (x : TaskId) : (s.updateMany selects write).copies x = s.copies x := by
  unfold State.copies State.updateMany
  dsimp only
  induction s.tasks with
  | nil => rfl
  | cons task rest ih =>
    by_cases hs : selects task <;> by_cases hx : task.recurrenceSourceId = some x <;>
      simp [hs, hx, hsource, hdate, List.filterMap_cons, ih]

theorem save_copies {id : TaskId} {input : SaveInput} {now : Time}
    (hsave : saveTaskRecurrence zones s id input now = .ok s') (x : TaskId) :
    s'.copies x = s.copies x := by
  unfold saveTaskRecurrence at hsave
  simp only [bind_ok, found_ok] at hsave
  obtain ⟨task, -, _, hcheck, hsave⟩ := hsave
  obtain ⟨-, -, rfl⟩ := checkSave_ok.mp hcheck
  have hscheduled := copies_updateMany (s := s) (·.id = id)
    (·.scheduled input.rule (nextDate zones input.rule task.recurrenceLastDate now))
    (fun _ => rfl) (fun _ => rfl) x
  split at hsave
  · obtain rfl := pure_ok.mp hsave
    rw [copies_updateMany _ (·.processedAt now) (fun _ => rfl) (fun _ => rfl), hscheduled]
  · obtain rfl := pure_ok.mp hsave
    exact hscheduled

theorem claim_copies {source : Task TaskId} {scheduledDate next : ℤ} {newId : TaskId}
    (hclaim : claimOccurrence s source scheduledDate next newId = (.generated, s')) (x : TaskId) :
    s'.copies x = s.copies x ++ if source.id = x then [scheduledDate] else [] := by
  unfold claimOccurrence at hclaim
  split at hclaim
  · cases hclaim
  rename_i live hlive
  split at hclaim
  case isFalse => cases hclaim
  split at hclaim
  · cases hclaim
  obtain rfl := (Prod.mk.inj hclaim).2
  have hfind := List.find?_some hlive
  simp only [Bool.and_eq_true, decide_eq_true_eq] at hfind
  have hold := copies_updateMany (s := s) (·.id = source.id) (·.advanced scheduledDate next)
    (fun _ => rfl) (fun _ => rfl) x
  unfold State.copies at hold ⊢
  rw [List.filter_append, List.filterMap_append, hold]
  by_cases hx : source.id = x <;> simp [copyRecurringTask, hfind.1.1, hx]

/-- What a statement does to the dates and the copies of every source. -/
structure Step (generates : Option (TaskId × ℤ)) (s s' : State TaskId) : Prop where
  kept : Kept s'
  grows : ∀ x date, generates = some (x, date) → (∀ last ∈ s.lastDate x, last < date) ∧
    s'.lastDate x = some date ∧ s'.copies x = s.copies x ++ [date]
  others : ∀ x, (∀ date, generates ≠ some (x, date)) →
    s'.lastDate x = s.lastDate x ∧ s'.copies x = s.copies x

theorem Step.quiet (hkept : Kept s') (hlast : ∀ x, s'.lastDate x = s.lastDate x)
    (hcopies : ∀ x, s'.copies x = s.copies x) : Step none s s' where
  kept := hkept
  grows := by simp
  others x _ := ⟨hlast x, hcopies x⟩

theorem exec_step {β : Type} (st : Stmt TaskId β) (newId : TaskId) (h : Kept s)
    (hdated : st.Dated) : Step (st.generates newId s) s (exec zones st newId s).2 := by
  cases st with
  | findSources after => exact .quiet h (fun _ => rfl) fun _ => rfl
  | activity id boardActive projectActive =>
    apply Step.quiet
    · exact h.updateMany _ (·.placed boardActive projectActive) (fun _ => rfl)
        fun task htask _ => h.ordered task htask
    · exact lastDate_updateMany _ (·.placed boardActive projectActive) (fun _ => rfl) fun _ => rfl
    · exact copies_updateMany _ (·.placed boardActive projectActive) (fun _ => rfl) fun _ => rfl
  | save id input now =>
    simp only [exec]
    cases hsave : saveTaskRecurrence zones s id input now with
    | error failure => exact .quiet h (fun _ => rfl) fun _ => rfl
    | ok s' =>
      obtain ⟨hkept, hlast⟩ := save_kept h hsave
      exact .quiet hkept hlast (save_copies hsave)
  | claim source scheduledDate next =>
    simp only [exec, Stmt.generates]
    split
    · rename_i hg
      obtain ⟨s', hclaim⟩ : ∃ s', claimOccurrence s source scheduledDate next newId =
          (.generated, s') := ⟨_, Prod.ext hg rfl⟩
      obtain ⟨hkept, hbefore, hafter, hothers⟩ := claim_kept h hdated hclaim
      rw [hclaim]
      refine ⟨hkept, ?_, fun x hx => ?_⟩
      · intro x date hdate
        obtain ⟨rfl, rfl⟩ := Prod.mk.inj (Option.some.inj hdate)
        exact ⟨hbefore, hafter, by simp [claim_copies hclaim]⟩
      · have hne : source.id ≠ x := fun e => hx scheduledDate (by rw [e])
        exact ⟨hothers x hne.symm, by simp [claim_copies hclaim, hne]⟩
    · rename_i hg
      rw [claim_same hg]
      exact .quiet h (fun _ => rfl) fun _ => rfl

end Copies

end Ashbi.Recurrence
