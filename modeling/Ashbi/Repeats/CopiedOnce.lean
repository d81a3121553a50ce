import Ashbi.Repeats.Copies

/-! In every run each first completion is copied once, behind the latest activation. -/

namespace Ashbi.Repeats

open Checked Interleaving
open Recurrence (Rule Zones SaveInput completionRepeatDate)

section Runs

variable {TaskId : Type} [LinearOrder TaskId] {zones : Zones}

/-- The root and the task whose completion an occurrence copies. -/
def copies (o : Occurrence (machine TaskId zones)) : Option (TaskId × TaskId) :=
  o.stmt.repeats zones o.choice o.pre

def completion (o : Occurrence (machine TaskId zones)) : Option TaskId := (copies o).map (·.2)

/-- The root for which an occurrence turns the repeats after completion on. -/
def activated (o : Occurrence (machine TaskId zones)) : Option TaskId :=
  o.stmt.activates zones o.choice o.pre

/-- The copy that `o` makes for the completion of `x`, behind the occurrences `before`. -/
structure CopiesFirst (before : List (Occurrence (machine TaskId zones)))
    (o : Occurrence (machine TaskId zones)) (root x : TaskId) : Prop where
  /-- Up to an activation the task had not been completed yet. -/
  later : ∀ earlier a rest, before = earlier ++ a :: rest → activated a = some root →
    ∀ b ∈ earlier ++ [a], ∀ row, b.pre.task x = some row →
      row.status ≠ .completed ∧ row.recurrenceFirstCompletedAt = none
  /-- The copy has the date of the stored rule and the first completion. -/
  copy : ∃ live original rule firstCompletedAt row,
    Found o.pre root x live original rule firstCompletedAt ∧
    o.pre.task o.choice.newId = none ∧ o.post.task o.choice.newId = some row ∧
    row.recurrenceSourceId = some root ∧ row.recurrenceCompletionSourceId = some x ∧
    row.dueDate = some (completionRepeatDate zones rule firstCompletedAt) ∧
    ∀ b ∈ before, ∀ old, b.pre.task x = some old →
      (old.status = .completed → old.recurrenceFirstCompletedAt = some firstCompletedAt) ∧
      ∀ stamp ∈ old.recurrenceFirstCompletedAt, stamp = firstCompletedAt

variable {db db₀ db' : Db TaskId} {copied : List TaskId}
  {tr before : List (Occurrence (machine TaskId zones))}
  {o : Occurrence (machine TaskId zones)} {root x : TaskId}

theorem step_kept (o : Occurrence (machine TaskId zones)) (h : Kept o.pre copied) :
    Kept o.post (copied ++ (completion o).toList) ∧ o.pre.Follows o.post :=
  exec_step o.stmt o.choice h

theorem Chained.kept (h : Chained db tr db') (h0 : Kept db copied) :
    Kept db' (copied ++ tr.filterMap completion) ∧ db.Follows db' := by
  induction tr generalizing db copied with
  | nil =>
    obtain rfl := h
    simpa using ⟨h0, Db.Follows.refl db⟩
  | cons o rest ih =>
    obtain ⟨rfl, hrest⟩ := h
    obtain ⟨hkept, hfollows⟩ := step_kept o h0
    obtain ⟨hend, hlater⟩ := ih hrest hkept
    have hlog : copied ++ (o :: rest).filterMap completion =
        copied ++ (completion o).toList ++ rest.filterMap completion := by
      cases hc : completion o <;> simp [hc]
    rw [hlog]
    exact ⟨hend, hfollows.trans hlater⟩

/-- Behind an occurrence of the chain the tasks follow what it found. -/
theorem Chained.follows (h : Chained db (tr ++ o :: before) db') (h0 : Kept db copied) :
    ∃ log, Kept o.pre log ∧ o.pre.Follows db' ∧ o.post.Follows db' := by
  obtain ⟨u, hfront, rfl, hback⟩ := chained_append.mp h
  have hpre := (Chained.kept hfront h0).1
  obtain ⟨hpost, hstep⟩ := step_kept o hpre
  have hend := (Chained.kept hback hpost).2
  exact ⟨_, hpre, hstep.trans hend, hend⟩

/-- A row that was there before a claim is one that the claimed task follows. -/
theorem Found.past {live original : Row TaskId} {rule : Rule} {firstCompletedAt : Time}
    (h : Found db' root x live original rule firstCompletedAt) (hkept : Kept db copied)
    (hfollows : db.Follows db') {row : Row TaskId} (hrow : db.task x = some row) :
    row.Follows live ∧ (row.status = .completed →
      row.recurrenceFirstCompletedAt = some firstCompletedAt) ∧
      ∀ stamp ∈ row.recurrenceFirstCompletedAt, stamp = firstCompletedAt := by
  have hissued : x ∈ db.issued := task_id hrow ▸ hkept.issued row (task_mem hrow)
  obtain ⟨row', hrow', hlater⟩ := hfollows.rows x hissued live h.completion
  obtain rfl := Option.some.inj (hrow.symm.trans hrow')
  have hstamp : ∀ stamp ∈ row.recurrenceFirstCompletedAt, stamp = firstCompletedAt := by
    intro stamp hmem
    have hsame := hlater.stamp stamp hmem
    rw [h.stamp] at hsame
    exact (Option.some.inj hsame).symm
  refine ⟨hlater, fun hcompleted => ?_, hstamp⟩
  rcases hkept.stamped row (task_mem hrow) hcompleted with hfirst | hmarker
  · obtain ⟨stamp, hmem⟩ := Option.isSome_iff_exists.mp hfirst
    rw [hmem, hstamp stamp hmem]
  · have hmarked := hlater.marker hmarker
    rw [h.unmarked] at hmarked
    cases hmarked

/-- A task that was completed up to an activation is marked by it and not copied later. -/
theorem Found.later {live original : Row TaskId} {rule : Rule} {firstCompletedAt : Time}
    {a : Occurrence (machine TaskId zones)} {log : List TaskId}
    (h : Found db' root x live original rule firstCompletedAt) (hkept : Kept db copied)
    (hbefore : db.Follows a.pre) (hakept : Kept a.pre log) (hactivated : activated a = some root)
    (hafter : a.post.Follows db') {row : Row TaskId} (hrow : db.task x = some row) :
    row.status ≠ .completed ∧ row.recurrenceFirstCompletedAt = none := by
  have hstep := (step_kept a hakept).2
  have hfollows := hbefore.trans hstep
  have hissued : x ∈ db.issued := task_id hrow ▸ hkept.issued row (task_mem hrow)
  obtain ⟨marked, hmarked, hlater⟩ := hafter.rows x (hfollows.issued hissued) live h.completion
  obtain ⟨row', hrow', hearly⟩ := hfollows.rows x hissued marked hmarked
  obtain rfl := Option.some.inj (hrow.symm.trans hrow')
  have hunset : row.recurrenceFirstCompletedAt = none := by
    cases hfirst : row.recurrenceFirstCompletedAt with
    | none => rfl
    | some stamp =>
      have hof : marked.of root = true := by
        have hlive := h.of
        rwa [Row.of, hlater.id, hlater.source] at hlive
      have hset : marked.recurrenceFirstCompletedAt.isSome := by
        rw [hearly.stamp stamp hfirst]
        rfl
      have hdone := hlater.marker (activates_marks hakept hactivated hmarked hof hset)
      rw [h.unmarked] at hdone
      cases hdone
  refine ⟨fun hcompleted => ?_, hunset⟩
  have hstamped := (h.past hkept (hfollows.trans hafter) hrow).2.1 hcompleted
  rw [hunset] at hstamped
  cases hstamped

/-- The stored copy. -/
theorem repeatOf_stored (zones : Zones) (now : Time) {live original : Row TaskId} {rule : Rule}
    {firstCompletedAt : Time} {newId : TaskId}
    (h : Found db root x live original rule firstCompletedAt)
    (hkept : Kept db copied) (hnew : newId ∉ db.issued) :
    db.task newId = none ∧
    ((db.updateMany (·.claimable x) (·.processedAt now)).insert
      (repeatOf zones live root rule firstCompletedAt now newId)).task newId =
      some (repeatOf zones live root rule firstCompletedAt now newId) ∧
    (repeatOf zones live root rule firstCompletedAt now newId).recurrenceSourceId = some root ∧
    (repeatOf zones live root rule firstCompletedAt now newId).recurrenceCompletionSourceId =
      some x ∧
    (repeatOf zones live root rule firstCompletedAt now newId).dueDate =
      some (completionRepeatDate zones rule firstCompletedAt) := by
  have hid : (repeatOf zones live root rule firstCompletedAt now newId).id = newId :=
    stamp_id _ _
  have hkept' := hkept.updateMany (·.claimable x) fun row => row.follows_processedAt now
  refine ⟨?_, ?_, stamp_source _ _, ?_, stamp_dueDate _ _⟩
  · cases hrow : db.task newId with
    | none => rfl
    | some row => exact absurd (task_id hrow ▸ hkept.issued row (task_mem hrow)) hnew
  · have hfresh : (repeatOf zones live root rule firstCompletedAt now newId).id ∉
        (db.updateMany (·.claimable x) (·.processedAt now)).issued := hid.symm ▸ hnew
    rw [task_insert hfresh hkept', hid, if_pos rfl]
  · rw [← task_id h.completion]
    exact stamp_origin _ _

theorem Chained.copiesFirst (h : Chained db₀ (before ++ o :: tr) db') (h0 : Kept db₀ copied)
    (hcopies : copies o = some (root, x)) : CopiesFirst before o root x := by
  obtain ⟨u, hfront, hpre, -⟩ := chained_append.mp h
  subst hpre
  obtain ⟨now, hclaim⟩ := repeats_eq_some hcopies
  have hkept := (Chained.kept hfront h0).1
  obtain ⟨live, original, rule, firstCompletedAt, hfound, hnew, -, hpost⟩ :=
    claimCompletion_generated hkept hclaim
  constructor
  · rintro earlier a rest rfl hactivated b hb row hrow
    obtain ⟨log, hakept, -, hafter⟩ := Chained.follows hfront h0
    rcases List.mem_append.mp hb with hb | hb
    · obtain ⟨v, hstart, rfl, -⟩ := chained_append.mp hfront
      obtain ⟨front, back, rfl⟩ := List.append_of_mem hb
      obtain ⟨log', hbkept, hbefore, -⟩ := Chained.follows hstart h0
      exact hfound.later hbkept hbefore hakept hactivated hafter hrow
    · obtain rfl := List.mem_singleton.mp hb
      exact hfound.later hakept (.refl _) hakept hactivated hafter hrow
  · obtain ⟨hnone, hstored, hsource, horigin, hdue⟩ :=
      repeatOf_stored zones now hfound hkept hnew
    refine ⟨live, original, rule, firstCompletedAt, _, hfound, hnone, ?_, hsource, horigin, hdue,
      fun b hb old hold => ?_⟩
    · rw [← hpost] at hstored
      exact hstored
    · obtain ⟨front, back, rfl⟩ := List.append_of_mem hb
      obtain ⟨log, hbkept, hfollows, -⟩ := Chained.follows hfront h0
      exact (hfound.past hbkept hfollows hold).2

variable {c : Config (machine TaskId zones)}

/-- In every run a completion is copied at most once, no copy is made of a task that was
completed before the repeats were turned on, and each copy has its root, and the date of the
rule that is stored and of the first completion. -/
theorem completions_copied (h : Run Deployed db₀ tr c) (h0 : Kept db₀ copied) :
    (copied ++ tr.filterMap completion).Nodup ∧
    (∀ row ∈ c.state.tasks, ∀ x ∈ row.recurrenceCompletionSourceId,
      x ∈ copied ++ tr.filterMap completion) ∧
    ∀ before o after root x, tr = before ++ o :: after → copies o = some (root, x) →
      CopiesFirst before o root x := by
  obtain ⟨hkept, -⟩ := Chained.kept h.chained h0
  refine ⟨hkept.once, hkept.recorded, ?_⟩
  rintro before o after root x rfl hcopies
  exact Chained.copiesFirst h.chained h0 hcopies

end Runs

/-! ### Two runs at one completion -/

section Sample

theorem sampleRule_from : Calendar.monthStart (12 * 2000) ≤ 20500 := by decide +kernel

theorem sampleRule_to : 20500 < Calendar.monthStart (12 * 2100) := by decide +kernel

def sampleRule : Rule where
  trigger := some .afterCompletion
  frequency := .weekly
  interval := 2
  startDate := 20500
  timeZone := "UTC"
  interval_pos := by decide
  interval_le := by decide
  start_from := sampleRule_from
  start_to := sampleRule_to

def sampleDb : Db ℕ := ⟨[createdTask 1 "project" .pending none 0], [1]⟩

/-- The zone of every rule is at the given day. -/
def sampleZones : Zones := fun now _ => now

def samplePrograms : List (Prog (Stmt ℕ) Unit) :=
  [(Prog.stmt (.save 1 ⟨some sampleRule, 0, none⟩ 20510)).bind fun _ => .ret (),
    .stmt (.change 1 .completed none 20520),
    (processCompletionRepeats 20521 2).bind fun _ => .ret (),
    (processCompletionRepeats 20522 2).bind fun _ => .ret ()]

theorem samplePrograms_deployed : ∀ p ∈ samplePrograms, Deployed p := by
  intro p hp
  simp only [samplePrograms, List.mem_cons, List.not_mem_nil, or_false] at hp
  obtain rfl | rfl | rfl | rfl := hp
  · exact .save _ _ _
  · exact .change _ _ _ _
  · exact .process _ _
  · exact .process _ _

/-- Both runs find the completed task, and one of them copies it. -/
theorem completions_copied_sample :
    ∃ (tr : List (Occurrence (machine ℕ sampleZones))) (c : Config (machine ℕ sampleZones)),
      Run Deployed sampleDb tr c ∧
      c.state.tasks.map (fun row => (row.id, row.recurrenceCompletionSourceId, row.dueDate)) =
        [(1, none, none), (2, some 1, some 20534)] ∧
      ([] ++ tr.filterMap completion).Nodup := by
  have hrun : Run (M := machine ℕ sampleZones) Deployed sampleDb _ _ :=
    Run.of_schedule (M := machine ℕ sampleZones) samplePrograms samplePrograms_deployed
      [(0, ⟨0, false⟩), (1, ⟨0, false⟩), (2, ⟨0, false⟩), (3, ⟨0, false⟩), (2, ⟨0, false⟩),
        (3, ⟨0, false⟩), (2, ⟨2, false⟩), (3, ⟨3, false⟩)]
  have hkept : Kept sampleDb [] := by
    refine ⟨by decide, by decide, fun row hrow => ?_, by decide, by simp, by decide⟩
    obtain rfl := List.mem_singleton.mp hrow
    exact stamp_stamped _ _
  exact ⟨_, _, hrun, by decide +kernel, (completions_copied hrun hkept).1⟩

end Sample

end Ashbi.Repeats
