import Ashbi.Dependencies.Task
import Ashbi.Hierarchy.Lineage

/-! Dependencies end while every new one is checked against tasks that can be seen. -/

namespace Ashbi.Dependencies

open Checked Hierarchy
open Pages (Id Role Actor Failure)

variable {s s' : State} {id : Id} {actor : Actor}

/-! ### Rows -/

def State.ids (s : State) : List Id := s.tasks.map (·.id)

def State.task (s : State) (id : Id) : Option Task := s.tasks.find? (·.id = id)

def State.dependsOn (s : State) (id : Id) : Option Id := (s.task id).bind (·.dependsOnId)

theorem task_id {task : Task} (h : s.task id = some task) : task.id = id := by
  simpa using List.find?_some h

theorem task_mem {task : Task} (h : s.task id = some task) : task ∈ s.tasks :=
  List.mem_of_find?_eq_some h

theorem task_of_mem (hunique : s.ids.Nodup) {task : Task} (h : task ∈ s.tasks) :
    s.task task.id = some task := by
  cases hfind : s.task task.id with
  | none =>
    simp only [State.task, List.find?_eq_none, decide_eq_true_eq] at hfind
    exact absurd rfl (hfind task h)
  | some other =>
    rw [List.inj_on_of_nodup_map hunique (task_mem hfind) h (task_id hfind)]

/-- The scoped client finds a stored task that is its organization's and not in the trash. -/
theorem findTask_some (hunique : s.ids.Nodup) {organizationId : Id} {task : Task} :
    s.findTask id organizationId = some task ↔
      s.task id = some task ∧ task.organizationId = organizationId ∧ task.active = true := by
  constructor
  · intro h
    obtain ⟨rfl, horg, hactive⟩ := findTask_id h
    exact ⟨task_of_mem hunique (findTask_mem h), horg, hactive⟩
  · rintro ⟨htask, horg, hactive⟩
    cases hfind : s.findTask id organizationId with
    | none =>
      simp only [State.findTask, List.find?_eq_none, Bool.and_eq_true, decide_eq_true_eq] at hfind
      exact absurd ⟨⟨task_id htask, horg⟩, hactive⟩ (hfind task (task_mem htask))
    | some other =>
      have hother := task_of_mem hunique (findTask_mem hfind)
      rw [(findTask_id hfind).1, htask] at hother
      exact hother.symm

section Update

variable {change : Task → Task} (hid : ∀ task, (change task).id = task.id)
include hid

theorem task_update (x : Id) :
    (s.update id change).task x =
      (s.task x).map fun task => if x = id then change task else task := by
  simp only [State.task, State.update, List.find?_map]
  have hsame : ((fun task : Task => decide (task.id = x)) ∘
      fun task => if task.id = id then change task else task) =
      fun task => decide (task.id = x) := by
    funext task
    by_cases h : task.id = id <;> simp [h, hid]
  rw [hsame]
  cases hfind : s.tasks.find? (fun task => decide (task.id = x)) with
  | none => rfl
  | some task =>
    have hx : task.id = x := by simpa using List.find?_some hfind
    simp [hx]

theorem ids_update : (s.update id change).ids = s.ids := by
  simp only [State.ids, State.update, List.map_map]
  apply List.map_congr_left
  intro task _
  by_cases h : task.id = id <;> simp [h, hid]

end Update

/-! ### The invariant -/

/-- Dependencies are stored tasks of the same organization, and lead to one without any. -/
structure Sound (s : State) : Prop where
  unique : s.ids.Nodup
  linked : ∀ x task y, s.task x = some task → task.dependsOnId = some y →
    ∃ dep, s.task y = some dep ∧ dep.organizationId = task.organizationId
  chain : ∀ x, ∃ l, Lineage s.dependsOn x l

theorem Sound.of_none (hunique : s.ids.Nodup) (hnone : ∀ task ∈ s.tasks, task.dependsOnId = none) :
    Sound s where
  unique := hunique
  linked x task y htask hy := by
    rw [hnone task (task_mem htask)] at hy
    cases hy
  chain x := by
    refine ⟨[], .root ?_⟩
    cases htask : s.task x with
    | none => simp [State.dependsOn, htask]
    | some task => simp [State.dependsOn, htask, hnone task (task_mem htask)]

/-- A change of other fields. -/
theorem Sound.update (h : Sound s) {change : Task → Task} (hid : ∀ task, (change task).id = task.id)
    (horg : ∀ task, (change task).organizationId = task.organizationId)
    (hdep : ∀ task, (change task).dependsOnId = task.dependsOnId) : Sound (s.update id change) := by
  have hrow : ∀ x task, (s.update id change).task x = some task → ∃ old, s.task x = some old ∧
      task.organizationId = old.organizationId ∧ task.dependsOnId = old.dependsOnId := by
    intro x task htask
    rw [task_update hid] at htask
    obtain ⟨old, hold, rfl⟩ := Option.map_eq_some_iff.mp htask
    refine ⟨old, hold, ?_⟩
    split
    · exact ⟨horg old, hdep old⟩
    · exact ⟨rfl, rfl⟩
  refine ⟨(ids_update hid).symm ▸ h.unique, ?_, ?_⟩
  · intro x task y htask hy
    obtain ⟨old, hold, horg', hdep'⟩ := hrow x task htask
    obtain ⟨dep, hdepRow, hsame⟩ := h.linked x old y hold (hdep' ▸ hy)
    rw [task_update hid, hdepRow]
    refine ⟨_, rfl, ?_⟩
    split
    · rw [horg, hsame, horg']
    · rw [hsame, horg']
  · intro x
    obtain ⟨l, hl⟩ := h.chain x
    refine ⟨l, hl.congr fun b _ => ?_⟩
    simp only [State.dependsOn, task_update hid]
    cases s.task b with
    | none => rfl
    | some task => by_cases hb : b = id <;> simp [hb, hdep]

/-! ### A new dependency -/

/-- A walk that is accepted has gone up the whole chain, where it can see all of it. -/
theorem dependencyUpwards_ok (h : Sound s) {organizationId : Id} {visited : List Id} {x : Id}
    {l : List Id} (hl : Lineage s.dependsOn x l)
    (hseen : ∀ y ∈ x :: l, ∀ task, s.task y = some task → task.active = true)
    (horg : ∀ task, s.task x = some task → task.organizationId = organizationId)
    (hok : dependencyUpwards s organizationId visited x = .ok ()) : ∀ y ∈ x :: l, y ∉ visited := by
  induction hl generalizing visited with
  | root hroot =>
    rw [dependencyUpwards] at hok
    split at hok
    · cases hok
    · simp_all
  | @child x y l hxy hl ih =>
    rw [dependencyUpwards] at hok
    split at hok
    · cases hok
    rename_i hnew
    obtain ⟨task, htask, hdep⟩ := Option.bind_eq_some_iff.mp hxy
    have hactive := hseen x List.mem_cons_self task htask
    have hfind : s.findTask x organizationId = some task :=
      (findTask_some h.unique).mpr ⟨htask, horg task htask, hactive⟩
    obtain ⟨dep, hdepRow, hsame⟩ := h.linked x task y htask hdep
    have hrest : dependencyUpwards s organizationId (x :: visited) y = .ok () := by
      split at hok
      · rename_i hnone
        rw [hfind] at hnone
        cases hnone
      · rename_i found hfound
        obtain rfl := Option.some.inj (hfind.symm.trans hfound)
        rw [hdep] at hok
        exact hok
    have habove := ih (fun z hz => hseen z (List.mem_cons_of_mem _ hz)) (fun row hrow => by
      obtain rfl := Option.some.inj (hdepRow.symm.trans hrow)
      rw [hsame, horg task htask]) hrest
    refine List.forall_mem_cons.mpr ⟨by simpa using hnew, fun z hz => ?_⟩
    exact fun hin => habove z hz (List.mem_cons_of_mem _ hin)

theorem Sound.dependency (h : Sound s) {dependsOnId : Id} {l : List Id} {task dep : Task}
    (htask : s.task id = some task) (hdep : s.task dependsOnId = some dep)
    (hsame : dep.organizationId = task.organizationId) (hl : Lineage s.dependsOn dependsOnId l)
    (hnew : id ∉ dependsOnId :: l) :
    Sound (s.update id fun task => { task with dependsOnId := some dependsOnId }) := by
  set change : Task → Task := fun task => { task with dependsOnId := some dependsOnId }
  have hid : ∀ task, (change task).id = task.id := fun _ => rfl
  have hother : ∀ x, x ≠ id → (s.update id change).dependsOn x = s.dependsOn x := by
    intro x hx
    simp only [State.dependsOn, task_update hid]
    cases s.task x with
    | none => rfl
    | some row => simp [hx]
  have hhere : (s.update id change).dependsOn id = some dependsOnId := by
    simp [State.dependsOn, task_update hid, htask, change]
  have hchain : Lineage (s.update id change).dependsOn id (dependsOnId :: l) :=
    .child hhere (hl.congr fun y hy => hother y fun he => hnew (he ▸ hy))
  refine ⟨(ids_update hid).symm ▸ h.unique, ?_, ?_⟩
  · intro x row y hrow hy
    rw [task_update hid] at hrow
    obtain ⟨old, hold, rfl⟩ := Option.map_eq_some_iff.mp hrow
    have hdeps : ∃ found, s.task y = some found ∧ found.organizationId = old.organizationId := by
      by_cases hx : x = id
      · subst hx
        obtain rfl := Option.some.inj (htask.symm.trans hold)
        rw [if_pos rfl] at hy
        obtain rfl := Option.some.inj hy
        exact ⟨dep, hdep, hsame⟩
      · rw [if_neg hx] at hy
        exact h.linked x old y hold hy
    obtain ⟨found, hfound, horg⟩ := hdeps
    rw [task_update hid, hfound]
    refine ⟨_, rfl, ?_⟩
    split <;> split <;> exact horg
  · intro x
    obtain ⟨lx, hlx⟩ := h.chain x
    by_cases hin : id ∈ x :: lx
    · obtain ⟨k, hk⟩ := List.getElem?_of_mem hin
      exact ⟨_, hlx.graft hk hother hchain⟩
    · exact ⟨lx, hlx.congr fun y hy => hother y fun he => hin (he ▸ hy)⟩

/-! ### Runs -/

/-- No task on the chain of a new dependency is in the trash. -/
def SeesChain (s : State) : Request → Prop
  | .dependency _ dependsOnId _ => ∀ l, Lineage s.dependsOn dependsOnId l →
      ∀ task ∈ s.tasks, task.id ∈ dependsOnId :: l → task.active = true
  | _ => True

theorem scopedUpdate_ok {change : Task → Task} (h : scopedUpdate s id change actor = .ok s') :
    s' = s.update id change ∧ ∃ task, s.findTask id actor.organizationId = some task := by
  simp only [scopedUpdate, bind_ok, found_ok, pure_ok] at h
  obtain ⟨task, htask, rfl⟩ := h
  exact ⟨rfl, task, htask⟩

/-- The schema drops the dependency that the handler would write. -/
theorem putTask_ok {body : UpdateBody} (h : putTask s id body actor = .ok s') :
    ∃ written : UpdateBody, written.dependsOnId = none ∧ s' = s.update id written.write := by
  simp only [putTask, updateTaskSchema, bind_ok, refuse_ok, pure_ok] at h
  obtain ⟨written, ⟨_, -, _, -, _, -, _, -, rfl⟩, _, -, h⟩ := h
  exact ⟨_, rfl, (scopedUpdate_ok h).1⟩

theorem Sound.put (hs : Sound s) {body : UpdateBody} (h : putTask s id body actor = .ok s') :
    Sound s' := by
  obtain ⟨written, hnone, rfl⟩ := putTask_ok h
  exact hs.update (fun _ => rfl) (fun _ => rfl) fun task => by simp [UpdateBody.write, hnone]

theorem Sound.putDependency (hs : Sound s) {dependsOnId : Id}
    (hseen : SeesChain s (.dependency id dependsOnId actor))
    (h : putDependency s id dependsOnId actor = .ok s') : Sound s' := by
  simp only [Dependencies.putDependency, taskReferenceProblem, bind_ok, refuse_ok] at h
  obtain ⟨_, -, _, hself, _, ⟨_, -, hreference⟩, _, hwalk, h⟩ := h
  obtain ⟨rfl, task, htask⟩ := scopedUpdate_ok h
  obtain ⟨dep, hdep⟩ : ∃ dep, s.findTask dependsOnId actor.organizationId = some dep := by
    simpa [Option.isSome_iff_exists] using hreference
  obtain ⟨hdepRow, hdepOrg, -⟩ := (findTask_some hs.unique).mp hdep
  obtain ⟨htaskRow, htaskOrg, -⟩ := (findTask_some hs.unique).mp htask
  obtain ⟨l, hl⟩ := hs.chain dependsOnId
  have hunseen := dependencyUpwards_ok hs hl
    (fun y hy row hrow => hseen l hl row (task_mem hrow) ((task_id hrow).symm ▸ hy))
    (fun row hrow => by
      obtain rfl := Option.some.inj (hdepRow.symm.trans hrow)
      exact hdepOrg) hwalk
  exact hs.dependency htaskRow hdepRow (hdepOrg.trans htaskOrg.symm) hl
    fun hin => hunseen id hin (List.mem_singleton.mpr rfl)

theorem Sound.trashed (hs : Sound s) (now : Time) : Sound (s.update id (·.trashed now)) :=
  hs.update (fun _ => rfl) (fun _ => rfl) fun _ => rfl

theorem Sound.with_ledger (hs : Sound s) (items : List TrashedItem) :
    Sound { s with trashedItems := items } := ⟨hs.unique, hs.linked, hs.chain⟩

theorem Sound.commit (hs : Sound s) {request : Request} (hseen : SeesChain s request)
    (h : s.commit request = .ok s') : Sound s' := by
  cases request with
  | put id body actor => exact hs.put h
  | dependency id dependsOnId actor => exact hs.putDependency hseen h
  | delete id now actor =>
    simp only [State.commit, deleteTask, bind_ok] at h
    obtain ⟨_, -, _, -, h⟩ := h
    obtain ⟨rfl, -⟩ := scopedUpdate_ok h
    exact hs.trashed now
  | trash trashId id now actor =>
    simp only [State.commit, softDelete, bind_ok, pure_ok] at h
    obtain ⟨_, -, trashed, h, _, -, rfl⟩ := h
    obtain ⟨rfl, -⟩ := scopedUpdate_ok h
    exact (hs.trashed now).with_ledger _
  | restore trashId now actor =>
    simp only [State.commit, restoreTrashedItem, bind_ok, pure_ok] at h
    obtain ⟨ledger, -, _, -, rfl⟩ := h
    have hrestored : Sound (s.update ledger.recordId fun task => { task with deletedAt := none }) :=
      hs.update (fun _ => rfl) (fun _ => rfl) fun _ => rfl
    exact hrestored.with_ledger _

/-- From no task do its dependencies lead back to it, and every walk over them ends at a stored
task without one. -/
def State.Acyclic (s : State) : Prop :=
  ∀ task ∈ s.tasks, (∀ n, climb s.dependsOn (n + 1) task.id ≠ some task.id) ∧
    ∃ l, Lineage s.dependsOn task.id l ∧ ∀ id ∈ l, ∃ dep ∈ s.tasks, dep.id = id

theorem Sound.acyclic (h : Sound s) : s.Acyclic := by
  intro task _
  obtain ⟨l, hl⟩ := h.chain task.id
  refine ⟨hl.climb_ne, l, hl, fun id hid => ?_⟩
  obtain ⟨x, hx⟩ := hl.exists_child hid
  obtain ⟨row, hrow, hdep⟩ := Option.bind_eq_some_iff.mp hx
  obtain ⟨dep, hdep, -⟩ := h.linked x row id hrow hdep
  exact ⟨dep, task_mem hdep, task_id hdep⟩

/-- While no chain of a new dependency runs through the trash, no cycle is closed. -/
theorem dependencies_acyclic {s₀ : State} (hunique : s₀.ids.Nodup)
    (hnone : ∀ task ∈ s₀.tasks, task.dependsOnId = none) (h : Reached SeesChain s₀ s) :
    s.Acyclic := by
  have hsound : Sound s := by
    induction h with
    | start => exact .of_none hunique hnone
    | step _ hseen hs ih => exact ih.commit hseen hs
  exact hsound.acyclic

/-! ### Sample runs -/

def sampleTask (id : Id) : Task where
  id := id
  organizationId := "org"
  title := id
  description := none
  status := .pending
  priority := .normal
  category := "UPCOMING"
  estimatedTime := none
  startDate := none
  dueDate := none
  assigneeId := none
  blockedBy := none
  dependsOnId := none
  deletedAt := none

def sampleState : State := ⟨[], [sampleTask "a", sampleTask "b", sampleTask "c"], []⟩

def sampleAdmin : Actor := ⟨"admin", "org", .admin⟩

/-- `a` depends on `b`. -/
def linkedState : State :=
  ⟨[], [{ sampleTask "a" with dependsOnId := some "b" }, sampleTask "b", sampleTask "c"], []⟩

/-- `b`, which depends on `c`, is in the trash. -/
def trashedState : State :=
  ⟨[], [{ sampleTask "a" with dependsOnId := some "b" },
      { sampleTask "b" with dependsOnId := some "c", deletedAt := some 1 }, sampleTask "c"],
    [⟨"ledger", "b", "org", none⟩]⟩

/-- Both edges are stored, and the third one would close the cycle. -/
def twiceState : State :=
  { linkedState with tasks := [{ sampleTask "a" with dependsOnId := some "b" },
    { sampleTask "b" with dependsOnId := some "c" }, sampleTask "c"] }

/-- The third edge, past the task in the trash. -/
def hiddenState : State :=
  { trashedState with tasks := [{ sampleTask "a" with dependsOnId := some "b" },
    { sampleTask "b" with dependsOnId := some "c", deletedAt := some 1 },
    { sampleTask "c" with dependsOnId := some "a" }] }

/-- The cycle that the restored task is part of. -/
def closedState : State :=
  ⟨[], [{ sampleTask "a" with dependsOnId := some "b" },
      { sampleTask "b" with dependsOnId := some "c" },
      { sampleTask "c" with dependsOnId := some "a" }], [⟨"ledger", "b", "org", some 2⟩]⟩

theorem sample_link {allowed : State → Request → Prop}
    (h : allowed sampleState (.dependency "a" "b" sampleAdmin)) :
    Reached allowed sampleState linkedState := by
  have hcommit : sampleState.commit (.dependency "a" "b" sampleAdmin) = .ok linkedState := by
    decide +kernel
  exact Reached.start.step h hcommit

theorem sample_unlinked : sampleState.ids.Nodup ∧
    ∀ task ∈ sampleState.tasks, task.dependsOnId = none := by decide

theorem dependencies_acyclic_sample : Reached SeesChain sampleState linkedState ∧
    linkedState.Acyclic := by
  have hreached : Reached SeesChain sampleState linkedState :=
    sample_link fun l _ task htask _ => by
      have hactive : ∀ task ∈ sampleState.tasks, task.active = true := by decide
      exact hactive task htask
  exact ⟨hreached, dependencies_acyclic sample_unlinked.1 sample_unlinked.2 hreached⟩

/-- While `b` is in the trash the check of `c` stops there, and the restore closes the cycle. -/
theorem hidden_dependency_cycle : ∃ s, Reached (fun _ _ => True) sampleState s ∧
    (∀ task ∈ s.tasks, task.active = true) ∧ ¬ s.Acyclic := by
  have hlinked : Reached (fun _ _ => True) sampleState linkedState := sample_link trivial
  have htwice : linkedState.commit (.dependency "b" "c" sampleAdmin) = .ok twiceState := by
    decide +kernel
  have htrash : twiceState.commit (.trash "ledger" "b" 1 sampleAdmin) = .ok trashedState := by
    decide +kernel
  have hclose : trashedState.commit (.dependency "c" "a" sampleAdmin) = .ok hiddenState := by
    decide +kernel
  have hrestore : hiddenState.commit (.restore "ledger" 2 sampleAdmin) = .ok closedState := by
    decide +kernel
  have htrashed := (hlinked.step trivial htwice).step trivial htrash
  have hrestored := (htrashed.step trivial hclose).step trivial hrestore
  refine ⟨closedState, hrestored, by decide, fun hacyclic => ?_⟩
  obtain ⟨hnever, -⟩ := hacyclic { sampleTask "a" with dependsOnId := some "b" } List.mem_cons_self
  exact hnever 2 (by decide)

end Ashbi.Dependencies
