import Ashbi.Boards.Requests
import Ashbi.Keyed.Rows

/-! The stage of a task is one of its board. -/

namespace Ashbi.Boards

open Checked
open Pages (Failure)

variable {View : Type} {s s' : State View}

def State.board (s : State View) (id : Id) : Option (Board View) := Keyed.find (·.id) s.boards id

/-- The keys of the stages of a board, or of the project where a task is on no board. -/
def State.stageKeys (s : State View) (projectId : Id) : Option Id → List String
  | some boardId => ((s.board boardId).map fun board => board.taskStages.map (·.key)).getD []
  | none => ((Keyed.find (·.id) s.projects projectId).map fun project =>
      (project.taskStages.getD []).map (·.key)).getD []

/-- The stage of a task, if it has one, is among those of its board. -/
def State.Staged (s : State View) (task : Task) : Prop :=
  ∀ key, task.stageKey = some key → key ∈ s.stageKeys task.projectId task.boardId

/-- A task is on a board of its own project. -/
def State.Housed (s : State View) (task : Task) : Prop :=
  ∀ boardId, task.boardId = some boardId →
    ∃ board, s.board boardId = some board ∧ board.projectId = task.projectId

/-- What every request keeps. -/
structure Consistent (s : State View) : Prop where
  projects : (s.projects.map (·.id)).Nodup
  boards : (s.boards.map (·.id)).Nodup
  tasks : (s.tasks.map (·.id)).Nodup
  named : ∀ board ∈ s.boards, namedBoard (some board.id) = some board.id
  housed : ∀ task ∈ s.tasks, s.Housed task
  staged : ∀ task ∈ s.tasks, task.deletedAt = none → s.Staged task

/-! ### The reads -/

theorem namedBoard_normalize (boardId : Option Id) :
    namedBoard (normalizeTaskBoardId boardId) = Js.truthy (normalizeTaskBoardId boardId) := by
  cases boardId with
  | none => rfl
  | some boardId =>
    have hne : defaultBoardId ≠ "" := by decide
    by_cases hdefault : boardId = defaultBoardId
    · simp [namedBoard, normalizeTaskBoardId, Js.truthy, Option.filter, hdefault]
    · by_cases hempty : boardId = ""
      · simp [namedBoard, normalizeTaskBoardId, Js.truthy, Option.filter, hempty, hne.symm]
      · simp [namedBoard, normalizeTaskBoardId, Js.truthy, Option.filter, hempty, hdefault]

theorem project_some (hunique : (s.projects.map (·.id)).Nodup) {organizationId projectId : Id}
    {project : Project View} (h : s.project organizationId projectId = some project) :
    Keyed.find (·.id) s.projects projectId = some project := by
  have hfound := List.find?_some h
  simp only [Bool.and_eq_true, decide_eq_true_eq] at hfound
  exact (Keyed.find_iff hunique).mpr ⟨List.mem_of_find?_eq_some h, hfound.1.1⟩

/-- The board that a request may use is one of the project. -/
theorem activeTaskBoard_ok (hs : Consistent s) {organizationId projectId : Id}
    {boardId : Option Id} {board : Option (Board View)}
    (h : activeTaskBoard s organizationId projectId boardId = .ok board) :
    board.map (·.id) = namedBoard boardId ∧
      ∀ b, board = some b → s.board b.id = some b ∧ b.projectId = projectId := by
  unfold activeTaskBoard at h
  split at h
  · rename_i hnone
    obtain rfl := pure_ok.mp h
    exact ⟨hnone.symm, fun b hb => by cases hb⟩
  · rename_i id hid
    simp only [bind_ok, found_ok, pure_ok] at h
    obtain ⟨b, hb, rfl⟩ := h
    have hfound := List.find?_some hb
    simp only [Bool.and_eq_true, decide_eq_true_eq] at hfound
    obtain ⟨⟨⟨⟨hbid, hproject⟩, -⟩, -⟩, -⟩ := hfound
    refine ⟨by rw [hid, ← hbid]; rfl, fun b' hb' => ?_⟩
    obtain rfl := Option.some.inj hb'
    exact ⟨Keyed.find_of_mem hs.boards (List.mem_of_find?_eq_some hb), hproject⟩

/-- A stage that a request may use is one of the board, or of the project. -/
theorem resolveTaskStage_ok (hs : Consistent s) {organizationId projectId : Id} {key : String}
    {boardId : Option Id} {stage : Stage}
    (h : resolveTaskStage s organizationId projectId key boardId = .ok stage) :
    stage.key = key ∧ key ∈ s.stageKeys projectId (namedBoard boardId) := by
  unfold resolveTaskStage at h
  obtain ⟨board, hboard, h⟩ := bind_ok.mp h
  obtain ⟨hnamed, hstored⟩ := activeTaskBoard_ok hs hboard
  have hstage : ∀ {stages : List Stage}, stages.find? (·.key = key) = some stage →
      stage.key = key ∧ key ∈ stages.map (·.key) := fun hfind => by
    have hkey : stage.key = key := by simpa using List.find?_some hfind
    exact ⟨hkey, hkey ▸ List.mem_map_of_mem (List.mem_of_find?_eq_some hfind)⟩
  cases board with
  | some board =>
    obtain ⟨hkey, hmem⟩ := hstage (found_ok.mp h)
    rw [← hnamed]
    exact ⟨hkey, by simpa [State.stageKeys, (hstored board rfl).1] using hmem⟩
  | none =>
    obtain ⟨project, hproject, h⟩ := bind_ok.mp h
    obtain ⟨hkey, hmem⟩ := hstage (found_ok.mp h)
    rw [← hnamed]
    refine ⟨hkey, ?_⟩
    simpa [State.stageKeys, project_some hs.projects (found_ok.mp hproject)] using hmem

theorem task_some {organizationId id : Id} {task : Task}
    (h : s.task organizationId id = some task) :
    task ∈ s.tasks ∧ task.id = id ∧ task.deletedAt = none := by
  have hfound := List.find?_some h
  simp only [Bool.and_eq_true, decide_eq_true_eq, Option.isNone_iff_eq_none] at hfound
  exact ⟨List.mem_of_find?_eq_some h, hfound.1.1, hfound.1.2⟩

/-! ### The writes -/

/-- The boards and the projects decide where a task fits. -/
theorem Consistent.updateTask (hs : Consistent s) {id : Id} {change : Task → Task}
    (hid : ∀ task, (change task).id = task.id)
    (hfits : ∀ task ∈ s.tasks, task.id = id → s.Housed (change task) ∧
      ((change task).deletedAt = none → s.Staged (change task))) :
    Consistent (s.updateTask id change) where
  projects := hs.projects
  boards := hs.boards
  tasks := by
    have hkeys : (s.tasks.map fun task => if task.id = id then change task else task).map (·.id) =
        s.tasks.map (·.id) := Keyed.keys_map (fun task => by split <;> simp [hid]) s.tasks
    exact hkeys ▸ hs.tasks
  named := hs.named
  housed task htask := by
    obtain ⟨old, hold, rfl⟩ := List.mem_map.mp htask
    split
    · rename_i hmatch
      exact (hfits old hold hmatch).1
    · exact hs.housed old hold
  staged task htask := by
    obtain ⟨old, hold, rfl⟩ := List.mem_map.mp htask
    split
    · rename_i hmatch
      exact (hfits old hold hmatch).2
    · exact hs.staged old hold

theorem Consistent.insertTask (hs : Consistent s) {organizationId : Id} {task : Task}
    (hhoused : s.Housed task) (hstaged : s.Staged task)
    (h : s.insertTask organizationId task = .ok s') : Consistent s' := by
  unfold State.insertTask at h
  simp only [bind_ok, refuse_ok, found_ok, pure_ok] at h
  obtain ⟨_, -, _, hnew, rfl⟩ := h
  refine ⟨hs.projects, hs.boards, ?_, hs.named, ?_, ?_⟩
  · rw [List.map_append, List.nodup_append]
    refine ⟨hs.tasks, List.nodup_singleton _, fun id hid id' hid' => ?_⟩
    obtain rfl := List.mem_singleton.mp hid'
    obtain ⟨other, hother, rfl⟩ := List.mem_map.mp hid
    simp only [List.any_eq_false, decide_eq_true_eq] at hnew
    exact hnew other hother
  · intro other hother
    rcases List.mem_append.mp hother with hother | hother
    · exact hs.housed other hother
    · obtain rfl := List.mem_singleton.mp hother
      exact hhoused
  · intro other hother hlive
    rcases List.mem_append.mp hother with hother | hother
    · exact hs.staged other hother hlive
    · obtain rfl := List.mem_singleton.mp hother
      exact hstaged

theorem board_updateBoard {id : Id} {change : Board View → Board View}
    (hid : ∀ board, (change board).id = board.id) (b : Id) :
    (s.updateBoard id change).board b =
      (s.board b).map fun board => if b = id then change board else board :=
  Keyed.find_update hid s.boards id b

theorem Consistent.updateBoard (hs : Consistent s) {id : Id} {change : Board View → Board View}
    (hid : ∀ board, (change board).id = board.id)
    (hproject : ∀ board, (change board).projectId = board.projectId)
    (hstages : ∀ task ∈ s.tasks, task.deletedAt = none → task.boardId = some id →
      ∀ board, s.board id = some board → ∀ key, task.stageKey = some key →
        key ∈ (change board).taskStages.map (·.key)) :
    Consistent (s.updateBoard id change) where
  projects := hs.projects
  boards := by
    have hkeys :
        (s.boards.map fun board => if board.id = id then change board else board).map (·.id) =
          s.boards.map (·.id) := Keyed.keys_map (fun board => by split <;> simp [hid]) s.boards
    exact hkeys ▸ hs.boards
  tasks := hs.tasks
  named board hboard := by
    obtain ⟨old, hold, rfl⟩ := List.mem_map.mp hboard
    split
    · rw [hid]
      exact hs.named old hold
    · exact hs.named old hold
  housed task htask b hb := by
    obtain ⟨board, hboard, hsame⟩ := hs.housed task htask b hb
    rw [board_updateBoard hid, hboard]
    refine ⟨_, rfl, ?_⟩
    split
    · rw [hproject, hsame]
    · exact hsame
  staged task htask hlive key hkey := by
    have hold := hs.staged task htask hlive key hkey
    cases hb : task.boardId with
    | none => rwa [hb] at hold
    | some b =>
      obtain ⟨board, hboard, -⟩ := hs.housed task htask b hb
      simp only [State.stageKeys, board_updateBoard hid, hboard, Option.map_some, Option.getD_some]
      by_cases hmatch : b = id
      · subst hmatch
        rw [if_pos rfl]
        exact hstages task htask hlive hb board hboard key hkey
      · rw [if_neg hmatch]
        simpa [State.stageKeys, hb, hboard] using hold

theorem Consistent.updateProject (hs : Consistent s) {id : Id}
    {change : Project View → Project View} (hid : ∀ project, (change project).id = project.id)
    (hstages : ∀ task ∈ s.tasks, task.deletedAt = none → task.boardId = none →
      task.projectId = id → ∀ project, Keyed.find (·.id) s.projects id = some project →
        ∀ key, task.stageKey = some key →
          key ∈ ((change project).taskStages.getD []).map (·.key)) :
    Consistent (s.updateProject id change) where
  projects := by
    have hkeys :
        (s.projects.map fun project => if project.id = id then change project else project).map
          (·.id) = s.projects.map (·.id) :=
      Keyed.keys_map (fun project => by split <;> simp [hid]) s.projects
    exact hkeys ▸ hs.projects
  boards := hs.boards
  tasks := hs.tasks
  named := hs.named
  housed := hs.housed
  staged task htask hlive key hkey := by
    have hold := hs.staged task htask hlive key hkey
    cases hb : task.boardId with
    | some b => rwa [hb] at hold
    | none =>
      have hfind : Keyed.find (·.id) (s.updateProject id change).projects task.projectId =
          (Keyed.find (·.id) s.projects task.projectId).map fun project =>
            if task.projectId = id then change project else project :=
        Keyed.find_update hid s.projects id task.projectId
      rw [hb] at hold
      simp only [State.stageKeys] at hold ⊢
      rw [hfind]
      cases hproject : Keyed.find (·.id) s.projects task.projectId with
      | none =>
        rw [hproject] at hold
        exact hold
      | some project =>
        rw [hproject] at hold
        simp only [Option.map_some, Option.getD_some] at hold ⊢
        by_cases hmatch : task.projectId = id
        · rw [if_pos hmatch]
          exact hstages task htask hlive hb hmatch project (hmatch ▸ hproject) key hkey
        · rwa [if_neg hmatch]

/-- No task is on a board that does not exist yet. -/
theorem Consistent.insertBoard (hs : Consistent s) {board : Board View}
    (hnew : s.board board.id = none) (hnamed : namedBoard (some board.id) = some board.id) :
    Consistent { s with boards := s.boards ++ [board] } := by
  have hboard : ∀ b row, s.board b = some row →
      State.board { s with boards := s.boards ++ [board] } b = some row := by
    intro b row hrow
    have hne : b ≠ board.id := by
      rintro rfl
      rw [hnew] at hrow
      cases hrow
    exact (Keyed.find_append hnew b).trans ((if_neg hne).trans hrow)
  refine ⟨hs.projects, ?_, hs.tasks, ?_, ?_, ?_⟩
  · rw [List.map_append, List.nodup_append]
    refine ⟨hs.boards, List.nodup_singleton _, fun id hid id' hid' => ?_⟩
    obtain rfl := List.mem_singleton.mp hid'
    obtain ⟨other, hother, rfl⟩ := List.mem_map.mp hid
    exact Keyed.find_none.mp hnew other hother
  · intro other hother
    rcases List.mem_append.mp hother with hother | hother
    · exact hs.named other hother
    · obtain rfl := List.mem_singleton.mp hother
      exact hnamed
  · intro task htask b hb
    obtain ⟨row, hrow, hsame⟩ := hs.housed task htask b hb
    exact ⟨row, hboard b row hrow, hsame⟩
  · intro task htask hlive key hkey
    have hold := hs.staged task htask hlive key hkey
    cases hb : task.boardId with
    | none => rwa [hb] at hold
    | some b =>
      obtain ⟨row, hrow, -⟩ := hs.housed task htask b hb
      simpa [State.stageKeys, hb, hrow, hboard b row hrow] using hold

/-! ### The requests -/

theorem activeTaskBoard_housed (hs : Consistent s) {organizationId projectId : Id}
    {boardId : Option Id} {board : Option (Board View)}
    (h : activeTaskBoard s organizationId projectId boardId = .ok board) {task : Task}
    (hproject : task.projectId = projectId) (hboard : task.boardId = namedBoard boardId) :
    s.Housed task := by
  obtain ⟨hnamed, hstored⟩ := activeTaskBoard_ok hs h
  intro b hb
  rw [hboard, ← hnamed] at hb
  obtain ⟨row, hrow, rfl⟩ := Option.map_eq_some_iff.mp hb
  obtain ⟨hfind, hsame⟩ := hstored row hrow
  exact ⟨row, hfind, hsame.trans hproject.symm⟩

theorem Consistent.quickCreate (hs : Consistent s) {env : Env} {projectId : Id}
    {input : QuickInput} {referenceProblem : Option String} {actor : Actor}
    (h : Boards.quickCreate s env projectId input referenceProblem actor = .ok s') :
    Consistent s' := by
  unfold Boards.quickCreate at h
  simp only [bind_ok] at h
  obtain ⟨_, -, board, hboard, _, -, h⟩ := h
  have hnamed := (namedBoard_normalize input.boardId).symm
  cases hkey : Js.truthy input.stageKey with
  | none =>
    rw [hkey] at h
    refine hs.insertTask (activeTaskBoard_housed hs hboard rfl hnamed) (fun key hkey => ?_) h
    cases hkey
  | some key =>
    rw [hkey] at h
    obtain ⟨stage, hstage, h⟩ := bind_ok.mp h
    refine hs.insertTask (activeTaskBoard_housed hs hboard rfl hnamed) (fun key' hkey' => ?_) h
    obtain rfl := Option.some.inj hkey'
    obtain ⟨-, hmem⟩ := resolveTaskStage_ok hs hstage
    dsimp only
    rwa [hnamed]

/-- The board of a stored task is the one that its id names. -/
theorem namedBoard_task (hs : Consistent s) {task : Task} (h : task ∈ s.tasks) :
    namedBoard task.boardId = task.boardId := by
  cases hb : task.boardId with
  | none => rfl
  | some b =>
    obtain ⟨board, hboard, -⟩ := hs.housed task h b hb
    have hnamed := hs.named board (Keyed.find_mem hboard)
    rwa [Keyed.find_key hboard] at hnamed

theorem task_eq (hs : Consistent s) {task other : Task} (h : task ∈ s.tasks)
    (hother : other ∈ s.tasks) (hid : task.id = other.id) : task = other :=
  List.inj_on_of_nodup_map hs.tasks h hother hid

theorem Consistent.moveToStage (hs : Consistent s) {env : Env} {id : Id} {key : String}
    {actor : Actor} (h : Boards.moveToStage s env id key actor = .ok s') : Consistent s' := by
  unfold Boards.moveToStage at h
  simp only [bind_ok, found_ok, pure_ok] at h
  obtain ⟨current, hcurrent, stage, hstage, rfl⟩ := h
  obtain ⟨hmem, hid, -⟩ := task_some hcurrent
  obtain ⟨-, hkey⟩ := resolveTaskStage_ok hs hstage
  rw [namedBoard_task hs hmem] at hkey
  refine hs.updateTask (fun _ => rfl) fun task htask hmatch => ⟨hs.housed task htask, ?_⟩
  obtain rfl := task_eq hs htask hmem (hmatch.trans hid.symm)
  intro _ key' hkey'
  obtain rfl := Option.some.inj hkey'
  exact hkey

theorem Consistent.moveToStatus (hs : Consistent s) {env : Env} {id : Id} {status : TaskStatus}
    {actor : Actor} (h : Boards.moveToStatus s env id status actor = .ok s') : Consistent s' := by
  unfold Boards.moveToStatus at h
  simp only [bind_ok, found_ok, pure_ok] at h
  obtain ⟨_, -, rfl⟩ := h
  refine hs.updateTask (fun _ => rfl) fun task htask _ => ⟨hs.housed task htask, ?_⟩
  intro _ key hkey
  cases hkey

theorem Consistent.moveTaskBoard (hs : Consistent s) {env : Env} {taskId : Id} {input : MoveInput}
    {actor : Actor} (h : moveTaskBoardInTransaction s env taskId input actor = .ok s') :
    Consistent s' := by
  unfold moveTaskBoardInTransaction at h
  simp only [bind_ok, refuse_ok, found_ok, decide_eq_false_iff_not] at h
  obtain ⟨_, -, _, hempty, _, -, current, hcurrent, _, -, board, hboard, h⟩ := h
  rw [Option.filter_eq_some_iff, decide_eq_true_eq] at hcurrent
  obtain ⟨hcurrent, hproject⟩ := hcurrent
  obtain ⟨hmem, hid, -⟩ := task_some hcurrent
  have hnamed : namedBoard (normalizeTaskBoardId input.boardId) =
      normalizeTaskBoardId input.boardId := by
    rw [namedBoard_normalize]
    cases hb : input.boardId with
    | none => rfl
    | some b =>
      have hne : b ≠ "" := fun he => hempty (by rw [hb, he])
      by_cases hdefault : b = defaultBoardId <;>
        simp [normalizeTaskBoardId, Js.truthy, Option.filter, hdefault, hne]
  have hsame : ∀ task ∈ s.tasks, task.id = taskId → task.projectId = input.projectId :=
    fun task htask hmatch => by
      rw [task_eq hs htask hmem (hmatch.trans hid.symm)]
      exact hproject
  cases hkey : Js.truthy input.stageKey with
  | none =>
    rw [hkey] at h
    obtain rfl := pure_ok.mp h
    refine hs.updateTask (fun _ => rfl) fun task htask hmatch => ⟨?_, ?_⟩
    · exact activeTaskBoard_housed hs hboard (hsame task htask hmatch) hnamed.symm
    · intro _ key' hkey'
      cases hkey'
  | some key =>
    rw [hkey] at h
    obtain ⟨stage, hstage, h⟩ := bind_ok.mp h
    obtain rfl := pure_ok.mp h
    obtain ⟨hskey, hin⟩ := resolveTaskStage_ok hs hstage
    rw [hnamed] at hin
    refine hs.updateTask (fun _ => rfl) fun task htask hmatch => ⟨?_, ?_⟩
    · exact activeTaskBoard_housed hs hboard (hsame task htask hmatch) hnamed.symm
    · intro _ key' hkey'
      obtain rfl := Option.some.inj hkey'
      dsimp only
      rwa [hsame task htask hmatch, hskey]

theorem Consistent.createProjectBoard (hs : Consistent s) {env : Env} {projectId : Id}
    {name description : String} {actor : Actor}
    (h : Boards.createProjectBoard s env projectId name description actor = .ok s') :
    Consistent s' := by
  unfold Boards.createProjectBoard at h
  simp only [bind_ok, refuse_ok, pure_ok] at h
  obtain ⟨_, -, _, -, project, -, _, hnew, rfl⟩ := h
  refine hs.insertBoard ?_ ?_
  · refine Keyed.find_none.mpr fun board hboard => ?_
    simp only [List.any_eq_false, decide_eq_true_eq] at hnew
    exact hnew board hboard
  · have hne : env.newId ≠ defaultBoardId := env.cuid.ne_of_head (by decide)
    simp [namedBoard, Js.truthy, Option.filter, env.cuid.ne_empty, hne]

theorem Consistent.updateProjectBoard (hs : Consistent s) {env : Env} {projectId boardId : Id}
    {input : BoardInput} {actor : Actor}
    (h : Boards.updateProjectBoard s env projectId boardId input actor = .ok s') :
    Consistent s' := by
  unfold Boards.updateProjectBoard at h
  simp only [bind_ok, refuse_ok, pure_ok] at h
  obtain ⟨_, -, _, -, _, -, _, -, _, -, _, -, _, -, _, -, rfl⟩ := h
  refine hs.updateBoard (fun _ => rfl) (fun _ => rfl) ?_
  intro task htask hlive hb board hboard key hkey
  have hold := hs.staged task htask hlive key hkey
  simpa [State.stageKeys, hb, hboard] using hold

/-- No stage is removed while a task that is not deleted is in it. -/
theorem occupied_false {organizationId projectId : Id} {boardId : Option Id}
    {retained : List String} (hproject : (s.project organizationId projectId).isSome = true)
    (h : occupied s organizationId projectId boardId retained = false) {task : Task}
    (htask : task ∈ s.tasks) (hlive : task.deletedAt = none) (hp : task.projectId = projectId)
    (hb : task.boardId = namedBoard boardId) {key : String} (hkey : task.stageKey = some key) :
    key ∈ retained := by
  by_contra hremoved
  unfold occupied at h
  rw [List.any_eq_false] at h
  refine h task htask ?_
  obtain ⟨project, hproject⟩ := Option.isSome_iff_exists.mp hproject
  have hfound := List.find?_some hproject
  simp only [Bool.and_eq_true, decide_eq_true_eq] at hfound
  simp only [hp, hb, hlive, hkey, Option.isNone_none, Option.any_some, List.contains_eq_mem,
    hremoved, decide_true, decide_false, Bool.not_false, Bool.true_and, List.any_eq_true,
    Bool.and_eq_true, decide_eq_true_eq]
  exact ⟨project, List.mem_of_find?_eq_some hproject, hfound.1⟩

theorem Consistent.saveTaskStages (hs : Consistent s) {projectId : Id} {revision : ℕ}
    {stages : List Stage} {boardId : Option Id} {actor : Actor}
    (h : Boards.saveTaskStages s projectId revision stages boardId actor = .ok s') :
    Consistent s' := by
  unfold Boards.saveTaskStages at h
  simp only [bind_ok, refuse_ok, found_ok] at h
  obtain ⟨_, -, project, hproject, board, hboard, _, -, _, hfree, h⟩ := h
  obtain ⟨hnamed, hstored⟩ := activeTaskBoard_ok hs hboard
  have hretained := fun task => @occupied_false View s _ _ _ _ (by rw [hproject]; rfl) hfree task
  cases board with
  | some board =>
    obtain rfl := pure_ok.mp h
    obtain ⟨hfind, hp⟩ := hstored board rfl
    refine hs.updateBoard (fun _ => rfl) (fun _ => rfl) ?_
    intro task htask hlive hb row hrow key hkey
    obtain ⟨home, hhome, hsame⟩ := hs.housed task htask _ hb
    obtain rfl := Option.some.inj (hhome.symm.trans hfind)
    exact hretained task htask hlive (hsame.symm.trans hp) (hb.trans hnamed) hkey
  | none =>
    obtain rfl := pure_ok.mp h
    refine hs.updateProject (fun _ => rfl) ?_
    intro task htask hlive hb hp row hrow key hkey
    exact hretained task htask hlive hp (hb.trans hnamed) hkey

theorem Consistent.delete (hs : Consistent s) (id : Id) (now : Time) :
    Consistent (s.updateTask id fun task => { task with deletedAt := some now }) := by
  refine hs.updateTask (fun _ => rfl) fun task htask _ => ⟨hs.housed task htask, ?_⟩
  intro hlive
  cases hlive

/-- The trash does not matter to boards. -/
theorem Consistent.withTrash (hs : Consistent s) (trash : List TrashedItem) :
    Consistent { s with trash := trash } :=
  ⟨hs.projects, hs.boards, hs.tasks, hs.named, hs.housed, hs.staged⟩

theorem trashed_ok {organizationId trashId : Id} {task : Task}
    (h : s.trashed organizationId trashId = .ok task) : task ∈ s.tasks := by
  unfold State.trashed at h
  simp only [bind_ok, found_ok] at h
  obtain ⟨_, -, htask⟩ := h
  exact List.mem_of_find?_eq_some htask

theorem Consistent.restore (hs : Consistent s) {env : Env} {trashId : Id} {actor : Actor}
    (hstaged : ∀ task, s.trashed actor.organizationId trashId = .ok task → s.Staged task)
    (h : restoreTrashedItem s env trashId actor = .ok s') : Consistent s' := by
  unfold restoreTrashedItem at h
  simp only [bind_ok, pure_ok] at h
  obtain ⟨original, horiginal, rfl⟩ := h
  have hback : Consistent (s.updateTask original.id fun task =>
    { task with deletedAt := none }) := by
    refine hs.updateTask (fun _ => rfl) fun task htask hmatch => ?_
    obtain rfl := task_eq hs htask (trashed_ok horiginal) hmatch
    exact ⟨hs.housed task htask, fun _ => hstaged task horiginal⟩
  exact hback.withTrash _

/-! ### Every reachable state -/

/-- A task comes back from the trash only while its stage is still on its board. -/
def RestoresStaged (s : State View) : Step → Prop
  | .restore _ trashId actor =>
    ∀ task, s.trashed actor.organizationId trashId = .ok task → s.Staged task
  | _ => True

theorem step_consistent (hs : Consistent s) {st : Step} (hst : RestoresStaged s st)
    (h : s.step st = .ok s') : Consistent s' := by
  cases st with
  | quickCreate => exact hs.quickCreate h
  | moveToStage => exact hs.moveToStage h
  | moveToStatus => exact hs.moveToStatus h
  | moveTaskBoard => exact hs.moveTaskBoard h
  | createProjectBoard => exact hs.createProjectBoard h
  | updateProjectBoard => exact hs.updateProjectBoard h
  | saveTaskStages => exact hs.saveTaskStages h
  | deleteTask env id actor =>
    simp only [State.step, deleteTask, bind_ok, refuse_ok, pure_ok] at h
    obtain ⟨_, -, _, -, rfl⟩ := h
    exact hs.delete id env.now
  | softDelete env id organizationId =>
    simp only [State.step, softDelete, bind_ok, pure_ok] at h
    obtain ⟨_, -, rfl⟩ := h
    exact (hs.delete id env.now).withTrash _
  | restore => exact hs.restore hst h

/-- The states after committed transactions that each meet a condition on the state before. -/
inductive Reached (allowed : State View → Step → Prop) : State View → Prop
  | start {s : State View} (h : Consistent s) : Reached allowed s
  | step {s s' : State View} {st : Step} (h : Reached allowed s) (ha : allowed s st)
      (hs : s.step st = .ok s') : Reached allowed s'

theorem Reached.consistent (h : Reached RestoresStaged s) : Consistent s := by
  induction h with
  | start h => exact h
  | step _ ha hs ih => exact step_consistent ih ha hs

/-- Every task that is not deleted has a stage of its board, if it has one. -/
def StagesExist (s : State View) : Prop :=
  ∀ task ∈ s.tasks, task.deletedAt = none → s.Staged task

/-- Stages exist as long as each restored task finds its stage, and no longer. -/
theorem stages_exist {s : State View} (h : Reached RestoresStaged s) :
    StagesExist s ∧ ∀ st s', s.step st = .ok s' → (StagesExist s' ↔ RestoresStaged s st) := by
  have hs := h.consistent
  refine ⟨hs.staged, fun st s' hstep => ⟨fun hexist => ?_, fun hst => ?_⟩⟩
  · cases st with
    | restore env trashId actor =>
      intro original horiginal
      simp only [State.step, restoreTrashedItem, bind_ok, pure_ok] at hstep
      obtain ⟨task, htask, rfl⟩ := hstep
      obtain rfl := Except.ok.inj (horiginal.symm.trans htask)
      have hmem := List.mem_map_of_mem (f := fun task : Task =>
        if task.id = original.id then { task with deletedAt := none } else task)
        (trashed_ok horiginal)
      rw [if_pos rfl] at hmem
      exact hexist { original with deletedAt := none } hmem rfl
    | _ => trivial
  · exact (step_consistent hs hst hstep).staged

def sampleEnv : Env := ⟨sampleCuid, sampleCuid_isCuid, 0⟩

def sampleActor : Actor := ⟨"u1", "org", .admin⟩

/-- A project whose own board has one stage. -/
def sampleState : State Unit :=
  ⟨[⟨"p", "org", "Launch", none, some [⟨"draft", "Draft", .pending⟩], none, 0, 0⟩], [], [], []⟩

theorem sampleState_consistent : Consistent sampleState where
  projects := List.nodup_singleton _
  boards := List.nodup_nil
  tasks := List.nodup_nil
  named := List.forall_mem_nil _
  housed := List.forall_mem_nil _
  staged := List.forall_mem_nil _

def sampleCreate : Step :=
  .quickCreate sampleEnv "p" ⟨none, some "draft", "Write", none, "NORMAL", .pending⟩ none
    sampleActor

/-- A task is restored after another stage was added. -/
theorem stages_exist_sample : ∃ s : State Unit, Reached RestoresStaged s ∧
    s.tasks.map (fun task => (task.stageKey, task.deletedAt)) = [(some "draft", none)] ∧
    s.projects.map (·.boardRevision) = [1] ∧ StagesExist s := by
  have hcreated : Reached RestoresStaged _ :=
    @Reached.step _ _ _ _ sampleCreate (.start sampleState_consistent) trivial rfl
  have hdeleted : Reached RestoresStaged _ :=
    @Reached.step _ _ _ _ (.softDelete sampleEnv sampleCuid "org") hcreated trivial rfl
  have hsaved : Reached RestoresStaged _ := @Reached.step _ _ _ _ (.saveTaskStages "p" 0
    [⟨"draft", "Draft", .pending⟩, ⟨"final", "Final", .completed⟩] none sampleActor) hdeleted
      trivial rfl
  have hrestored : Reached RestoresStaged _ :=
    @Reached.step _ _ _ _ (.restore sampleEnv sampleCuid sampleActor) hsaved ?_ rfl
  · exact ⟨_, hrestored, rfl, rfl, (stages_exist hrestored).1⟩
  · intro task htask key hkey
    obtain rfl := Except.ok.inj (htask.symm.trans rfl)
    obtain rfl := Option.some.inj hkey
    decide

/-- A task waits in the trash while its stage is removed, and comes back without one. -/
theorem restored_without_stage :
    ∃ s : State Unit, Reached (fun _ _ => True) s ∧ ¬ StagesExist s := by
  have hcreated : Reached (fun _ _ => True) _ :=
    .step (.start sampleState_consistent) trivial (rfl : sampleState.step sampleCreate = .ok _)
  have hdeleted : Reached (fun _ _ => True) _ :=
    hcreated.step trivial (rfl : State.step _ (.softDelete sampleEnv sampleCuid "org") = .ok _)
  have hsaved : Reached (fun _ _ => True) _ := hdeleted.step trivial
    (rfl : State.step _ (.saveTaskStages "p" 0 [⟨"final", "Final", .completed⟩] none sampleActor) =
      .ok _)
  refine ⟨_, hsaved.step trivial
    (rfl : State.step _ (.restore sampleEnv sampleCuid sampleActor) = .ok _), ?_⟩
  intro hexist
  have hkey := hexist _ List.mem_cons_self rfl "draft" rfl
  revert hkey
  decide

end Ashbi.Boards
