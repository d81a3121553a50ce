import Ashbi.Boards.Board
import Ashbi.Pages.Listing

/-! The list of a project's boards, which its own board leads. -/

namespace Ashbi.Boards

open Checked Keyset
open Pages (Failure)

variable {View : Type}

/-- The tables of the list; the database makes the ids. -/
structure Catalog (View : Type) extends State View where
  unique : (boards.map (·.id)).Nodup
  cuids : ∀ board ∈ boards, IsCuid board.id

structure BoardQuery where
  after : Option Id := none
  limit : ℕ := 25
  includeArchived : Bool := false

structure BoardItem (View : Type) where
  id : Id
  name : String
  description : String
  isDefault : Bool
  taskStages : List Stage
  taskViews : List View
  stageRevision : ℕ
  viewsRevision : ℕ
  revision : ℕ
  archivedAt : Option Time
  taskCount : ℕ

section Service

variable (collation : Collation Id) (s : State View)

/-- The filters of the query. -/
def BoardQuery.wants (q : BoardQuery) (organizationId projectId : Id) (board : Board View) : Bool :=
  board.organizationId = organizationId && board.projectId = projectId &&
    (q.includeArchived || board.archivedAt.isNone)

def boardRows (projectId : Id) (q : BoardQuery) (actor : Actor) (take : ℕ) : List (Board View) :=
  (collation.sort (·.id) (s.boards.filter fun board =>
    q.wants actor.organizationId projectId board &&
      collation.after (q.after.filter (· ≠ defaultBoardId)) board.id)).take take

def Board.item (board : Board View) : BoardItem View where
  id := board.id
  name := board.name
  description := board.description
  isDefault := false
  taskStages := board.taskStages
  taskViews := board.taskViews
  stageRevision := board.stageRevision
  viewsRevision := board.viewsRevision
  revision := board.revision
  archivedAt := board.archivedAt
  taskCount := s.tasks.countP fun task => task.boardId = some board.id && task.deletedAt.isNone

/-- The project's own board. -/
def defaultItem (project : Project View) (projectId : Id) (actor : Actor) : BoardItem View where
  id := defaultBoardId
  name := "Project board"
  description := ""
  isDefault := true
  taskStages := project.taskStages.getD []
  taskViews := project.taskViews.getD []
  stageRevision := project.boardRevision
  viewsRevision := project.taskViewsRevision
  revision := 0
  archivedAt := none
  taskCount := s.tasks.countP fun task =>
    task.projectId = projectId && task.boardId.isNone && task.deletedAt.isNone &&
      s.projects.any fun project =>
        project.id = task.projectId && project.organizationId = actor.organizationId

def listProjectBoards (projectId : Id) (q : BoardQuery) (actor : Actor) :
    Except Failure (List (BoardItem View) × Option Id) := do
  let project ← projectFor s projectId actor
  refuse (q.limit < 1 || 100 < q.limit) (.fail 400 "Choose a page size between 1 and 100.")
  refuse (q.after.any fun after => after = "" || 80 < Js.length after)
    (.fail 400 "Invalid board page options.")
  let capacity := q.limit - if q.after.isSome then 0 else 1
  let rows := boardRows collation s projectId q actor (capacity + 1)
  let stored := (rows.take capacity).map (·.item s)
  let items := if q.after.isSome then stored else defaultItem s project projectId actor :: stored
  pure (items, if capacity < rows.length then
    some ((stored.getLast?.map (·.id)).getD defaultBoardId) else none)

end Service

section Catalog

variable {collation : Collation Id} {c : Catalog View} {projectId : Id} {q : BoardQuery}
  {actor : Actor} {project : Project View}

/-- All boards that the filters want, in order. -/
def Catalog.wanted (collation : Collation Id) (c : Catalog View) (projectId : Id) (q : BoardQuery)
    (actor : Actor) : List (Board View) :=
  collation.sort (·.id) (c.boards.filter (q.wants actor.organizationId projectId))

theorem wanted_increasing (collation : Collation Id) (c : Catalog View) (projectId : Id)
    (q : BoardQuery) (actor : Actor) :
    collation.Increasing (·.id) (c.wanted collation projectId q actor) :=
  Collation.sort_increasing (c.unique.sublist (List.filter_sublist.map _))

theorem wanted_ne {board : Board View} (h : board ∈ c.wanted collation projectId q actor) :
    board.id ≠ defaultBoardId := by
  rw [Catalog.wanted, Collation.mem_sort, List.mem_filter] at h
  exact (c.cuids board h.1).ne_of_head (by decide)

theorem boardRows_eq (take : ℕ) : boardRows collation c.toState projectId q actor take =
    ((c.wanted collation projectId q actor).filter fun board =>
      collation.after (q.after.filter (· ≠ defaultBoardId)) board.id).take take := by
  rw [boardRows, Catalog.wanted,
    ← Collation.sort_filter (c.unique.sublist (List.filter_sublist.map _)), List.filter_filter]
  congr 3
  funext board
  exact Bool.and_comm _ _

/-- All items of a listing. -/
def Catalog.items (collation : Collation Id) (c : Catalog View) (project : Project View)
    (projectId : Id) (q : BoardQuery) (actor : Actor) : List (BoardItem View) :=
  defaultItem c.toState project projectId actor ::
    (c.wanted collation projectId q actor).map (·.item c.toState)

theorem items_increasing : (collation.withLeast defaultBoardId).Increasing (·.id)
    (c.items collation project projectId q actor) := by
  refine List.pairwise_cons.mpr ⟨fun item hitem => ?_, ?_⟩
  · obtain ⟨board, hboard, rfl⟩ := List.mem_map.mp hitem
    simp [Collation.withLeast, defaultItem, Board.item, wanted_ne hboard]
  · refine List.pairwise_map.mpr ?_
    refine (wanted_increasing collation c projectId q actor).imp_of_mem fun _ hb hlt => ?_
    simp [Collation.withLeast, Board.item, wanted_ne hb, hlt]

/-- Behind a cursor come stored boards only. -/
theorem items_filter (k : Id) :
    (c.items collation project projectId q actor).filter (fun item =>
      (collation.withLeast defaultBoardId).after (some k) item.id) =
    ((c.wanted collation projectId q actor).filter fun board =>
      collation.after ((some k).filter (· ≠ defaultBoardId)) board.id).map (·.item c.toState) := by
  have hdefault : (collation.withLeast defaultBoardId).after (some k) defaultBoardId = false := by
    simp [Collation.after, Collation.withLeast]
  rw [Catalog.items, List.filter_cons_of_neg (by simp [defaultItem, hdefault]), List.filter_map]
  congr 1
  refine List.filter_congr fun board hboard => ?_
  by_cases hk : k = defaultBoardId
  · simp [Collation.after, Collation.withLeast, Board.item, wanted_ne hboard, hk]
  · simp [Collation.after, Collation.withLeast, Board.item, wanted_ne hboard, hk]

/-- A page of the listing holds the items behind its cursor. -/
theorem listProjectBoards_eq (hproject : projectFor c.toState projectId actor = .ok project)
    (hlimit : 1 ≤ q.limit ∧ q.limit ≤ 100) {cursor : Option Id}
    (hcursor : ∀ k, cursor = some k →
      k ∈ (c.items collation project projectId q actor).map (·.id)) :
    listProjectBoards collation c.toState projectId { q with after := cursor } actor =
      .ok (firstPage (·.id) q.limit
        ((c.items collation project projectId q actor).filter fun item =>
        (collation.withLeast defaultBoardId).after cursor item.id)) := by
  have hvalid : (cursor.any fun after => after = "" || 80 < Js.length after) = false := by
    cases cursor with
    | none => rfl
    | some k =>
      obtain ⟨item, hitem, rfl⟩ := List.mem_map.mp (hcursor k rfl)
      rcases List.mem_cons.mp hitem with rfl | hitem
      · have hid : (defaultItem c.toState project projectId actor).id = defaultBoardId := rfl
        rw [hid]
        decide
      · obtain ⟨board, hboard, rfl⟩ := List.mem_map.mp hitem
        rw [Catalog.wanted, Collation.mem_sort, List.mem_filter] at hboard
        have hcuid := c.cuids board hboard.1
        simp [Board.item, hcuid.ne_empty, hcuid.length_eq]
  have haccepted : (decide (q.limit < 1) || decide (100 < q.limit)) = false := by
    simp only [Bool.or_eq_false_iff, decide_eq_false_iff_not]
    omega
  unfold listProjectBoards
  rw [bind_ok]
  refine ⟨project, hproject, bind_ok.mpr ⟨(), refuse_ok.mpr haccepted, ?_⟩⟩
  refine bind_ok.mpr ⟨(), refuse_ok.mpr hvalid, ?_⟩
  have hshort : ∀ (capacity : ℕ) (rows : List (Board View)),
      (rows.take (capacity + 1)).take capacity = rows.take capacity ∧
      (capacity < (rows.take (capacity + 1)).length ↔ capacity < rows.length) := by
    intro capacity rows
    rw [List.take_take, Nat.min_eq_left (Nat.le_succ capacity), List.length_take]
    exact ⟨rfl, by omega⟩
  rw [pure_ok]
  dsimp only
  rw [boardRows_eq, (hshort _ _).1, if_congr (hshort _ _).2 rfl rfl, List.map_take]
  cases cursor with
  | none =>
    obtain ⟨n, hn⟩ : ∃ n, q.limit = n + 1 := ⟨q.limit - 1, by omega⟩
    have hall : ∀ {α : Type} (rows : List α), rows.filter (fun _ => true) = rows := fun rows =>
      List.filter_eq_self.mpr fun _ _ => rfl
    have hitems := firstPage_cons (·.id) n (defaultItem c.toState project projectId actor)
      ((c.wanted collation projectId q actor).map (·.item c.toState))
    rw [hn]
    simp only [Collation.after, Option.filter_none, Option.all_none, hall, Option.isSome_none,
      Bool.false_eq_true, if_false, Nat.add_sub_cancel]
    rw [Catalog.items, hitems, List.length_map]
    rfl
  | some k =>
    rw [items_filter, firstPage_pos hlimit.1 _ defaultBoardId]
    simp only [Option.isSome_some, if_true, Nat.sub_zero, List.length_map]
    rfl

/-- Following the cursors lists the project's own board and every board that the filters want
once. -/
theorem listProjectBoards_follows (hproject : projectFor c.toState projectId actor = .ok project)
    (hlimit : 1 ≤ q.limit ∧ q.limit ≤ 100) :
    ∃ pages stored, Follows (fun cursor =>
        listProjectBoards collation c.toState projectId { q with after := cursor } actor)
          none pages ∧
      pages.flatten = defaultItem c.toState project projectId actor :: stored ∧
      collation.Increasing (·.id) stored ∧
      (∀ item, item ∈ stored ↔ ∃ board ∈ c.boards,
        q.wants actor.organizationId projectId board = true ∧ item = board.item c.toState) ∧
      ∀ page ∈ pages, page.length ≤ q.limit := by
  obtain ⟨pages, hfollows, hflatten, hpages⟩ := follows_all items_increasing hlimit.1
    (fun cursor hcursor => listProjectBoards_eq hproject hlimit hcursor) none
    fun k hk => by cases hk
  refine ⟨pages, _, hfollows, hflatten.trans (List.filter_eq_self.mpr fun _ _ => rfl), ?_, ?_,
    hpages⟩
  · exact List.pairwise_map.mpr (wanted_increasing collation c projectId q actor)
  · intro item
    simp only [List.mem_map, Catalog.wanted, Collation.mem_sort, List.mem_filter]
    constructor
    · rintro ⟨board, ⟨hboard, hwants⟩, rfl⟩
      exact ⟨board, hboard, hwants, rfl⟩
    · rintro ⟨board, hboard, hwants, rfl⟩
      exact ⟨board, ⟨hboard, hwants⟩, rfl⟩

end Catalog

/-! ### Both listings -/

/-- From the first page on, the cursors lead through every readable page, and through the project's
own board and every stored one, once and in order. -/
theorem cursors_list_once :
    (∀ (db : Pages.Database) (w : Pages.Wiki) (q : Pages.ListQuery) actor user,
      Pages.currentWikiStaff w.state actor = .ok user → 1 ≤ q.limit ∧ q.limit ≤ 50 →
      Js.length q.search ≤ 200 →
      ∃ pages, Follows (fun cursor => w.listWorkspacePages db { q with after := cursor } actor) none
          pages ∧
        db.collation.Increasing (·.id) pages.flatten ∧
        (∀ item, item ∈ pages.flatten ↔ ∃ entry ∈ w.entries,
          q.wants db user.organizationId entry = true ∧
          (Pages.rightsAfter w.state user [entry.id] [] entry.id).canRead = true ∧
          item = entry.item (Pages.rightsAfter w.state user [entry.id] [] entry.id)) ∧
        ∀ page ∈ pages, page.length ≤ q.limit) ∧
    ∀ (collation : Collation Id) (c : Catalog View) projectId (q : BoardQuery) actor project,
      projectFor c.toState projectId actor = .ok project → 1 ≤ q.limit ∧ q.limit ≤ 100 →
      ∃ pages stored, Follows (fun cursor =>
          listProjectBoards collation c.toState projectId { q with after := cursor } actor) none
          pages ∧
        pages.flatten = defaultItem c.toState project projectId actor :: stored ∧
        collation.Increasing (·.id) stored ∧
        (∀ item, item ∈ stored ↔ ∃ board ∈ c.boards,
          q.wants actor.organizationId projectId board = true ∧ item = board.item c.toState) ∧
        ∀ page ∈ pages, page.length ≤ q.limit :=
  ⟨fun _ _ _ _ _ hstaff hlimit hsearch =>
      Pages.listWorkspacePages_follows hstaff hlimit hsearch,
    fun _ _ _ _ _ _ hproject hlimit => listProjectBoards_follows hproject hlimit⟩

/-- The order of code points. -/
def sampleCollation : Collation Id := .ofOrder Id

/-- A page of the author that the team reads, or only those who are granted it. -/
def samplePage (ch : Char) (authorId : Id) (accessMode : Pages.AccessMode) : Pages.Entry where
  id := cuidOf ch
  organizationId := "org"
  authorId := authorId
  parentId := none
  accessMode := accessMode
  grants := []
  revision := 0
  archivedAt := none
  title := "Notes"
  content := ""
  accessRevision := 0
  updatedAt := 0

/-- Two pages for the team, and between them one of somebody else. -/
def sampleWiki : Pages.Wiki where
  users := [⟨"u1", "org", .team, true⟩]
  entries := [samplePage 'a' "u1" .team, samplePage 'b' "u2" .restricted, samplePage 'c' "u2" .team]
  unique := by decide
  cuids entry hentry := by
    rcases List.mem_cons.mp hentry with rfl | hentry
    · exact cuidOf_isCuid (by decide)
    rcases List.mem_cons.mp hentry with rfl | hentry
    · exact cuidOf_isCuid (by decide)
    · obtain rfl := List.mem_singleton.mp hentry
      exact cuidOf_isCuid (by decide)

def sampleCatalog : Catalog Unit where
  projects := [⟨"p", "org", "Launch", none, none, none, 0, 0⟩]
  boards := [⟨sampleCuid, "org", "p", "Design", "", [], [], 0, 0, 0, none⟩]
  tasks := []
  trash := []
  unique := List.nodup_singleton _
  cuids board hboard := by
    obtain rfl := List.mem_singleton.mp hboard
    exact sampleCuid_isCuid

theorem cursors_list_once_sample :
    (∃ pages, Follows (fun cursor => sampleWiki.listWorkspacePages
        ⟨sampleCollation, fun _ _ => false⟩ { limit := 1, after := cursor } ⟨"u1", "org", .team⟩)
          none
        pages ∧ (∀ id, id ∈ pages.flatten.map (·.id) ↔ id = cuidOf 'a' ∨ id = cuidOf 'c') ∧
      ∀ page ∈ pages, page.length ≤ 1) ∧
    ∃ pages, Follows (fun cursor => listProjectBoards sampleCollation sampleCatalog.toState "p"
        { limit := 1, after := cursor } ⟨"u1", "org", .team⟩) none pages ∧
      ∀ page ∈ pages, page.length ≤ 1 := by
  constructor
  · obtain ⟨pages, hfollows, -, hmem, hpages⟩ := (@cursors_list_once Unit).1
      ⟨sampleCollation, fun _ _ => false⟩ sampleWiki { limit := 1 } ⟨"u1", "org", .team⟩ _ rfl
      (by decide) (by decide)
    refine ⟨pages, hfollows, fun id => ?_, hpages⟩
    rw [List.mem_map]
    constructor
    · rintro ⟨item, hitem, rfl⟩
      obtain ⟨entry, hentry, -, hread, rfl⟩ := (hmem item).mp hitem
      rcases List.mem_cons.mp hentry with rfl | hentry
      · exact .inl rfl
      rcases List.mem_cons.mp hentry with rfl | hentry
      · exact absurd hread (by decide +kernel)
      · obtain rfl := List.mem_singleton.mp hentry
        exact .inr rfl
    · rintro (rfl | rfl)
      · exact ⟨_, (hmem _).mpr ⟨samplePage 'a' "u1" .team, by simp [sampleWiki], by decide +kernel,
          by decide +kernel, rfl⟩, rfl⟩
      · exact ⟨_, (hmem _).mpr ⟨samplePage 'c' "u2" .team, by simp [sampleWiki], by decide +kernel,
          by decide +kernel, rfl⟩, rfl⟩
  · obtain ⟨pages, _, hfollows, -, -, -, hpages⟩ := cursors_list_once.2 sampleCollation
      sampleCatalog "p" { limit := 1 } ⟨"u1", "org", .team⟩ _ rfl (by decide)
    exact ⟨pages, hfollows, hpages⟩

end Ashbi.Boards
