import Ashbi.Cuid
import Ashbi.Keyset.Listing
import Ashbi.Pages.Inherited

/-! The list of the knowledge pages that a user can read. -/

namespace Ashbi.Pages

open Checked Hierarchy Keyset

/-- A page with the other fields that the list reads. -/
structure Entry extends Page where
  title : String
  content : String
  accessRevision : ℕ
  updatedAt : Time

/-- The tables of the list; the database makes the ids. -/
structure Wiki where
  users : List User
  entries : List Entry
  unique : (entries.map (·.id)).Nodup
  cuids : ∀ entry ∈ entries, IsCuid entry.id

def Wiki.state (w : Wiki) : State := ⟨w.users, w.entries.map (·.toPage)⟩

/-- How the database compares texts. -/
structure Database where
  collation : Collation Id
  contains : String → String → Bool

structure ListQuery where
  limit : ℕ := 25
  after : Option Id := none
  search : String := ""
  includeArchived : Bool := false
  parentId : Option Id := none

/-- The row without its grants and its organization. -/
structure ListItem where
  id : Id
  parentId : Option Id
  authorId : Id
  accessMode : AccessMode
  accessRevision : ℕ
  archivedAt : Option Time
  title : String
  revision : ℕ
  updatedAt : Time
  permissions : Rights

section Service

variable (db : Database) (w : Wiki)

/-- The filters of the query. -/
def ListQuery.wants (q : ListQuery) (organizationId : Id) (entry : Entry) : Bool :=
  entry.organizationId = organizationId && (q.includeArchived || entry.active) &&
    (q.parentId.all fun parentId =>
      entry.parentId = if parentId = "ROOT" then none else some parentId) &&
    (q.search = "" || db.contains entry.title q.search || db.contains entry.content q.search)

def Wiki.rows (q : ListQuery) (organizationId : Id) (cursor : Option Id) : List Entry :=
  (db.collation.sort (·.id) (w.entries.filter fun entry =>
    q.wants db organizationId entry && db.collation.after (Js.truthy cursor) entry.id)).take 100

def Entry.item (row : Entry) (permissions : Rights) : ListItem where
  id := row.id
  parentId := row.parentId
  authorId := row.authorId
  accessMode := row.accessMode
  accessRevision := row.accessRevision
  archivedAt := row.archivedAt
  title := row.title
  revision := row.revision
  updatedAt := row.updatedAt
  permissions := permissions

/-- The loop over the rows of one query. -/
def addVisible (limit : ℕ) (rights : Id → Rights) : List ListItem → List Entry → List ListItem
  | visible, [] => visible
  | visible, row :: rows =>
    let permissions := rights row.id
    let visible := if permissions.canRead then visible ++ [row.item permissions] else visible
    if limit < visible.length then visible else addVisible limit rights visible rows

theorem rows_last {q : ListQuery} {organizationId : Id} {cursor : Option Id} {last : Entry}
    (h : (w.rows db q organizationId cursor).getLast? = some last) :
    last ∈ w.entries ∧ db.collation.after (Js.truthy cursor) last.id = true := by
  have hmem := List.mem_of_mem_take (List.mem_of_getLast? h)
  rw [Collation.mem_sort, List.mem_filter, Bool.and_eq_true] at hmem
  exact ⟨hmem.1, hmem.2.2⟩

/-- Behind the last row of a query fewer rows are left. -/
theorem rows_shrink {cursor : Option Id} {last : Entry} (hlast : last ∈ w.entries)
    (hafter : db.collation.after (Js.truthy cursor) last.id = true) :
    (w.entries.filter fun entry => db.collation.after (Js.truthy (some last.id)) entry.id).length <
      (w.entries.filter fun entry => db.collation.after (Js.truthy cursor) entry.id).length := by
  have hcursor : Js.truthy (some last.id) = some last.id := by
    exact Js.truthy_some (w.cuids last hlast).ne_empty
  have hsplit : (w.entries.filter fun entry => db.collation.after (some last.id) entry.id) =
      (w.entries.filter fun entry => db.collation.after (Js.truthy cursor) entry.id).filter
        fun entry => db.collation.after (some last.id) entry.id := by
    rw [List.filter_filter]
    refine List.filter_congr fun entry _ => ?_
    cases hentry : db.collation.after (some last.id) entry.id with
    | false => simp
    | true => simpa using (db.collation.after_trans hafter hentry).symm
  rw [hcursor, hsplit]
  refine List.length_filter_lt_length_iff_exists.mpr ⟨last, ?_, ?_⟩
  · exact List.mem_filter.mpr ⟨hlast, hafter⟩
  · simp [Collation.after, db.collation.irrefl]

/-- The loop over the queries. -/
def Wiki.scan (user : User) (q : ListQuery) (cursor : Option Id) (visible : List ListItem) :
    List ListItem :=
  if visible.length ≤ q.limit then
    let rows := w.rows db q user.organizationId cursor
    let cache := load w.state user (rows.map (·.id)) (rows.map (·.toPage)) fun _ => none
    let visible := addVisible q.limit (rights user cache) visible rows
    if q.limit < visible.length || rows.length < 100 then visible
    else
      match _hlast : (w.rows db q user.organizationId cursor).getLast? with
      | none => visible
      | some last => Wiki.scan user q (some last.id) visible
  else visible
termination_by (w.entries.filter fun entry =>
  db.collation.after (Js.truthy cursor) entry.id).length
decreasing_by
  obtain ⟨hmem, hafter⟩ := rows_last db w _hlast
  exact rows_shrink db w hmem hafter

def Wiki.listWorkspacePages (q : ListQuery) (actor : Actor) :
    Except Failure (List ListItem × Option Id) := do
  let user ← currentWikiStaff w.state actor
  refuse (q.limit < 1 || 50 < q.limit || 200 < Js.length q.search ||
      q.after.any fun after => after = "" || 80 < Js.length after)
    (.fail 400 "Invalid knowledge page query")
  let visible := w.scan db user q q.after []
  pure (visible.take q.limit,
    if q.limit < visible.length then (visible[q.limit - 1]?).map (·.id) else none)

end Service

/-! ### What a scan finds -/

section Scan

variable {db : Database} {w : Wiki} {user : User} {q : ListQuery}

theorem state_unique (w : Wiki) : w.state.ids.Nodup := by
  simpa [State.ids, Wiki.state, Function.comp_def] using w.unique

/-- All rows that the filters want, in order. -/
def Wiki.wanted (db : Database) (w : Wiki) (q : ListQuery) (organizationId : Id) : List Entry :=
  db.collation.sort (·.id) (w.entries.filter (q.wants db organizationId))

theorem wanted_increasing (db : Database) (w : Wiki) (q : ListQuery) (organizationId : Id) :
    db.collation.Increasing (·.id) (w.wanted db q organizationId) :=
  Collation.sort_increasing (w.unique.sublist (List.filter_sublist.map _))

theorem mem_wanted {organizationId : Id} {entry : Entry} :
    entry ∈ w.wanted db q organizationId ↔
      entry ∈ w.entries ∧ q.wants db organizationId entry = true := by
  rw [Wiki.wanted, Collation.mem_sort, List.mem_filter]

theorem rows_eq (db : Database) (w : Wiki) (q : ListQuery) (organizationId : Id)
    (cursor : Option Id) : w.rows db q organizationId cursor =
      ((w.wanted db q organizationId).filter fun entry =>
        db.collation.after (Js.truthy cursor) entry.id).take 100 := by
  rw [Wiki.rows, Wiki.wanted, ← Collation.sort_filter
    (w.unique.sublist (List.filter_sublist.map _)),
    List.filter_filter]
  congr 3
  funext entry
  exact Bool.and_comm _ _

/-- The items that the user sees of these rows. -/
def readable (rights : Id → Rights) (rows : List Entry) : List ListItem :=
  (rows.filter fun row => (rights row.id).canRead).map fun row => row.item (rights row.id)

theorem readable_congr {rights rights' : Id → Rights} {rows : List Entry}
    (h : ∀ row ∈ rows, rights row.id = rights' row.id) :
    readable rights rows = readable rights' rows := by
  unfold readable
  rw [List.filter_congr fun row hrow => by rw [h row hrow]]
  exact List.map_congr_left fun row hrow => by rw [h row (List.mem_of_mem_filter hrow)]

theorem readable_append (rights : Id → Rights) (rows rows' : List Entry) :
    readable rights (rows ++ rows') = readable rights rows ++ readable rights rows' := by
  simp [readable]

/-- The loop stops at the first item behind the limit. -/
theorem addVisible_eq {limit : ℕ} {rights : Id → Rights} {visible : List ListItem}
    {rows : List Entry} (hvisible : visible.length ≤ limit) :
    addVisible limit rights visible rows =
      (visible ++ readable rights rows).take (limit + 1) := by
  induction rows generalizing visible with
  | nil =>
    have hlength : visible.length ≤ limit + 1 := Nat.le_succ_of_le hvisible
    simp [addVisible, readable, List.take_of_length_le hlength]
  | cons row rows ih =>
    simp only [addVisible]
    by_cases hread : (rights row.id).canRead = true
    · have hcons : readable rights (row :: rows) =
          row.item (rights row.id) :: readable rights rows := by
        simp [readable, hread]
      have happ := List.append_cons visible (row.item (rights row.id)) (readable rights rows)
      rw [if_pos hread, hcons, happ]
      split
      · rename_i hfull
        have hlength : (visible ++ [row.item (rights row.id)]).length = limit + 1 :=
          Nat.le_antisymm (by simpa using hvisible) hfull
        rw [List.take_append_of_le_length hlength.ge, List.take_of_length_le hlength.le]
      · rename_i hroom
        exact ih (Nat.le_of_not_lt hroom)
    · have hskip : readable rights (row :: rows) = readable rights rows := by
        simp [readable, hread]
      rw [if_neg hread, hskip, if_neg (Nat.not_lt.mpr hvisible)]
      exact ih hvisible

/-- The rows of a query are judged by the stored pages alone. -/
theorem addVisible_rows {cursor : Option Id} {visible : List ListItem}
    (hvisible : visible.length ≤ q.limit) :
    let rows := w.rows db q user.organizationId cursor
    addVisible q.limit (rights user
        (load w.state user (rows.map (·.id)) (rows.map (·.toPage)) fun _ => none)) visible rows =
      (visible ++ readable (w.state.rightsOn user) rows).take (q.limit + 1) := by
  intro rows
  rw [addVisible_eq hvisible]
  congr 2
  refine readable_congr fun row hrow => ?_
  refine rights_eq (state_unique w) ?_ (.inl (List.mem_map_of_mem hrow))
  intro page hpage
  obtain ⟨entry, hentry, rfl⟩ := List.mem_map.mp hpage
  have hmem := List.mem_of_mem_take hentry
  rw [Collation.mem_sort] at hmem
  exact List.mem_map_of_mem (List.mem_of_mem_filter hmem)

/-- A scan finds the visible rows behind the cursor, up to one more than the limit. -/
theorem scan_eq {cursor : Option Id} {visible : List ListItem}
    (hvisible : visible.length ≤ q.limit) :
    w.scan db user q cursor visible =
      (visible ++ readable (w.state.rightsOn user)
        ((w.wanted db q user.organizationId).filter fun entry =>
          db.collation.after (Js.truthy cursor) entry.id)).take (q.limit + 1) := by
  fun_induction Wiki.scan db w user q cursor visible with
  | case1 cursor visible _ rows cache found hstop =>
    have hfound : found = (visible ++ readable (w.state.rightsOn user) rows).take (q.limit + 1) :=
      addVisible_rows hvisible
    have hrows : rows = _ := rows_eq db w q user.organizationId cursor
    generalize (w.wanted db q user.organizationId).filter (fun entry =>
      db.collation.after (Js.truthy cursor) entry.id) = rest at hrows ⊢
    rw [Bool.or_eq_true, decide_eq_true_eq, decide_eq_true_eq] at hstop
    rcases hstop with hfull | hshort
    · -- the limit is passed within these rows
      rw [hfound] at hfull ⊢
      have hlength : q.limit + 1 ≤ (visible ++ readable (w.state.rightsOn user) rows).length := by
        simp only [List.length_take] at hfull
        omega
      rw [← List.take_append_drop 100 rest, ← hrows, readable_append, ← List.append_assoc,
        List.take_append_of_le_length hlength]
    · have hall : rest = rows := by
        rw [hrows, List.length_take] at hshort
        rw [hrows, List.take_of_length_le (by omega)]
      rw [hfound, hall]
  | case2 cursor visible _ rows cache found hmore hlast =>
    have hnil : rows = [] := List.getLast?_eq_none_iff.mp hlast
    simp [hnil] at hmore
  | case3 cursor visible _ rows cache found hmore last hlast ih =>
    have hfound : found = (visible ++ readable (w.state.rightsOn user) rows).take (q.limit + 1) :=
      addVisible_rows hvisible
    have hrows : rows = _ := rows_eq db w q user.organizationId cursor
    obtain ⟨hmem, -⟩ := rows_last db w hlast
    have hcursor : Js.truthy (some last.id) = some last.id := by
      exact Js.truthy_some (w.cuids last hmem).ne_empty
    obtain ⟨before, hsplit⟩ := List.getLast?_eq_some_iff.mp hlast
    have hbefore : rows = before ++ [last] := hsplit
    have hall := List.take_append_drop 100 ((w.wanted db q user.organizationId).filter fun entry =>
      db.collation.after (Js.truthy cursor) entry.id)
    rw [← hrows] at hall
    have hbehind := (wanted_increasing db w q user.organizationId).filter_after_of_split
      (hall.symm.trans (by rw [hbefore, List.append_assoc, List.singleton_append]))
    rw [Bool.or_eq_true, decide_eq_true_eq, decide_eq_true_eq, not_or] at hmore
    have hroom : found.length ≤ q.limit := Nat.le_of_not_lt hmore.1
    have hwhole : found = visible ++ readable (w.state.rightsOn user) rows := by
      rw [hfound, List.length_take] at hroom
      rw [hfound, List.take_of_length_le (by omega)]
    rw [ih hroom, hcursor, hbehind, hwhole, List.append_assoc, ← readable_append, hall]
  | case4 cursor visible hfull => exact absurd hvisible hfull

/-- All items of a listing. -/
def Wiki.items (db : Database) (w : Wiki) (user : User) (q : ListQuery) : List ListItem :=
  readable (w.state.rightsOn user) (w.wanted db q user.organizationId)

theorem items_increasing : db.collation.Increasing (·.id) (w.items db user q) := by
  refine List.pairwise_map.mpr ?_
  exact (wanted_increasing db w q user.organizationId).filter _

theorem items_filter (cursor : Option Id) :
    (w.items db user q).filter (fun item => db.collation.after cursor item.id) =
      readable (w.state.rightsOn user) ((w.wanted db q user.organizationId).filter fun entry =>
        db.collation.after cursor entry.id) := by
  unfold Wiki.items readable
  rw [List.filter_map, List.filter_filter, List.filter_filter]
  congr 2
  funext entry
  exact Bool.and_comm _ _

theorem mem_items {item : ListItem} : item ∈ w.items db user q ↔
    ∃ entry ∈ w.entries, q.wants db user.organizationId entry = true ∧
      (w.state.rightsOn user entry.id).canRead = true ∧
      item = entry.item (w.state.rightsOn user entry.id) := by
  unfold Wiki.items readable
  simp only [List.mem_map, List.mem_filter, mem_wanted]
  constructor
  · rintro ⟨entry, ⟨⟨hentry, hwants⟩, hread⟩, rfl⟩
    exact ⟨entry, hentry, hwants, hread, rfl⟩
  · rintro ⟨entry, hentry, hwants, hread, rfl⟩
    exact ⟨entry, ⟨⟨hentry, hwants⟩, hread⟩, rfl⟩

/-- A page of the listing holds the items behind its cursor. -/
theorem listWorkspacePages_eq {actor : Actor} (hstaff : currentWikiStaff w.state actor = .ok user)
    (hlimit : 1 ≤ q.limit ∧ q.limit ≤ 50) (hsearch : Js.length q.search ≤ 200) {cursor : Option Id}
    (hcursor : ∀ k, cursor = some k → k ∈ (w.items db user q).map (·.id)) :
    w.listWorkspacePages db { q with after := cursor } actor =
      .ok (firstPage (·.id) q.limit
        ((w.items db user q).filter fun item => db.collation.after cursor item.id)) := by
  have hcuid : ∀ k, cursor = some k → IsCuid k := fun k hk => by
    obtain ⟨item, hitem, rfl⟩ := List.mem_map.mp (hcursor k hk)
    obtain ⟨entry, hentry, -, -, rfl⟩ := mem_items.mp hitem
    exact w.cuids entry hentry
  have hvalid : (cursor.any fun after => after = "" || 80 < Js.length after) = false := by
    cases cursor with
    | none => rfl
    | some k => simp [(hcuid k rfl).ne_empty, (hcuid k rfl).length_eq]
  have htruthy : Js.truthy cursor = cursor := by
    cases cursor with
    | none => rfl
    | some k => simp [Js.truthy, (hcuid k rfl).ne_empty]
  have hscan : w.scan db user { q with after := cursor } cursor [] =
      ((w.items db user q).filter fun item => db.collation.after cursor item.id).take
        (q.limit + 1) := by
    rw [scan_eq (Nat.zero_le _), items_filter, htruthy]
    rfl
  have haccepted : refuse (q.limit < 1 || 50 < q.limit || 200 < Js.length q.search ||
      cursor.any fun after => after = "" || 80 < Js.length after)
      (Failure.fail 400 "Invalid knowledge page query") = .ok () := by
    rw [refuse_ok, hvalid]
    simp only [Bool.or_false, Bool.or_eq_false_iff, decide_eq_false_iff_not]
    omega
  unfold Wiki.listWorkspacePages
  rw [bind_ok]
  refine ⟨user, hstaff, bind_ok.mpr ⟨(), haccepted, ?_⟩⟩
  rw [pure_ok, ← firstPage_take, ← hscan]
  rfl

/-- Following the cursors lists every page that the filters want and the user can read once. -/
theorem listWorkspacePages_follows {actor : Actor}
    (hstaff : currentWikiStaff w.state actor = .ok user) (hlimit : 1 ≤ q.limit ∧ q.limit ≤ 50)
    (hsearch : Js.length q.search ≤ 200) :
    ∃ pages, Follows (fun cursor => w.listWorkspacePages db { q with after := cursor } actor) none
        pages ∧
      db.collation.Increasing (·.id) pages.flatten ∧
      (∀ item, item ∈ pages.flatten ↔ ∃ entry ∈ w.entries,
        q.wants db user.organizationId entry = true ∧
        (rightsAfter w.state user [entry.id] [] entry.id).canRead = true ∧
        item = entry.item (rightsAfter w.state user [entry.id] [] entry.id)) ∧
      ∀ page ∈ pages, page.length ≤ q.limit := by
  obtain ⟨pages, hfollows, hflatten, hpages⟩ := follows_all items_increasing hlimit.1
    (fun cursor hcursor => listWorkspacePages_eq hstaff hlimit hsearch hcursor) none
    fun k hk => by cases hk
  have hall : pages.flatten = w.items db user q := by
    rw [hflatten]
    exact List.filter_eq_self.mpr fun _ _ => rfl
  refine ⟨pages, hfollows, hall ▸ items_increasing, fun item => ?_, hpages⟩
  have hrights : ∀ id, rightsAfter w.state user [id] [] id = w.state.rightsOn user id := fun id =>
    rights_eq (state_unique w) (List.nil_subset _) (.inl List.mem_cons_self)
  rw [hall, mem_items]
  simp only [hrights]

end Scan

end Ashbi.Pages
