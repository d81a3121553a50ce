import Ashbi.Keyset.Listing
import Ashbi.Sql.Batch

/-! Pages of tasks by priority, read bucket by bucket. -/

namespace Ashbi.Tasks

open Sql

/-- The priorities, most urgent first. -/
def taskPriorities : List String := ["CRITICAL", "HIGH", "NORMAL", "LOW"]

/-- 0 for CRITICAL to 3 for LOW; unknown priorities come last. -/
def taskPriorityRank (priority : String) : ℕ := taskPriorities.idxOf priority

structure Task (β : Type) where
  id : String
  priority : String
  details : β

variable {β : Type}

/-- A clause of `orderBy`: the id, or another column or relation. -/
inductive OrderBy (β : Type)
  | id (descending : Bool)
  | other (clause : Clause (Task β))

/-- `Object.hasOwn(clause, 'id')`. -/
def OrderBy.hasId : OrderBy β → Bool
  | .id _ => true
  | .other _ => false

section Database

variable (ids : Keyset.Collation String)

def idClause (descending : Bool) : Clause (Task β) where
  le a b := if descending then !ids.lt a.id b.id else !ids.lt b.id a.id
  total a b := by
    cases descending <;> cases hab : ids.lt a.id b.id <;> cases hba : ids.lt b.id a.id <;> simp
    all_goals
      have := ids.asymm hab
      rw [hba] at this
      cases this
  trans {a b c} hab hbc := by
    cases descending <;> simp only [Bool.not_eq_true', if_true, if_false, Bool.false_eq_true] at *
    · exact ids.not_lt_trans hab hbc
    · exact ids.not_lt_trans hbc hab

def OrderBy.clause : OrderBy β → Clause (Task β)
  | .id descending => idClause ids descending
  | .other clause => clause

def clauses (orderBy : List (OrderBy β)) : List (Clause (Task β)) :=
  orderBy.map (OrderBy.clause ids)

/-- A database that nobody writes to, and how its delegate answers a `findMany`: each query may
arrange tied rows in its own way, and returns at most `cap` rows. -/
structure Delegate (β : Type) where
  tasks : List (Task β)
  distinct : (tasks.map Task.id).Nodup
  cap : ℕ
  capPos : 0 < cap
  arrange : (Task β → Bool) → List (OrderBy β) → ℕ → ℕ → List (Task β)
  arranged : ∀ filter orderBy skip take,
    Arranged (clauses ids orderBy) (tasks.filter filter) (arrange filter orderBy skip take)

variable {ids}

namespace Delegate

variable (d : Delegate ids β)

def count (filter : Task β → Bool) : ℕ := (d.tasks.filter filter).length

def findMany (filter : Task β → Bool) (orderBy : List (OrderBy β)) (skip take : ℕ) :
    List (Task β) :=
  ((d.arrange filter orderBy skip take).drop skip).take (min take d.cap)

end Delegate

variable (d : Delegate ids β)

/-- The conditions of the buckets: one per priority, and all other priorities. -/
def buckets : List (Task β → Bool) :=
  taskPriorities.map (fun priority (task : Task β) => decide (task.priority = priority))
    ++ [fun task => !taskPriorities.contains task.priority]

/-- The order of the rows of one bucket ends with the unique id. -/
def totalOrder (orderBy : List (OrderBy β)) : List (OrderBy β) :=
  if orderBy.any OrderBy.hasId then orderBy else orderBy ++ [.id false]

/-- The inner `while` loop, with the rows and the remainder after it. -/
def readBucket (filter : Task β → Bool) (orderBy : List (OrderBy β)) (count : ℕ)
    (offset remaining : ℕ) (rows : List (Task β)) : List (Task β) × ℕ :=
  if hmore : 0 < remaining ∧ offset < count then
    let page := d.findMany filter orderBy offset remaining
    if hpage : page.length = 0 then (rows, remaining)
    else
      readBucket filter orderBy count (offset + page.length) (remaining - page.length)
        (rows ++ page)
  else (rows, remaining)
  termination_by remaining
  decreasing_by exact Nat.sub_lt hmore.1 (Nat.pos_of_ne_zero hpage)

/-- The loop over the buckets and their counts. -/
def readBuckets (filter : Task β → Bool) (orderBy : List (OrderBy β)) :
    List ((Task β → Bool) × ℕ) → ℕ → ℕ → List (Task β) → List (Task β)
  | [], _, _, rows => rows
  | (bucket, count) :: rest, offset, remaining, rows =>
    if remaining = 0 then rows
    else if count ≤ offset then readBuckets filter orderBy rest (offset - count) remaining rows
    else
      let (rows, remaining) :=
        readBucket d (fun task => filter task && bucket task) orderBy count offset remaining rows
      readBuckets filter orderBy rest 0 remaining rows

def findTasksInPriorityOrder (filter : Task β → Bool) (orderBy : List (OrderBy β))
    (skip take : ℕ) : List (Task β) :=
  let counts := buckets.map fun bucket => d.count fun task => filter task && bucket task
  readBuckets d filter (totalOrder orderBy) (buckets.zip counts) skip take []

/-! ### The whole list -/

def rankClause : Clause (Task β) where
  le a b := taskPriorityRank a.priority ≤ taskPriorityRank b.priority
  total a b := by simpa using Nat.le_total _ _
  trans hab hbc := by
    simp only [decide_eq_true_eq] at *
    exact Nat.le_trans hab hbc

variable (ids) in
/-- By priority, then the secondary order, then id. -/
def fullOrder (orderBy : List (OrderBy β)) : List (Clause (Task β)) :=
  rankClause :: clauses ids (orderBy ++ [.id false])

theorem idClause_tie {descending : Bool} {a b : Task β}
    (hab : (idClause ids descending).le a b = true)
    (hba : (idClause ids descending).le b a = true) :
    a.id = b.id := by
  cases descending <;> simp only [idClause, Bool.not_eq_true', if_true, if_false,
    Bool.false_eq_true] at hab hba
  · exact ids.connected hba hab
  · exact ids.connected hab hba

theorem hasId_clause {o : OrderBy β} (h : o.hasId = true) :
    ∃ descending, o.clause ids = idClause ids descending := by
  cases o with
  | id descending => exact ⟨descending, rfl⟩
  | other clause => cases h

/-- The clauses of a total order do not tie on different ids. -/
theorem totalOrder_tie {orderBy : List (OrderBy β)} {a b : Task β}
    (hab : le (clauses ids (totalOrder orderBy)) a b = true)
    (hba : le (clauses ids (totalOrder orderBy)) b a = true) : a.id = b.id := by
  have hmem : ∃ o ∈ totalOrder orderBy, o.hasId = true := by
    unfold totalOrder
    split
    next h => exact List.any_eq_true.mp h
    next => exact ⟨.id false, by simp, rfl⟩
  obtain ⟨o, ho, hid⟩ := hmem
  obtain ⟨descending, hclause⟩ := @hasId_clause _ ids _ hid
  have hc : idClause ids descending ∈ clauses ids (totalOrder orderBy) :=
    List.mem_map.mpr ⟨o, ho, hclause⟩
  obtain ⟨hab, hba⟩ := le_tie hc hab hba
  exact idClause_tie hab hba

/-- An id clause of the caller leaves nothing for another one to decide. -/
theorem totalOrder_le (orderBy : List (OrderBy β)) (a b : Task β) :
    le (clauses ids (totalOrder orderBy)) a b = le (clauses ids (orderBy ++ [.id false])) a b := by
  unfold totalOrder
  split
  next h =>
    have htie := @totalOrder_tie _ ids orderBy a b
    rw [totalOrder, if_pos h] at htie
    rw [Bool.eq_iff_iff, clauses, clauses, List.map_append, le_append]
    refine ⟨fun hab => ⟨hab, fun hba => ?_⟩, And.left⟩
    have hid := htie hab hba
    simp [le, OrderBy.clause, idClause, hid, ids.irrefl]
  next => rfl

section

variable (orderBy : List (OrderBy β))

/-- The rows of a condition in the order of its bucket. -/
def bucketRows (filter : Task β → Bool) : List (Task β) :=
  (d.tasks.filter filter).mergeSort (le (clauses ids (totalOrder orderBy)))

theorem bucketRows_arranged (filter : Task β → Bool) :
    Arranged (clauses ids (totalOrder orderBy)) (d.tasks.filter filter)
      (bucketRows d orderBy filter) :=
  arranged_mergeSort _ _

theorem same_id {a b : Task β} (ha : a ∈ d.tasks) (hb : b ∈ d.tasks) (h : a.id = b.id) : a = b :=
  List.inj_on_of_nodup_map d.distinct ha hb h

/-- All queries of one bucket see one arrangement. -/
theorem arrange_eq (filter : Task β → Bool) (skip take : ℕ) :
    d.arrange filter (totalOrder orderBy) skip take = bucketRows d orderBy filter :=
  (d.arranged filter (totalOrder orderBy) skip take).unique (bucketRows_arranged d orderBy filter)
    fun _ ha _ hb hab hba =>
      same_id d (List.mem_filter.mp ha).1 (List.mem_filter.mp hb).1 (totalOrder_tie hab hba)

theorem length_bucketRows (filter : Task β → Bool) :
    (bucketRows d orderBy filter).length = d.count filter :=
  List.length_mergeSort _

/-- A page of at most `m` rows, then the rows behind it. -/
theorem take_page {α : Type} (xs : List α) {m n : ℕ} (h : m ≤ n) :
    xs.take n = xs.take m ++ (xs.drop (xs.take m).length).take (n - (xs.take m).length) := by
  have hdrop : xs.drop (xs.take m).length = xs.drop m := by
    rw [List.length_take]
    rcases Nat.le_total m xs.length with hm | hm
    · rw [Nat.min_eq_left hm]
    · rw [Nat.min_eq_right hm, List.drop_length, List.drop_eq_nil_of_le hm]
  have hsplit := @List.take_append _ (xs.take m) (xs.drop m) n
  rwa [List.take_append_drop, List.take_take, Nat.min_eq_right h, ← hdrop] at hsplit

/-- A bucket is read up to its end or the remainder, however few rows a query returns. -/
theorem readBucket_eq (filter : Task β → Bool) (offset remaining : ℕ) (rows : List (Task β)) :
    readBucket d filter (totalOrder orderBy) (d.count filter) offset remaining rows =
      (rows ++ ((bucketRows d orderBy filter).drop offset).take remaining,
        remaining - (((bucketRows d orderBy filter).drop offset).take remaining).length) := by
  have hlength := length_bucketRows d orderBy filter
  have hcap := d.capPos
  fun_induction readBucket d filter (totalOrder orderBy) (d.count filter) offset remaining rows with
  | case1 offset remaining rows hmore page hpage =>
    simp only [page, Delegate.findMany, arrange_eq, List.length_take, List.length_drop] at hpage
    omega
  | case2 offset remaining rows hmore page hpage ih =>
    have hpage' : page = ((bucketRows d orderBy filter).drop offset).take
      (min remaining d.cap) := by
      rw [← arrange_eq d orderBy filter offset remaining]
      rfl
    have hsplit := take_page ((bucketRows d orderBy filter).drop offset)
      (Nat.min_le_left remaining d.cap)
    rw [← hpage', List.drop_drop] at hsplit
    rw [ih, hsplit, List.length_append, List.append_assoc, Nat.sub_sub]
  | case3 offset remaining rows hdone =>
    have hnone : ((bucketRows d orderBy filter).drop offset).take remaining = [] := by
      rcases Nat.eq_zero_or_pos remaining with rfl | hpos
      · exact List.take_zero
      · rw [List.drop_eq_nil_of_le (by omega), List.take_nil]
    rw [hnone]
    simp

/-- The buckets one after the other. -/
def bucketed (filter : Task β → Bool) (bs : List (Task β → Bool)) : List (Task β) :=
  bs.flatMap fun bucket => bucketRows d orderBy fun task => filter task && bucket task

/-- The carried offset and remainder cut one window out of all buckets together. -/
theorem readBuckets_eq (filter : Task β → Bool) (bs : List (Task β → Bool)) (offset remaining : ℕ)
    (rows : List (Task β)) :
    readBuckets d filter (totalOrder orderBy)
        (bs.zip (bs.map fun bucket => d.count fun task => filter task && bucket task))
        offset remaining rows =
      rows ++ ((bucketed d orderBy filter bs).drop offset).take remaining := by
  induction bs generalizing offset remaining rows with
  | nil => simp [bucketed, readBuckets]
  | cons bucket bs ih =>
    have hlength := length_bucketRows d orderBy fun task => filter task && bucket task
    have hcons : bucketed d orderBy filter (bucket :: bs) =
        bucketRows d orderBy (fun task => filter task && bucket task)
          ++ bucketed d orderBy filter bs := rfl
    rw [List.map_cons, List.zip_cons_cons, readBuckets, hcons, List.drop_append, List.take_append,
      hlength]
    split
    next hdone => simp [hdone]
    split
    next hskip =>
      have hnil : (bucketRows d orderBy fun task => filter task && bucket task).drop offset = [] :=
        List.drop_eq_nil_of_le (by omega)
      rw [ih, hnil, List.take_nil, List.nil_append, List.length_nil, Nat.sub_zero]
    next hread =>
      have hstart : offset - d.count (fun task => filter task && bucket task) = 0 := by omega
      rw [readBucket_eq]
      dsimp only
      rw [ih, hstart, List.append_assoc, List.length_take, List.drop_zero, ← Nat.sub_eq_sub_min]

theorem rank_lt (priority : String) : taskPriorityRank priority < 5 :=
  Nat.lt_succ_of_le (List.idxOf_le_length)

/-- The condition of the bucket with a rank. -/
def hasRank (rank : ℕ) (task : Task β) : Bool := taskPriorityRank task.priority = rank

theorem rank_cases (priority : String) :
    (priority = "CRITICAL" ↔ taskPriorityRank priority = 0) ∧
    (priority = "HIGH" ↔ taskPriorityRank priority = 1) ∧
    (priority = "NORMAL" ↔ taskPriorityRank priority = 2) ∧
    (priority = "LOW" ↔ taskPriorityRank priority = 3) ∧
    (priority ∉ taskPriorities ↔ taskPriorityRank priority = 4) := by
  by_cases hknown : priority ∈ taskPriorities
  · revert priority
    decide
  · have hrank : taskPriorityRank priority = 4 := List.idxOf_eq_length hknown
    simp only [taskPriorities, List.mem_cons, List.not_mem_nil, or_false, not_or] at hknown
    simp [hrank, hknown, taskPriorities]

theorem buckets_eq : (buckets : List (Task β → Bool)) = (List.range 5).map hasRank := by
  have hcases := fun task : Task β => rank_cases task.priority
  have hrange : List.range 5 = [0, 1, 2, 3, 4] := rfl
  simp only [buckets, taskPriorities, hrange, List.map_cons, List.map_nil, List.cons_append,
    List.nil_append, List.cons.injEq, and_true]
  refine ⟨?_, ?_, ?_, ?_, ?_⟩ <;> funext task
  · simp only [hasRank, (hcases task).1]
  · simp only [hasRank, (hcases task).2.1]
  · simp only [hasRank, (hcases task).2.2.1]
  · simp only [hasRank, (hcases task).2.2.2.1]
  · simp only [hasRank, ← (hcases task).2.2.2.2, taskPriorities, List.contains_eq_mem, decide_not]

/-- The rows of several ranks, parted into those of the first and those of the others. -/
theorem filter_ranks (filter : Task β → Bool) (rank : ℕ) {ranks : List ℕ}
    (h : ∀ other ∈ ranks, rank < other) (tasks : List (Task β)) :
    (tasks.filter (fun task => filter task && hasRank rank task)
        ++ tasks.filter fun task =>
          filter task && ranks.contains (taskPriorityRank task.priority)).Perm
      (tasks.filter fun task =>
        filter task && (rank :: ranks).contains (taskPriorityRank task.priority)) := by
  have hparts := List.filter_append_perm (hasRank rank) (tasks.filter fun task =>
    filter task && (rank :: ranks).contains (taskPriorityRank task.priority))
  rw [List.filter_filter, List.filter_filter] at hparts
  have hrank : ∀ task : Task β, (hasRank rank task
      && (filter task && (rank :: ranks).contains (taskPriorityRank task.priority)))
      = (filter task && hasRank rank task) := by
    intro task
    by_cases htask : taskPriorityRank task.priority = rank <;> simp [hasRank, htask]
  have hothers : ∀ task : Task β, (!hasRank rank task
      && (filter task && (rank :: ranks).contains (taskPriorityRank task.priority)))
      = (filter task && ranks.contains (taskPriorityRank task.priority)) := by
    intro task
    by_cases htask : taskPriorityRank task.priority = rank
    · have hnot : rank ∉ ranks := fun hmem => Nat.lt_irrefl _ (h rank hmem)
      simp [hasRank, htask, hnot]
    · simp [hasRank, htask]
  simpa only [hrank, hothers] using hparts

/-- The buckets of increasing ranks, one after the other, are sorted. -/
theorem bucketed_arranged (filter : Task β → Bool) {ranks : List ℕ} (h : ranks.Pairwise (· < ·)) :
    Arranged (rankClause :: clauses ids (totalOrder orderBy))
      (d.tasks.filter fun task => filter task && ranks.contains (taskPriorityRank task.priority))
      (bucketed d orderBy filter (ranks.map hasRank)) := by
  induction ranks with
  | nil => exact ⟨by simp [bucketed], .nil⟩
  | cons rank ranks ih =>
    rw [List.pairwise_cons] at h
    have hrank : ∀ task ∈ d.tasks.filter fun task => filter task && hasRank rank task,
        taskPriorityRank task.priority = rank := by
      intro task htask
      have hmem := (List.mem_filter.mp htask).2
      rw [Bool.and_eq_true] at hmem
      exact of_decide_eq_true hmem.2
    have hlater : ∀ task ∈ d.tasks.filter (fun task =>
        filter task && ranks.contains (taskPriorityRank task.priority)),
        rank < taskPriorityRank task.priority := by
      intro task htask
      have hmem := (List.mem_filter.mp htask).2
      rw [Bool.and_eq_true] at hmem
      exact h.1 _ (List.contains_iff_mem.mp hmem.2)
    have hcons := Arranged.append (c := rankClause)
      (bucketRows_arranged d orderBy fun task => filter task && hasRank rank task) (ih h.2)
      (fun a ha b hb => by simp [rankClause, hrank a ha, hrank b hb])
      (fun a ha b hb => by
        have hab := hlater b hb
        simp only [rankClause, hrank a ha, decide_eq_true_eq, decide_eq_false_iff_not]
        omega)
    exact ⟨hcons.perm.trans (filter_ranks filter rank h.1 d.tasks), hcons.sorted⟩

theorem bucketed_fullOrder (filter : Task β → Bool) :
    Arranged (fullOrder ids orderBy) (d.tasks.filter filter)
      (bucketed d orderBy filter buckets) := by
  have harranged := @bucketed_arranged _ _ d orderBy filter (List.range 5) List.pairwise_lt_range
  have hall : (fun task : Task β => filter task
      && (List.range 5).contains (taskPriorityRank task.priority)) = filter := by
    funext task
    simp [rank_lt task.priority]
  rw [hall, ← buckets_eq] at harranged
  refine ⟨harranged.perm, harranged.sorted.imp fun {a b} hab => ?_⟩
  simpa only [fullOrder, le, totalOrder_le] using hab

theorem fullOrder_tie {a b : Task β} (hab : le (fullOrder ids orderBy) a b = true)
    (hba : le (fullOrder ids orderBy) b a = true) : a.id = b.id := by
  have hmem : idClause ids false ∈ fullOrder ids orderBy := by
    simp [fullOrder, clauses, OrderBy.clause]
  obtain ⟨hab, hba⟩ := le_tie hmem hab hba
  exact idClause_tie hab hba

end

/-- Every window of the function is the same window of one sorted list of all tasks. -/
theorem findTasksInPriorityOrder_slice (filter : Task β → Bool) (orderBy : List (OrderBy β)) :
    ∃ all, Arranged (fullOrder ids orderBy) (d.tasks.filter filter) all ∧
      (∀ other, Arranged (fullOrder ids orderBy) (d.tasks.filter filter) other → other = all) ∧
      (∀ skip take,
        findTasksInPriorityOrder d filter orderBy skip take = (all.drop skip).take take) ∧
      ∀ size pages, ((List.range pages).flatMap fun page =>
        findTasksInPriorityOrder d filter orderBy (page * size) size) = all.take
          (pages * size) := by
  have harranged := bucketed_fullOrder d orderBy filter
  have hslice : ∀ skip take, findTasksInPriorityOrder d filter orderBy skip take =
      ((bucketed d orderBy filter buckets).drop skip).take take := fun skip take => by
    rw [findTasksInPriorityOrder, readBuckets_eq, List.nil_append]
  refine ⟨_, harranged, fun other hother => ?_, hslice, fun size pages => ?_⟩
  · exact hother.unique harranged fun _ ha _ hb hab hba =>
      same_id d (List.mem_filter.mp ha).1 (List.mem_filter.mp hb).1 (fullOrder_tie orderBy hab hba)
  · induction pages with
    | zero => simp
    | succ pages ih =>
      rw [List.range_succ, List.flatMap_append, ih, List.flatMap_singleton, hslice,
        Nat.succ_mul, List.take_add]

end Database

/-! ### Three priorities and an unknown one, two rows a query -/

def dueClause : Clause (Task ℕ) where
  le a b := a.details ≤ b.details
  total a b := by simpa using Nat.le_total _ _
  trans hab hbc := by
    simp only [decide_eq_true_eq] at *
    exact Nat.le_trans hab hbc

/-- Two of the tasks are due at once. -/
def sampleTasks : List (Task ℕ) :=
  [⟨"e", "SOON", 0⟩, ⟨"d", "NORMAL", 1⟩, ⟨"c", "NORMAL", 1⟩, ⟨"b", "NORMAL", 0⟩,
    ⟨"a", "CRITICAL", 2⟩]

def sampleDelegate : Delegate (.ofOrder String) ℕ where
  tasks := sampleTasks
  distinct := by decide
  cap := 2
  capPos := Nat.zero_lt_two
  arrange filter orderBy _ _ := (sampleTasks.filter filter).mergeSort (le (clauses _ orderBy))
  arranged _ _ _ _ := arranged_mergeSort _ _

theorem findTasksInPriorityOrder_slice_sample :
    (findTasksInPriorityOrder sampleDelegate (fun _ => true) [.other dueClause] 1 4).map (·.id) =
      ["b", "c", "d", "e"] := by
  obtain ⟨all, -, honly, hslice, -⟩ :=
    findTasksInPriorityOrder_slice sampleDelegate (fun _ => true) [.other dueClause]
  have hall := honly sampleTasks.reverse ⟨List.reverse_perm _, by decide⟩
  rw [hslice, ← hall]
  rfl

end Ashbi.Tasks
