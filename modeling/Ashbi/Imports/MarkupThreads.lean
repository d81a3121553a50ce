import Ashbi.Imports.Markup

/-! Which threads the comments of a session come to. -/

namespace Ashbi.Imports.Markup

open Annotations Hierarchy

variable {session : Session} {comment cursor top : Comment} {seen : List SourceId} {id : SourceId}

/-! ### Chains -/

/-- The parent of a comment inside the CSV. -/
def Session.parent (session : Session) (id : SourceId) : Option SourceId :=
  (session.byId id).bind fun comment =>
    comment.parentCommentId.filter fun parentId => (session.byId parentId).isSome

theorem byId_of_mem (h : comment ∈ session.comments) :
    session.byId comment.commentId = some comment :=
  Keyed.find_of_mem session.distinct h

theorem parent_of_mem (h : comment ∈ session.comments) : session.parent comment.commentId =
    comment.parentCommentId.filter fun parentId => (session.byId parentId).isSome := by
  rw [Session.parent, byId_of_mem h, Option.bind_some]

/-- A comment without a parent inside the CSV. -/
theorem parent_none (h : comment ∈ session.comments)
    (hparent : ∀ parentId, comment.parentCommentId = some parentId → session.byId parentId = none) :
    session.parent comment.commentId = none := by
  rw [parent_of_mem h]
  cases hid : comment.parentCommentId with
  | none => rfl
  | some parentId => simp [hparent parentId hid]

theorem parent_some {parent : Comment} (h : comment ∈ session.comments)
    (hid : comment.parentCommentId = some id) (hfound : session.byId id = some parent) :
    session.parent comment.commentId = some parent.commentId := by
  have hkey : parent.commentId = id := Keyed.find_key hfound
  rw [parent_of_mem h, hid, hkey]
  simp [hfound]

theorem topOfChain_end
    (hparent : ∀ parentId, cursor.parentCommentId = some parentId → session.byId parentId = none) :
    topOfChain session seen cursor = some cursor := by
  rw [topOfChain]
  split
  · rfl
  · next parentId hid =>
    split
    · rfl
    · next parent hfound =>
      rw [hparent parentId hid] at hfound
      cases hfound

theorem topOfChain_up {parent : Comment} (hid : cursor.parentCommentId = some id)
    (hfound : session.byId id = some parent) : topOfChain session seen cursor =
      if id ∈ seen then none else topOfChain session (id :: seen) parent := by
  rw [topOfChain]
  split
  · next hnone =>
    rw [hid] at hnone
    cases hnone
  · next parentId hsome =>
    obtain rfl := Option.some.inj (hid.symm.trans hsome)
    split
    · next hmissing =>
      rw [hfound] at hmissing
      cases hmissing
    · next other hother =>
      obtain rfl := Option.some.inj (hfound.symm.trans hother)
      rfl

/-- A chain either ends at its top or comes back to a comment that it has met. What it has met is
below the cursor. -/
theorem topOfChain_spec (h : cursor ∈ session.comments)
    (hseen : ∀ id ∈ seen, ∃ n, climb session.parent n id = some cursor.commentId) :
    match topOfChain session seen cursor with
    | some top => top ∈ session.comments ∧ Ends session.parent cursor.commentId top.commentId
    | none => Loops session.parent cursor.commentId := by
  induction seen, cursor using topOfChain.induct session with
  | case1 seen cursor hnone =>
    have hparent : ∀ id, cursor.parentCommentId = some id → session.byId id = none := by
      simp [hnone]
    rw [topOfChain_end hparent]
    exact ⟨h, .self (parent_none h hparent)⟩
  | case2 seen cursor parentId hid hmissing =>
    have hparent : ∀ id, cursor.parentCommentId = some id → session.byId id = none := by
      intro id hsome
      obtain rfl := Option.some.inj (hid.symm.trans hsome)
      exact hmissing
    rw [topOfChain_end hparent]
    exact ⟨h, .self (parent_none h hparent)⟩
  | case3 seen cursor parentId hid parent hfound hmet =>
    rw [topOfChain_up hid hfound, if_pos hmet]
    have hkey : parent.commentId = parentId := Keyed.find_key hfound
    have hup := parent_some h hid hfound
    obtain ⟨n, hclimb⟩ := hseen parentId hmet
    refine .child hup ⟨0, _, rfl, n, ?_⟩
    rw [hkey, climb_parent hclimb, hup, hkey]
  | case4 seen cursor parentId hid parent hfound hmet ih =>
    rw [topOfChain_up hid hfound, if_neg hmet]
    have hkey : parent.commentId = parentId := Keyed.find_key hfound
    have hup := parent_some h hid hfound
    have hspec := ih (Keyed.find_mem hfound) (by
      intro other hother
      rcases List.mem_cons.mp hother with rfl | hother
      · exact ⟨0, congrArg some hkey.symm⟩
      · obtain ⟨n, hclimb⟩ := hseen other hother
        exact ⟨n + 1, (climb_parent hclimb).trans hup⟩)
    cases htop : topOfChain session (parentId :: seen) parent with
    | none =>
      rw [htop] at hspec
      exact hspec.child hup
    | some top =>
      rw [htop] at hspec
      exact ⟨hspec.1, hspec.2.child hup⟩

theorem chain_spec (h : comment ∈ session.comments) :
    match topOfChain session [comment.commentId] comment with
    | some top => top ∈ session.comments ∧ Ends session.parent comment.commentId top.commentId
    | none => Loops session.parent comment.commentId := by
  refine topOfChain_spec h ?_
  intro id hid
  obtain rfl := List.mem_singleton.mp hid
  exact ⟨0, rfl⟩

/-- What is set on a comment whose chain has a top. -/
theorem resolve_of_ends (h : comment ∈ session.comments) (htop : top ∈ session.comments)
    (hends : Ends session.parent comment.commentId top.commentId) :
    resolveComment session comment = ⟨comment,
      if comment.parentCommentId.isSome ∧ top.parentCommentId = none then some top.commentId
      else none,
      if comment.parentCommentId.isSome then top.parentCommentId else none,
      if comment.parentCommentId.isSome then some top.commentId else none, false⟩ := by
  cases hid : comment.parentCommentId with
  | none => simp [resolveComment, hid]
  | some parentId =>
    have hspec := chain_spec h
    cases hchain : topOfChain session [comment.commentId] comment with
    | none =>
      rw [hchain] at hspec
      exact absurd hspec hends.not_loops
    | some found =>
      rw [hchain] at hspec
      obtain rfl := List.inj_on_of_nodup_map session.distinct hspec.1 htop (hspec.2.unique hends)
      cases hparent : found.parentCommentId with
      | none => simp [resolveComment, hid, hchain, hparent]
      | some missing => simp [resolveComment, hid, hchain, hparent]

theorem resolve_of_loops (h : comment ∈ session.comments)
    (hloops : Loops session.parent comment.commentId) :
    resolveComment session comment = ⟨comment, none, none, none, true⟩ := by
  cases hid : comment.parentCommentId with
  | none =>
    have hends := Ends.self (parent_none h (by simp [hid]))
    exact absurd hloops hends.not_loops
  | some parentId =>
    have hspec := chain_spec h
    cases hchain : topOfChain session [comment.commentId] comment with
    | none => simp [resolveComment, hid, hchain]
    | some found =>
      rw [hchain] at hspec
      exact absurd hloops hspec.2.not_loops

theorem ends_or_loops (h : comment ∈ session.comments) :
    (∃ top ∈ session.comments, Ends session.parent comment.commentId top.commentId) ∨
      Loops session.parent comment.commentId := by
  have hspec := chain_spec h
  cases hchain : topOfChain session [comment.commentId] comment with
  | none =>
    rw [hchain] at hspec
    exact .inr hspec
  | some top =>
    rw [hchain] at hspec
    exact .inl ⟨top, hspec⟩

theorem resolve_comment (session : Session) (comment : Comment) :
    (resolveComment session comment).toComment = comment := by
  unfold resolveComment
  split
  · rfl
  · split
    · rfl
    · rfl

theorem cycle_iff (h : comment ∈ session.comments) :
    (resolveComment session comment).cycle = true ↔ Loops session.parent comment.commentId := by
  rcases ends_or_loops h with ⟨top, htop, hends⟩ | hloops
  · rw [resolve_of_ends h htop hends]
    simp [hends.not_loops]
  · rw [resolve_of_loops h hloops]
    simp [hloops]

/-- The findings are on some of the comments, in their order: those that are on a cycle or whose
chain comes to one. -/
def Reported (session : Session) (findings : List Finding) : Prop :=
  ∃ reported : List Comment, reported.Sublist session.comments ∧
    findings = reported.map loopFinding ∧
    ∀ comment ∈ session.comments, comment ∈ reported ↔ Loops session.parent comment.commentId

theorem reported_resolve (session : Session) :
    Reported session (resolveMarkupThreads session).1 := by
  refine ⟨session.comments.filter fun comment => (resolveComment session comment).cycle,
    List.filter_sublist, ?_, ?_⟩
  · rw [resolveMarkupThreads, List.filter_map, List.map_map]
    exact List.map_congr_left fun comment _ => congrArg loopFinding
      (resolve_comment session comment)
  · intro comment h
    rw [List.mem_filter, cycle_iff h]
    exact and_iff_right h

/-! ### The loop on a first import -/

variable {ctx : Context} {plan : Plan} {resolved : Resolved} {parentId staffId : Option String}

/-- A live run that finds no record of the session. -/
structure FirstImport (ctx : Context) : Prop where
  live : ctx.apply = true
  acceptsNew : ctx.acceptsNew = true
  unrecorded : ∀ id, ctx.ledger.record id = none

/-- What the loop reads of its plan and writes of annotations. -/
def Plan.core (plan : Plan) :
    ℕ × (SourceId → Option String) × List AnnotationRow × List RecordRow :=
  (plan.uuids, plan.annotationIdByComment, plan.annotationRows, plan.recordRows)

@[simp] theorem core_warnIf (condition : Bool) (finding : Finding) :
    (plan.warnIf condition finding).core = plan.core := by
  cases condition
  · rfl
  · rfl

@[simp] theorem core_warnPlace : (warnPlace plan comment parentId).core = plan.core := by
  unfold warnPlace
  cases comment.pinProblem with
  | none => simp
  | some problem => simp

@[simp] theorem core_noteAuthor : (noteAuthor plan comment staffId).core = plan.core := by
  unfold noteAuthor
  split
  · rfl
  · dsimp only
    split
    · rfl
    · rfl

theorem core_blocking (findings : List Finding) :
    (findings.foldl Plan.blocking plan).core = plan.core := by
  induction findings generalizing plan with
  | nil => rfl
  | cons finding findings ih => exact ih

theorem pin_valid (pin : Pin) : regionError "pin" (pinRegion pin) = none := by
  have hx := pin.acrossUnit
  have hy := pin.downUnit
  simp [regionError, pinRegion, isUnit, Value.number?, Value.amount, hx.1, hx.2, hy.1, hy.2]

/-- Every comment of a session has a place that the check accepts. -/
theorem position_valid (h : comment ∈ session.comments) (parentId : Option String) :
    annotationPositionError session.kind (positionOf comment parentId) = none := by
  by_cases hreply : parentId.isSome ∨ comment.parentCommentId.isSome
  · simp [positionOf, hreply, annotationPositionError, anchorError, Input.marked, Value.isNull]
  · have hplaced := session.placed comment h
    simp only [misplaced, passed] at hplaced
    obtain ⟨himage, hpdf, -⟩ := hplaced
    obtain ⟨rfl, htop⟩ : parentId = none ∧ comment.parentCommentId = none := by
      simpa using hreply
    cases hpin : comment.pin with
    | none =>
      rcases session.reviewable with hkind | hkind
      · have hpage : comment.page = none := by simpa [hkind] using himage
        simp [positionOf, htop, hpin, hpage, annotationPositionError, anchorError, Input.marked,
          Value.isNull]
      · simp [positionOf, htop, hpin, hkind, annotationPositionError, anchorError, Input.marked,
          Value.isNull]
    | some pin =>
      have hshape : annotationPositionError session.kind (positionOf comment none) =
          regionError "pin" (pinRegion pin) := by
        rcases session.reviewable with hkind | hkind
        · have hpage : comment.page = none := by simpa [hkind] using himage
          simp [positionOf, htop, hpin, hpage, hkind, annotationPositionError, anchorError,
            Input.marked, Value.isNull, annotationShapes, markupError, shapeOf]
        · have hpage : comment.page ≠ none := by simpa [hkind, htop, hpin] using hpdf
          simp [positionOf, htop, hpin, hpage, hkind, annotationPositionError, anchorError,
            Input.marked, Value.isNull, annotationShapes, markupError, shapeOf]
      rw [hshape, pin_valid]

theorem core_addComment (live : ctx.apply = true) :
    (addComment ctx session plan comment staffId parentId).core =
      (plan.uuids + 2,
        (plan.setThread comment.commentId
          (parentId.getD (ctx.randomUUID.id plan.uuids))).annotationIdByComment,
        plan.annotationRows ++
          [annotationRow ctx comment staffId (ctx.randomUUID.id plan.uuids) parentId],
        plan.recordRows ++ [recordRow ctx session comment (ctx.randomUUID.id (plan.uuids + 1))
          (ctx.randomUUID.id plan.uuids)]) := by
  simp [addComment, live, Plan.core, Plan.setThread]

/-- On a first import every comment becomes an annotation under the next id. -/
theorem planComment_first (first : FirstImport ctx) (hcycle : resolved.cycle = false)
    (hmem : resolved.toComment ∈ session.comments) :
    (planComment ctx session plan resolved).core =
      (plan.uuids + 2,
        (plan.setThread resolved.commentId ((threadOf ctx plan resolved).getD
          (ctx.randomUUID.id plan.uuids))).annotationIdByComment,
        plan.annotationRows ++ [annotationRow ctx resolved.toComment
          (resolved.authorEmail.bind ctx.staffByEmail) (ctx.randomUUID.id plan.uuids)
          (threadOf ctx plan resolved)],
        plan.recordRows ++ [recordRow ctx session resolved.toComment
          (ctx.randomUUID.id (plan.uuids + 1)) (ctx.randomUUID.id plan.uuids)]) := by
  have hcore : (noteAuthor (warnPlace plan resolved.toComment (threadOf ctx plan resolved))
      resolved.toComment (resolved.authorEmail.bind ctx.staffByEmail)).core = plan.core := by
    simp
  simp only [Plan.core, Prod.mk.injEq] at hcore
  obtain ⟨huuids, hthreads, hrows, hrecords⟩ := hcore
  simp only [planComment, hcycle, first.unrecorded, first.acceptsNew, if_true, Bool.false_eq_true,
    if_false, planNew, position_valid hmem]
  rw [core_addComment first.live, huuids, hrows, hrecords, Plan.setThread, hthreads]
  rfl

/-! ### The plan of a first import -/

variable {n₀ : ℕ} {order done rest : List Resolved}

/-- What the loop relies on in the comments that it is given. -/
structure Threaded (session : Session) (order : List Resolved) : Prop where
  distinct : (order.map (·.commentId)).Nodup
  acyclic : ∀ c ∈ order, c.cycle = false
  member : ∀ c ∈ order, c.toComment ∈ session.comments
  reply : ∀ c ∈ order, c.parentCommentId = none → c.rootCommentId = none
  rootFirst : ∀ {before c after root}, order = before ++ c :: after → c.rootCommentId = some root →
    ∃ r ∈ before, r.commentId = root ∧ r.rootCommentId = none

/-- The id of the annotation of a comment: each comment takes one, and one for its record. -/
def annotationId (ctx : Context) (n₀ : ℕ) (order : List Resolved) (comment : SourceId) : String :=
  ctx.randomUUID.id (n₀ + 2 * (order.map (·.commentId)).idxOf comment)

/-- The annotation of a comment on a first import. -/
def plannedRow (ctx : Context) (n₀ : ℕ) (order : List Resolved) (c : Resolved) : AnnotationRow :=
  annotationRow ctx c.toComment (c.authorEmail.bind ctx.staffByEmail)
    (annotationId ctx n₀ order c.commentId) (c.rootCommentId.map (annotationId ctx n₀ order))

/-- The plan when some comments of the order are done. -/
structure Planned (ctx : Context) (n₀ : ℕ) (order done : List Resolved) (plan : Plan) : Prop where
  uuids : plan.uuids = n₀ + 2 * done.length
  threads : ∀ c ∈ done, plan.annotationIdByComment c.commentId =
    some (annotationId ctx n₀ order (c.rootCommentId.getD c.commentId))
  annotations : plan.annotationRows = done.map (plannedRow ctx n₀ order)
  records : plan.recordRows.map (fun record => (record.commentId, record.annotationId)) =
    done.map fun c => (c.commentId, annotationId ctx n₀ order c.commentId)

theorem Threaded.next_new (threaded : Threaded session order) {c : Resolved}
    (h : order = done ++ c :: rest) : c.commentId ∉ done.map (·.commentId) := by
  have hnodup := threaded.distinct
  rw [h, List.map_append, List.map_cons] at hnodup
  intro hmem
  exact (List.nodup_append.mp hnodup).2.2 _ hmem _ List.mem_cons_self rfl

theorem annotationId_next (threaded : Threaded session order) {c : Resolved}
    (h : order = done ++ c :: rest) :
    annotationId ctx n₀ order c.commentId = ctx.randomUUID.id (n₀ + 2 * done.length) := by
  have hnew := threaded.next_new h
  rw [annotationId, h, List.map_append, List.map_cons, List.idxOf_append_of_notMem hnew,
    List.idxOf_cons_self, List.length_map, Nat.add_zero]

theorem annotationId_inj {a b : SourceId} (ha : a ∈ order.map (·.commentId))
    (h : annotationId ctx n₀ order a = annotationId ctx n₀ order b) : a = b := by
  have hindex := ctx.randomUUID.injective h
  exact (List.idxOf_inj ha).mp (by omega)

/-- The thread of the next comment is that of its root, which is done. -/
theorem threadOf_next (first : FirstImport ctx) (threaded : Threaded session order) {c : Resolved}
    (h : order = done ++ c :: rest) (planned : Planned ctx n₀ order done plan) :
    threadOf ctx plan c = c.rootCommentId.map (annotationId ctx n₀ order) := by
  have hmem : c ∈ order := by
    rw [h]
    exact List.mem_append_right _ List.mem_cons_self
  cases hparent : c.parentCommentId with
  | none =>
    rw [threaded.reply c hmem hparent]
    simp [threadOf, hparent]
  | some parentId =>
    cases hroot : c.rootCommentId with
    | none =>
      cases hexternal : c.externalParentId with
      | none => simp [threadOf, hparent, hroot, hexternal]
      | some external => simp [threadOf, hparent, hroot, hexternal, first.unrecorded]
    | some root =>
      obtain ⟨r, hr, rfl, hnone⟩ := threaded.rootFirst h hroot
      have hthread := planned.threads r hr
      rw [hnone, Option.getD_none] at hthread
      simp [threadOf, hparent, hroot, hthread]

theorem Planned.step (first : FirstImport ctx) (threaded : Threaded session order) {c : Resolved}
    (h : order = done ++ c :: rest) (planned : Planned ctx n₀ order done plan) :
    Planned ctx n₀ order (done ++ [c]) (planComment ctx session plan c) := by
  have hmem : c ∈ order := by
    rw [h]
    exact List.mem_append_right _ List.mem_cons_self
  have hcore := @planComment_first _ _ plan _ first (threaded.acyclic c hmem)
    (threaded.member c hmem)
  have hid : ctx.randomUUID.id plan.uuids = annotationId ctx n₀ order c.commentId := by
    rw [planned.uuids, annotationId_next threaded h]
  rw [threadOf_next first threaded h planned, hid] at hcore
  simp only [Plan.core, Prod.mk.injEq] at hcore
  obtain ⟨huuids, hthreads, hrows, hrecords⟩ := hcore
  refine ⟨?_, ?_, ?_, ?_⟩
  · rw [huuids, planned.uuids, List.length_append, List.length_singleton]
    omega
  · intro d hd
    rw [hthreads, Plan.setThread]
    rcases List.mem_append.mp hd with hd | hd
    · have hne : d.commentId ≠ c.commentId := by
        intro heq
        exact threaded.next_new h (List.mem_map.mpr ⟨d, hd, heq⟩)
      rw [← planned.threads d hd]
      exact if_neg hne
    · obtain rfl := List.mem_singleton.mp hd
      cases hroot : d.rootCommentId with
      | none => simp
      | some root => simp
  · rw [hrows, planned.annotations, List.map_append, List.map_singleton, plannedRow]
  · rw [hrecords, List.map_append, planned.records, List.map_append]
    rfl

theorem planned_foldl (first : FirstImport ctx) (threaded : Threaded session order)
    (h : order = done ++ rest) (planned : Planned ctx n₀ order done plan) :
    Planned ctx n₀ order order (rest.foldl (planComment ctx session) plan) := by
  induction rest generalizing done plan with
  | nil =>
    rw [List.append_nil] at h
    rw [h] at planned ⊢
    exact planned
  | cons c rest ih =>
    rw [List.foldl_cons]
    refine ih ?_ (planned.step first threaded h)
    rw [h, List.append_assoc, List.singleton_append]

/-! ### Sessions without cycles -/

/-- No comment is on a cycle, or has a chain that comes to one. -/
def Acyclic (session : Session) : Prop :=
  ∀ comment ∈ session.comments, ¬ Loops session.parent comment.commentId

/-- No comment that replies to one of the CSV is below one whose own parent is missing. -/
def Rooted (session : Session) : Prop :=
  ∀ comment ∈ session.comments, ∀ top ∈ session.comments, session.parent comment.commentId ≠ none →
    Ends session.parent comment.commentId top.commentId → top.parentCommentId = none

theorem Acyclic.ends (acyclic : Acyclic session) (h : comment ∈ session.comments) :
    ∃ top ∈ session.comments, Ends session.parent comment.commentId top.commentId :=
  (ends_or_loops h).resolve_right (acyclic comment h)

theorem mem_order {c : Resolved} : c ∈ (resolveMarkupThreads session).2 ↔
    ∃ comment ∈ session.comments, resolveComment session comment = c := by
  rw [resolveMarkupThreads, List.mem_mergeSort, List.mem_map]

/-- A comment without a parent comes before every reply. -/
theorem depth_le {before after : List Resolved} {c d : Resolved}
    (h : (resolveMarkupThreads session).2 = before ++ c :: after) (hd : d ∈ after) :
    depth c.toComment ≤ depth d.toComment := by
  have hsorted := (Sql.arranged_mergeSort commentOrder
    (session.comments.map (resolveComment session))).sorted
  have hsplit : (session.comments.map (resolveComment session)).mergeSort (Sql.le commentOrder) =
      before ++ c :: after := h
  rw [hsplit] at hsorted
  have hpair := List.rel_of_pairwise_cons (List.pairwise_append.mp hsorted).2.1 hd
  have hfirst := (Sql.le_cons.mp hpair).1
  simpa [byNumber] using hfirst

theorem root_of_ends {root : SourceId} (h : comment ∈ session.comments)
    (htop : top ∈ session.comments)
    (hends : Ends session.parent comment.commentId top.commentId)
    (hroot : (resolveComment session comment).rootCommentId = some root) :
    comment.parentCommentId.isSome ∧ top.parentCommentId = none ∧ top.commentId = root := by
  rw [resolve_of_ends h htop hends] at hroot
  dsimp only at hroot
  split at hroot
  · next hboth => exact ⟨hboth.1, hboth.2, Option.some.inj hroot⟩
  · cases hroot

theorem Acyclic.threaded (acyclic : Acyclic session) :
    Threaded session (resolveMarkupThreads session).2 := by
  refine ⟨?_, ?_, ?_, ?_, ?_⟩
  · have hperm := (List.mergeSort_perm (session.comments.map (resolveComment session))
      (Sql.le commentOrder)).map (·.commentId)
    have hids : (session.comments.map (resolveComment session)).map (·.commentId) =
        session.comments.map (·.commentId) := by
      rw [List.map_map]
      exact List.map_congr_left fun comment _ =>
        congrArg Comment.commentId (resolve_comment session comment)
    rw [hids] at hperm
    exact hperm.nodup_iff.mpr session.distinct
  · intro c hc
    obtain ⟨comment, hmem, rfl⟩ := mem_order.mp hc
    obtain ⟨top, htop, hends⟩ := acyclic.ends hmem
    rw [resolve_of_ends hmem htop hends]
  · intro c hc
    obtain ⟨comment, hmem, rfl⟩ := mem_order.mp hc
    rw [resolve_comment]
    exact hmem
  · intro c hc hnone
    obtain ⟨comment, hmem, rfl⟩ := mem_order.mp hc
    rw [resolve_comment] at hnone
    obtain ⟨top, htop, hends⟩ := acyclic.ends hmem
    simp [resolve_of_ends hmem htop hends, hnone]
  · intro before c after root h hroot
    have hc : c ∈ (resolveMarkupThreads session).2 := by
      rw [h]
      exact List.mem_append_right _ List.mem_cons_self
    obtain ⟨comment, hmem, rfl⟩ := mem_order.mp hc
    obtain ⟨top, htop, hends⟩ := acyclic.ends hmem
    obtain ⟨hreply, hnone, rfl⟩ := root_of_ends hmem htop hends hroot
    have hdepth : depth top < depth comment := by simp [depth, hreply, hnone]
    have hrow : resolveComment session top ∈ before ++ resolveComment session comment :: after := by
      rw [← h]
      exact mem_order.mpr ⟨top, htop, rfl⟩
    refine ⟨resolveComment session top, ?_, ?_, ?_⟩
    · rcases List.mem_append.mp hrow with hbefore | hrest
      · exact hbefore
      · rcases List.mem_cons.mp hrest with heq | hafter
        · have htops := congrArg Resolved.toComment heq
          rw [resolve_comment, resolve_comment] at htops
          rw [htops] at hdepth
          exact absurd hdepth (Nat.lt_irrefl _)
        · have hle := depth_le h hafter
          rw [resolve_comment, resolve_comment] at hle
          exact absurd hdepth (Nat.not_lt_of_le hle)
    · exact congrArg Comment.commentId (resolve_comment session top)
    · simp [resolveComment, hnone]

/-! ### Hub threads -/

variable {errors warnings : List Finding} {mappedAuthors : List String}
  {unmappedAuthors : List (Option String × String)} {thread : String} {other : Comment}

theorem planned_session (first : FirstImport ctx) (acyclic : Acyclic session) :
    Planned ctx n₀ (resolveMarkupThreads session).2 (resolveMarkupThreads session).2
      (planSession ctx session (Plan.start n₀ errors warnings mappedAuthors unmappedAuthors)) := by
  refine @planned_foldl _ _ _ _ _ [] _ first acyclic.threaded rfl ?_
  have hcore := @core_blocking (Plan.start n₀ errors warnings mappedAuthors unmappedAuthors)
    (resolveMarkupThreads session).1
  simp only [Plan.core, Prod.mk.injEq] at hcore
  obtain ⟨huuids, -, hrows, hrecords⟩ := hcore
  refine ⟨huuids, ?_, hrows, ?_⟩
  · intro c hc
    cases hc
  · exact congrArg (List.map fun record => (record.commentId, record.annotationId)) hrecords

/-- The Hub thread of an annotation. -/
def AnnotationRow.hubThread (row : AnnotationRow) : String := row.parentId.getD row.id

/-- A comment that has an annotation in a thread, by its record. -/
def InThread (plan : Plan) (comment : Comment) (thread : String) : Prop :=
  ∃ record ∈ plan.recordRows, record.commentId = comment.commentId ∧
    ∃ row ∈ plan.annotationRows, row.id = record.annotationId ∧ row.hubThread = thread

theorem plannedRow_hubThread (c : Resolved) : (plannedRow ctx n₀ order c).hubThread =
    annotationId ctx n₀ order (c.rootCommentId.getD c.commentId) := by
  cases hroot : c.rootCommentId with
  | none => simp [plannedRow, annotationRow, AnnotationRow.hubThread, hroot]
  | some root => simp [plannedRow, annotationRow, AnnotationRow.hubThread, hroot]

theorem inThread_iff (threaded : Threaded session order) (planned : Planned ctx n₀ order order plan)
    {c : Resolved} (hc : c ∈ order) : InThread plan c.toComment thread ↔
      thread = annotationId ctx n₀ order (c.rootCommentId.getD c.commentId) := by
  have hids : ∀ d ∈ order, d.commentId ∈ order.map (·.commentId) :=
    fun d hd => List.mem_map.mpr ⟨d, hd, rfl⟩
  constructor
  · rintro ⟨record, hrecord, hcomment, row, hrow, hid, rfl⟩
    have hpair := List.mem_map_of_mem
      (f := fun r : RecordRow => (r.commentId, r.annotationId)) hrecord
    rw [planned.records] at hpair
    obtain ⟨d, hd, heq⟩ := List.mem_map.mp hpair
    simp only [Prod.mk.injEq] at heq
    rw [planned.annotations] at hrow
    obtain ⟨e, he, rfl⟩ := List.mem_map.mp hrow
    have hsame : e.commentId = d.commentId := annotationId_inj (hids e he) (hid.trans heq.2.symm)
    obtain rfl := List.inj_on_of_nodup_map threaded.distinct he hc
      (hsame.trans (heq.1.trans hcomment))
    exact plannedRow_hubThread e
  · rintro rfl
    have hpair : (c.commentId, annotationId ctx n₀ order c.commentId) ∈
        plan.recordRows.map fun record => (record.commentId, record.annotationId) := by
      rw [planned.records]
      exact List.mem_map.mpr ⟨c, hc, rfl⟩
    obtain ⟨record, hrecord, heq⟩ := List.mem_map.mp hpair
    simp only [Prod.mk.injEq] at heq
    refine ⟨record, hrecord, heq.1, plannedRow ctx n₀ order c, ?_, heq.2.symm,
      plannedRow_hubThread c⟩
    rw [planned.annotations]
    exact List.mem_map.mpr ⟨c, hc, rfl⟩

/-- The comment whose annotation a thread has its id from. -/
def threadKey (session : Session) (comment : Comment) : SourceId :=
  (resolveComment session comment).rootCommentId.getD comment.commentId

theorem threadKey_of_ends (h : comment ∈ session.comments) (htop : top ∈ session.comments)
    (hends : Ends session.parent comment.commentId top.commentId) : threadKey session comment =
      if comment.parentCommentId.isSome ∧ top.parentCommentId = none then top.commentId
      else comment.commentId := by
  rw [threadKey, resolve_of_ends h htop hends]
  dsimp only
  split
  · rfl
  · rfl

theorem threadKey_mem (acyclic : Acyclic session) (h : comment ∈ session.comments) :
    ∃ c ∈ session.comments, threadKey session comment = c.commentId := by
  obtain ⟨top, htop, hends⟩ := acyclic.ends h
  rw [threadKey_of_ends h htop hends]
  split
  · exact ⟨top, htop, rfl⟩
  · exact ⟨comment, h, rfl⟩

/-- Two comments come to one thread exactly where their keys agree. -/
theorem sameThread_iff (acyclic : Acyclic session)
    (planned : Planned ctx n₀ (resolveMarkupThreads session).2
      (resolveMarkupThreads session).2 plan)
    (h : comment ∈ session.comments) (hother : other ∈ session.comments) :
    (∃ thread, InThread plan comment thread ∧ InThread plan other thread) ↔
      threadKey session comment = threadKey session other := by
  have hthread : ∀ c ∈ session.comments, ∀ thread, InThread plan c thread ↔
      thread = annotationId ctx n₀ (resolveMarkupThreads session).2 (threadKey session c) := by
    intro c hc thread
    have hiff := @inThread_iff _ _ _ _ _ thread acyclic.threaded planned _
      (mem_order.mpr ⟨c, hc, rfl⟩)
    rwa [resolve_comment] at hiff
  constructor
  · rintro ⟨thread, hcomment, hthere⟩
    rw [hthread comment h] at hcomment
    rw [hthread other hother] at hthere
    obtain ⟨c, hc, hkey⟩ := threadKey_mem acyclic h
    refine annotationId_inj ?_ (hcomment.symm.trans hthere)
    rw [hkey]
    exact List.mem_map.mpr ⟨resolveComment session c, mem_order.mpr ⟨c, hc, rfl⟩,
      congrArg Comment.commentId (resolve_comment session c)⟩
  · intro hkey
    exact ⟨_, (hthread comment h _).mpr rfl, (hthread other hother _).mpr (by rw [hkey])⟩

/-- What an import keeps of the chains of a session. -/
structure ChainsKept (session : Session) (plan : Plan) : Prop where
  reported : Reported session (resolveMarkupThreads session).1
  parents : Acyclic session → ∀ before row after parentId,
    plan.annotationRows = before ++ row :: after → row.parentId = some parentId →
      ∃ root ∈ before, root.id = parentId ∧ root.parentId = none ∧ root.sessionId = row.sessionId
  threads : Acyclic session → ∀ a ∈ session.comments, ∀ b ∈ session.comments,
    (∃ thread, InThread plan a thread ∧ InThread plan b thread) ↔
      ∃ top, Ends session.parent a.commentId top ∧ Ends session.parent b.commentId top

/-- The root of a reply is planned before it. -/
theorem root_before (threaded : Threaded session order)
    (planned : Planned ctx n₀ order order plan) {before after : List AnnotationRow}
    {row : AnnotationRow} {parentId : String} (hrows : plan.annotationRows = before ++ row :: after)
    (hparent : row.parentId = some parentId) :
    ∃ root ∈ before, root.id = parentId ∧ root.parentId = none ∧
      root.sessionId = row.sessionId := by
  rw [planned.annotations] at hrows
  obtain ⟨first, rest, hsplit, rfl, hrest⟩ := List.map_eq_append_iff.mp hrows
  obtain ⟨c, last, rfl, rfl, -⟩ := List.map_eq_cons_iff.mp hrest
  obtain ⟨root, hroot, rfl⟩ := Option.map_eq_some_iff.mp
    (show c.rootCommentId.map (annotationId ctx n₀ order) = some parentId from hparent)
  obtain ⟨r, hr, rfl, hnone⟩ := threaded.rootFirst hsplit hroot
  refine ⟨plannedRow ctx n₀ order r, List.mem_map.mpr ⟨r, hr, rfl⟩, rfl, ?_, rfl⟩
  simp [plannedRow, annotationRow, hnone]

theorem threadKey_of_rooted (rooted : Rooted session) (h : comment ∈ session.comments)
    (htop : top ∈ session.comments)
    (hends : Ends session.parent comment.commentId top.commentId) :
    threadKey session comment = top.commentId := by
  rw [threadKey_of_ends h htop hends]
  cases hup : session.parent comment.commentId with
  | none =>
    rw [(Ends.self hup).unique hends, ite_self]
  | some parentId =>
    have hreply : comment.parentCommentId.isSome := by
      rw [parent_of_mem h] at hup
      exact Option.isSome_iff_exists.mpr ⟨_, (Option.filter_eq_some_iff.mp hup).1⟩
    have hroot := rooted comment h top htop (by simp [hup]) hends
    exact if_pos ⟨hreply, hroot⟩

theorem sameKey_iff (acyclic : Acyclic session) (rooted : Rooted session)
    (h : comment ∈ session.comments) (hother : other ∈ session.comments) :
    threadKey session comment = threadKey session other ↔
      ∃ top, Ends session.parent comment.commentId top ∧
        Ends session.parent other.commentId top := by
  obtain ⟨top, htop, hends⟩ := acyclic.ends h
  obtain ⟨top', htop', hends'⟩ := acyclic.ends hother
  rw [threadKey_of_rooted rooted h htop hends, threadKey_of_rooted rooted hother htop' hends']
  constructor
  · intro heq
    exact ⟨top.commentId, hends, heq ▸ hends'⟩
  · rintro ⟨id, hid, hid'⟩
    rw [hends.unique hid, hends'.unique hid']

/-- Where a reply is below one whose parent is missing, the two come to different threads. -/
theorem key_ne_of_missing (h : comment ∈ session.comments) (htop : top ∈ session.comments)
    (hup : session.parent comment.commentId ≠ none)
    (hends : Ends session.parent comment.commentId top.commentId)
    (hmissing : top.parentCommentId ≠ none) :
    threadKey session comment ≠ threadKey session top := by
  have hnone := hends.parent_top
  have htopEnds : Ends session.parent top.commentId top.commentId := .self hnone
  have hcond : ¬ (comment.parentCommentId.isSome ∧ top.parentCommentId = none) :=
    fun hboth => hmissing hboth.2
  rw [threadKey_of_ends h htop hends, if_neg hcond, threadKey_of_ends htop htop htopEnds, ite_self]
  intro heq
  rw [heq] at hup
  exact hup hnone

theorem not_kept_of_missing (first : FirstImport ctx) (acyclic : Acyclic session)
    (h : comment ∈ session.comments) (htop : top ∈ session.comments)
    (hup : session.parent comment.commentId ≠ none)
    (hends : Ends session.parent comment.commentId top.commentId)
    (hmissing : top.parentCommentId ≠ none) : ¬ ChainsKept session
      (planSession ctx session (Plan.start n₀ errors warnings mappedAuthors unmappedAuthors)) := by
  intro kept
  have hthreads := (kept.threads acyclic comment h top htop).mpr
    ⟨top.commentId, hends, .self hends.parent_top⟩
  rw [sameThread_iff acyclic (planned_session first acyclic) h htop] at hthreads
  exact key_ne_of_missing h htop hup hends hmissing hthreads

/-- A first import keeps the chains of a session exactly where no comment is below a reply whose
own parent is missing. -/
theorem chains_kept_iff (first : FirstImport ctx) (n₀ : ℕ) (errors warnings : List Finding)
    (mappedAuthors : List String) (unmappedAuthors : List (Option String × String)) :
    ChainsKept session
        (planSession ctx session (Plan.start n₀ errors warnings mappedAuthors unmappedAuthors)) ↔
      (Acyclic session → Rooted session) := by
  constructor
  · intro kept acyclic comment h top htop hup hends
    by_contra hmissing
    exact not_kept_of_missing first acyclic h htop hup hends hmissing kept
  · intro hrooted
    refine ⟨reported_resolve session, ?_, ?_⟩
    · intro acyclic before row after parentId hrows hparent
      exact root_before acyclic.threaded (planned_session first acyclic) hrows hparent
    · intro acyclic a ha b hb
      rw [sameThread_iff acyclic (planned_session first acyclic) ha hb]
      exact sameKey_iff acyclic (hrooted acyclic) ha hb

/-! ### A chain below a missing parent -/

def commentW : SourceId := ⟨"w", by decide⟩

def commentX : SourceId := ⟨"x", by decide⟩

def commentY : SourceId := ⟨"y", by decide⟩

def replyTo (row : ℕ) (commentId parentId : SourceId) : Comment where
  row := row
  sourceKey := "markup:Site/home.png/" ++ commentId.val
  commentId := commentId
  threadId := commentX
  parentCommentId := some parentId
  page := none
  body := "Here"
  status := .open
  createdAt := row
  authorEmail := none
  authorName := "MarkUp reviewer"
  pin := none
  pinProblem := none
  contentSha256 := ""

def centre : Pin := ⟨1 / 2, 1 / 2, by norm_num, by norm_num⟩

/-- A comment at the centre of the image. -/
def pinned : Comment :=
  { replyTo 2 commentW commentW with parentCommentId := none, pin := some centre }

/-- Behind it, a reply to a comment that is not in the CSV, and a reply to that one. -/
def orphanChain : Session where
  sourceKey := "markup:Site/home.png"
  markupProject := "Site"
  fileName := "home.png"
  kind := some .image
  comments := [pinned, replyTo 3 commentX ⟨"e", by decide⟩, replyTo 4 commentY commentX]
  reviewable := .inl rfl
  distinct := by decide
  placed := by decide

def firstRun : Context where
  apply := true
  organizationId := "org"
  projectId := "p1"
  runId := "run"
  reviewSessionId := "review"
  acceptsNew := true
  ledger := ⟨fun _ => none, fun _ => none⟩
  staffByEmail := fun _ => none
  staffNameById := fun _ => none
  operatorId := "ops"
  now := 0
  randomUUID := {
    id := fun n => String.ofList (List.replicate (n + 1) 'u')
    injective := by
      intro m n h
      have hlength := congrArg (fun s => s.toList.length) h
      simpa using hlength
    ne_blank := by
      intro n h
      have hlength := congrArg (fun s => s.toList.length) h
      simp at hlength }

theorem chains_kept_iff_orphan : ChainsKept orphanChain
    (planSession firstRun orphanChain (Plan.start 1 [] [] [] [])) ↔
      (Acyclic orphanChain → Rooted orphanChain) :=
  chains_kept_iff ⟨rfl, rfl, fun _ => rfl⟩ 1 [] [] [] []

theorem orphanChain_ends : Ends orphanChain.parent commentW commentW ∧
    Ends orphanChain.parent commentX commentX ∧ Ends orphanChain.parent commentY commentX := by
  have hw : orphanChain.parent commentW = none := by decide
  have hx : orphanChain.parent commentX = none := by decide
  have hy : orphanChain.parent commentY = some commentX := by decide
  exact ⟨.self hw, .self hx, .child hy (.self hx)⟩

/-- The reply to the reply comes to a thread of its own. -/
theorem orphan_not_kept : ¬ ChainsKept orphanChain
    (planSession firstRun orphanChain (Plan.start 1 [] [] [] [])) := by
  have hacyclic : Acyclic orphanChain := by
    intro comment h
    rcases List.mem_cons.mp h with rfl | h
    · exact orphanChain_ends.1.not_loops
    rcases List.mem_cons.mp h with rfl | h
    · exact orphanChain_ends.2.1.not_loops
    · obtain rfl := List.mem_singleton.mp h
      exact orphanChain_ends.2.2.not_loops
  refine @not_kept_of_missing _ (replyTo 4 commentY commentX)
    (replyTo 3 commentX ⟨"e", by decide⟩) _ _ _ _ _ _ ⟨rfl, rfl, fun _ => rfl⟩ hacyclic ?_
    ?_ ?_ ?_ ?_
  · exact List.mem_cons_of_mem _ (List.mem_cons_of_mem _ List.mem_cons_self)
  · exact List.mem_cons_of_mem _ List.mem_cons_self
  · decide
  · exact orphanChain_ends.2.2
  · exact Option.some_ne_none _

end Ashbi.Imports.Markup
