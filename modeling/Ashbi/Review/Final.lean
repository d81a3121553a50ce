import Ashbi.Review.Safety

/-! Closed versions of reviews are final. -/

namespace Ashbi.Review

open Interleaving

variable {db s t : Db} {i id : ℕ} {β : Type} {st : Stmt β}
    {ch : Choice} {session previous : Session} {versions : List Session} {sha256 : String → String}

/-! ### The versions of a review -/

/-- The first versions of a review, each closed by the next. -/
structure Db.Versioned (db : Db) (versions : List Session) : Prop where
  stored : ∀ session ∈ versions, db.sessions.rows session.id = some session
  numbered : ∀ (k : ℕ) session, versions[k]? = some session → session.version = k + 1
  first : ∀ session, versions[0]? = some session → session.previousSessionId = none
  linked : ∀ (k : ℕ) previous session, versions[k]? = some previous →
    versions[k + 1]? = some session →
      session.previousSessionId = some previous.id ∧ previous.status = .closed

/-- All versions of a review. -/
structure Db.IsReview (db : Db) (versions : List Session) : Prop extends db.Versioned versions where
  complete : ∀ session previous, db.sessions.rows session.id = some session →
    previous ∈ versions → session.previousSessionId = some previous.id → session ∈ versions

theorem Db.Versioned.concat (hv : db.Versioned versions) (h : db.Inv)
    (hlast : versions.getLast? = some previous)
    (hrow : db.sessions.rows session.id = some session)
    (hprevious : session.previousSessionId = some previous.id) :
    db.Versioned (versions ++ [session]) := by
  have hstored := hv.stored previous (List.mem_of_getLast? hlast)
  have hclosed := h.closed session.id session previous.id previous hrow hprevious hstored
  have hversion : session.version = previous.version + 1 := by
    have hfollows := h.follows session.id session hrow
    rw [Db.Follows, hprevious] at hfollows
    obtain ⟨row, hrow', hversion⟩ := hfollows
    rw [hversion, Option.some.inj (hrow'.symm.trans hstored)]
  rw [List.getLast?_eq_getElem?] at hlast
  have hne : versions.length ≠ 0 := by
    intro hnil
    rw [List.length_eq_zero_iff.mp hnil] at hlast
    cases hlast
  refine ⟨fun s hs => ?_, fun k s hs => ?_, fun s hs => ?_, fun k p s hp hs => ?_⟩
  · rcases List.mem_append.mp hs with hs | hs
    · exact hv.stored s hs
    · obtain rfl := List.mem_singleton.mp hs
      exact hrow
  · rcases Nat.lt_trichotomy k versions.length with hlt | rfl | hgt
    · exact hv.numbered k s (by rwa [List.getElem?_append_left hlt] at hs)
    · rw [List.getElem?_concat_length] at hs
      obtain rfl := Option.some.inj hs
      rw [hversion, hv.numbered _ previous hlast]
      omega
    · rw [List.getElem?_eq_none (by simp; omega)] at hs
      cases hs
  · rw [List.getElem?_append_left (by omega)] at hs
    exact hv.first s hs
  · rcases Nat.lt_trichotomy (k + 1) versions.length with hlt | heq | hgt
    · rw [List.getElem?_append_left (by omega)] at hp hs
      exact hv.linked k p s hp hs
    · rw [heq, List.getElem?_concat_length] at hs
      rw [List.getElem?_append_left (by omega), ← Nat.add_sub_cancel k 1, heq] at hp
      obtain rfl := Option.some.inj hs
      obtain rfl := Option.some.inj (hlast.symm.trans hp)
      exact ⟨hprevious, hclosed⟩
    · rw [List.getElem?_eq_none (by simp; omega)] at hs
      cases hs

/-- Back to the first version. -/
theorem Db.Inv.versioned (h : db.Inv) (n : ℕ) : ∀ session,
    db.sessions.rows session.id = some session → session.version = n →
      ∃ versions, db.Versioned versions ∧ versions.getLast? = some session := by
  induction n with
  | zero =>
    intro session hrow hversion
    have hfollows := h.follows session.id session hrow
    unfold Db.Follows at hfollows
    split at hfollows
    · omega
    · obtain ⟨row, -, hversion'⟩ := hfollows
      omega
  | succ n ih =>
    intro session hrow hversion
    have hfollows := h.follows session.id session hrow
    unfold Db.Follows at hfollows
    split at hfollows
    · rename_i hfirst
      refine ⟨[session], ⟨fun s hs => ?_, fun k s hs => ?_, fun s hs => ?_, fun k p s _ hs => ?_⟩,
        rfl⟩
      · obtain rfl := List.mem_singleton.mp hs
        exact hrow
      · cases k with
        | zero => exact Option.some.inj hs ▸ hfollows
        | succ k => cases hs
      · exact Option.some.inj hs ▸ hfirst
      · cases hs
    · rename_i previousId hprevious
      obtain ⟨previous, hrow', hversion'⟩ := hfollows
      have hid := h.id_eq previousId previous hrow'
      obtain ⟨versions, hv, hlast⟩ := ih previous (hid.symm ▸ hrow') (by omega)
      exact ⟨versions ++ [session], hv.concat h hlast hrow (hid.symm ▸ hprevious),
        List.getLast?_concat⟩

/-- Versions with different numbers are different sessions. -/
theorem Db.Versioned.length_le (hv : db.Versioned versions) (h : db.Inv) :
    versions.length ≤ db.sessionCount := by
  have hnodup : (versions.map (·.id)).Nodup := by
    rw [List.nodup_iff_getElem?_ne_getElem?]
    intro j k hjk hk hsame
    rw [List.length_map] at hk
    rw [List.getElem?_map, List.getElem?_map, List.getElem?_eq_getElem (by omega),
      List.getElem?_eq_getElem hk] at hsame
    have hsame : versions[j].id = versions[k].id := Option.some.inj hsame
    have hj := hv.stored versions[j] (List.getElem_mem _)
    rw [hsame, hv.stored versions[k] (List.getElem_mem _)] at hj
    have hnumber := hv.numbered j _ (List.getElem?_eq_getElem (by omega))
    have hnumber' := hv.numbered k _ (List.getElem?_eq_getElem hk)
    rw [← Option.some.inj hj, hnumber'] at hnumber
    omega
  have hsubset : versions.map (·.id) ⊆ List.range db.sessionCount := by
    intro id hid
    obtain ⟨session, hin, rfl⟩ := List.mem_map.mp hid
    rw [List.mem_range]
    by_contra hle
    cases (h.fresh session.id (Nat.le_of_not_lt hle)).1.symm.trans (hv.stored session hin)
  simpa using (List.subperm_of_subset hnodup hsubset).length_le

/-- The last of the versions is the newest of the review, or there is a next one. -/
theorem Db.Versioned.next (hv : db.Versioned versions) (h : db.Inv)
    (hlast : versions.getLast? = some previous) :
    db.IsReview versions ∨ ∃ session, db.Versioned (versions ++ [session]) := by
  by_cases hnext : ∃ session, db.sessions.rows session.id = some session ∧
      session.previousSessionId = some previous.id
  · obtain ⟨session, hrow, hprevious⟩ := hnext
    exact .inr ⟨session, hv.concat h hlast hrow hprevious⟩
  refine .inl ⟨hv, fun session p hrow hp hprevious => ?_⟩
  obtain ⟨j, hlt, rfl⟩ := List.getElem_of_mem hp
  rcases Nat.lt_or_ge (j + 1) versions.length with hj | hj
  · have hafter := (hv.linked j _ _ (List.getElem?_eq_getElem hlt)
      (List.getElem?_eq_getElem hj)).1
    have hstored := hv.stored versions[j + 1] (List.getElem_mem hj)
    have hsame := h.unique _ _ _ _ _ hrow hstored hprevious hafter
    rw [hsame] at hrow
    obtain rfl := Option.some.inj (hrow.symm.trans hstored)
    exact List.getElem_mem hj
  · rw [List.getLast?_eq_getElem?, show versions.length - 1 = j by omega,
      List.getElem?_eq_getElem hlt] at hlast
    exact absurd ⟨session, hrow, Option.some.inj hlast ▸ hprevious⟩ hnext

/-- On to the last version. -/
theorem Db.Versioned.review (h : db.Inv) (n : ℕ) : ∀ versions, db.Versioned versions →
    versions ≠ [] → db.sessionCount ≤ versions.length + n →
      ∃ all, db.IsReview all ∧ versions ⊆ all := by
  induction n with
  | zero =>
    intro versions hv hne hcount
    rcases hv.next h (List.getLast?_eq_some_getLast hne) with hall | ⟨session, hmore⟩
    · exact ⟨versions, hall, List.Subset.refl _⟩
    · have hle := hmore.length_le h
      rw [List.length_append, List.length_singleton] at hle
      omega
  | succ n ih =>
    intro versions hv hne hcount
    rcases hv.next h (List.getLast?_eq_some_getLast hne) with hall | ⟨session, hmore⟩
    · exact ⟨versions, hall, List.Subset.refl _⟩
    · obtain ⟨all, hall, hsubset⟩ := ih (versions ++ [session]) hmore (by simp)
        (by rw [List.length_append, List.length_singleton]; omega)
      exact ⟨all, hall, fun s hs => hsubset (List.mem_append_left _ hs)⟩

theorem Db.Inv.review (h : db.Inv) (hrow : db.sessions.rows session.id = some session) :
    ∃ versions, db.IsReview versions ∧ session ∈ versions := by
  obtain ⟨first, hv, hlast⟩ := h.versioned session.version session hrow rfl
  have hin := List.mem_of_getLast? hlast
  obtain ⟨all, hall, hsubset⟩ := Db.Versioned.review h db.sessionCount first hv
    (List.ne_nil_of_mem hin) (Nat.le_add_left _ _)
  exact ⟨all, hall, hsubset hin⟩

/-! ### The order of decisions -/

/-- The decisions of a session are committed in the order of their insertion. The one of an open
transaction that has locked its session is the latest. -/
structure Db.InOrder (db : Db) : Prop where
  dated : ∀ decision ∈ db.decisions ++ db.recorded.map (·.2),
    decision.createdAt < db.decisionCount
  begun : db.recorded.Pairwise fun a b => a.2.createdAt ≤ b.2.createdAt
  committed : ∀ id, (db.committedOf id).Pairwise fun a b => a.createdAt ≤ b.createdAt
  latest : ∀ row ∈ db.recorded, ∀ session,
    db.sessions.mine row.1 row.2.sessionId = some session →
      ∀ d ∈ db.committedOf row.2.sessionId, d.createdAt ≤ row.2.createdAt

theorem empty_inOrder : Db.empty.InOrder where
  dated _ h := by cases h
  begun := .nil
  committed _ := .nil
  latest _ h := by cases h

theorem Db.InOrder.decisionsOf (h : db.InOrder) (id : ℕ) : db.decisionsOf id = db.committedOf id :=
  (h.committed id).insertionSort_eq

/-- No decision is committed or inserted, and a session is locked where the decision of the
transaction is the latest. -/
theorem Db.InOrder.keep (h : s.InOrder) (hdecisions : t.decisions = s.decisions)
    (hrecorded : t.recorded.Sublist s.recorded) (hcount : t.decisionCount = s.decisionCount)
    (hlocked : ∀ row ∈ s.recorded, ∀ session,
      t.sessions.mine row.1 row.2.sessionId = some session →
        s.sessions.mine row.1 row.2.sessionId = some session ∨
          ∀ d ∈ s.committedOf row.2.sessionId, d.createdAt ≤ row.2.createdAt) : t.InOrder := by
  have hcommitted : ∀ id, t.committedOf id = s.committedOf id := fun id => by
    rw [Db.committedOf, hdecisions, Db.committedOf]
  refine ⟨fun d hd => ?_, h.begun.sublist hrecorded, fun id => ?_, fun row hrow session hmine => ?_⟩
  · rw [hdecisions] at hd
    rw [hcount]
    exact h.dated d (((hrecorded.map _).append_left _).subset hd)
  · rw [hcommitted]
    exact h.committed id
  · rw [hcommitted]
    have hin := hrecorded.subset hrow
    rcases hlocked row hin session hmine with hmine | hlatest
    · exact h.latest row hin session hmine
    · exact hlatest

theorem Db.InOrder.write {sessionCount : ℕ} (h : db.InOrder)
    (hlatest : ∀ row ∈ db.recorded, row.1 = i → row.2.sessionId = id →
      ∀ d ∈ db.committedOf id, d.createdAt ≤ row.2.createdAt) :
    Db.InOrder { db with
      sessions := db.sessions.write i id session
      sessionCount := sessionCount } := by
  refine h.keep rfl (.refl _) rfl fun row hrow held hheld => ?_
  rcases Versions.mine_write_eq_some.mp hheld with ⟨hid, hi, -⟩ | ⟨-, hmine⟩
  · exact .inr (hid ▸ hlatest row hrow hi hid)
  · exact .inl hmine

theorem Db.InOrder.record {decision : Decision} (h : db.InOrder)
    (hdecision : decision.createdAt = db.decisionCount) : Db.InOrder { db with
      recorded := db.recorded ++ [(i, decision)]
      decisionCount := db.decisionCount + 1 } := by
  have hbefore : ∀ d ∈ db.decisions ++ db.recorded.map (·.2), d.createdAt ≤ decision.createdAt :=
    fun d hd => hdecision ▸ (h.dated d hd).le
  refine ⟨fun d hd => ?_, ?_, h.committed, fun row hrow session hmine d hd => ?_⟩
  · rw [List.map_append, ← List.append_assoc] at hd
    rcases List.mem_append.mp hd with hd | hd
    · exact Nat.lt_succ_of_lt (h.dated d hd)
    · obtain rfl := List.mem_singleton.mp hd
      exact hdecision ▸ Nat.lt_succ_self _
  · refine List.pairwise_append.mpr ⟨h.begun, List.pairwise_singleton _ _, fun a ha b hb => ?_⟩
    obtain rfl := List.mem_singleton.mp hb
    exact hbefore a.2 (List.mem_append_right _ (List.mem_map_of_mem ha))
  · rcases List.mem_append.mp hrow with hrow | hrow
    · exact h.latest row hrow session hmine d hd
    · obtain rfl := List.mem_singleton.mp hrow
      exact hbefore d (List.mem_append_left _ (List.mem_of_mem_filter hd))

theorem Db.InOrder.commit (h : db.InOrder) (hcomplete : db.Complete i none) :
    (db.commit i).InOrder := by
  have hown : ∀ d ∈ db.recordedBy i, (i, d) ∈ db.recorded := fun d hd => by
    obtain ⟨⟨j, row⟩, hrow, rfl⟩ := List.mem_map.mp hd
    obtain ⟨hrow, hj⟩ := List.mem_filter.mp hrow
    exact of_decide_eq_true hj ▸ hrow
  refine ⟨fun d hd => ?_, h.begun.filter _, fun id => ?_, fun row hrow session hmine => ?_⟩
  · rw [Db.commit, List.append_assoc] at hd
    exact h.dated d (((filter_perm db.recorded i).append_left _).mem_iff.mp hd)
  · rw [committedOf_commit]
    refine List.pairwise_append.mpr ⟨h.committed id, ?_, fun a ha b hb => ?_⟩
    · exact List.Pairwise.filter _ (List.pairwise_map.mpr (h.begun.filter _))
    · obtain ⟨hb, hid⟩ := List.mem_filter.mp hb
      obtain ⟨held, hheld, -⟩ := hcomplete.recorded b hb
      exact h.latest (i, b) (hown b hb) held hheld a (of_decide_eq_true hid ▸ ha)
  · obtain ⟨hj, hmine⟩ := Versions.mine_commit_eq_some.mp hmine
    rw [hcomplete.committedOf (Versions.mine_eq_none_of_ne hmine hj)]
    exact h.latest row (List.mem_of_mem_filter hrow) session hmine

theorem Db.InOrder.rollback (h : db.InOrder) : (db.rollback i).InOrder :=
  h.keep rfl List.filter_sublist rfl fun _ _ _ hmine =>
    .inl (Versions.mine_rollback_eq_some.mp hmine).2

theorem Db.InOrder.updateOpen {write : Session → Session} (h : db.InOrder)
    (hlatest : ∀ row ∈ db.recorded, row.1 = i → row.2.sessionId = id →
      ∀ d ∈ db.committedOf id, d.createdAt ≤ row.2.createdAt) :
    (updateOpen i id write db).2.InOrder := by
  rcases updateOpen_cases i id write db with hrun | ⟨session, -, -, hrun⟩
  · rw [hrun]
    exact h
  · rw [hrun]
    exact h.write hlatest

theorem run_inOrder (h : db.InOrder) (hinv : db.Inv) (hready : Ready i st db)
    (hcurrent : isCurrent i st db = true) : (run i st ch db).2.InOrder := by
  have hkeep : ∀ {t : Db}, t.decisions = db.decisions → t.recorded = db.recorded →
      t.decisionCount = db.decisionCount → t.sessions.written = db.sessions.written →
        t.InOrder := fun hdecisions hrecorded hcount hwritten =>
    h.keep hdecisions (hrecorded ▸ .refl _) hcount fun row _ held hheld =>
      .inl (Versions.mine_eq_some.mpr (hwritten ▸ Versions.mine_eq_some.mp hheld))
  have hnone : db.recordedBy i = [] → ∀ row ∈ db.recorded, row.1 ≠ i := by
    intro hrecorded row hrow hi
    have hin : row.2 ∈ db.recordedBy i :=
      List.mem_map_of_mem (List.mem_filter.mpr ⟨hrow, decide_eq_true hi⟩)
    rw [hrecorded] at hin
    cases hin
  cases st with
  | createSession projectId previous createdById =>
    rcases createSession_cases i projectId previous createdById db with
      hrun | ⟨session, -, -, -, -, -, hrun⟩
    · rw [run, hrun]
      exact h
    · rw [run, hrun]
      refine h.write fun row hrow _ hid => ?_
      -- no decision is about a session that is not stored yet
      obtain ⟨old, hold⟩ := hinv.known row.2 (List.mem_append_right _ (List.mem_map_of_mem hrow))
      rw [hid, (hinv.fresh db.sessionCount (Nat.le_refl _)).1] at hold
      cases hold
  | closeSession id =>
    rcases closeSession_cases i id db with hrun | ⟨session, -, hrun⟩
    · rw [run, hrun]
      exact h
    · rw [run, hrun]
      exact h.write fun row hrow hi => absurd hi (hnone hready.2 row hrow)
  | lockOpenSession id =>
    exact h.updateOpen fun row hrow hi => absurd hi (hnone hready.2 row hrow)
  | applyDecisionStatus id decision =>
    refine h.updateOpen fun row hrow hi _ d hd => ?_
    have hown : row.2 ∈ db.recordedBy i :=
      List.mem_map_of_mem (List.mem_filter.mpr ⟨hrow, decide_eq_true hi⟩)
    exact of_decide_eq_true (List.all_eq_true.mp (List.all_eq_true.mp hcurrent row.2 hown) d hd)
  | createDecision session author decision note =>
    rcases createDecision_cases i session author decision note db with
      hrun | ⟨row, -, -, -, hcreatedAt, -, hrun⟩
    · rw [run, hrun]
      exact h
    · rw [run, hrun]
      exact h.record hcreatedAt
  | resolve session comment resolution =>
    unfold run resolve
    dsimp only
    split <;> exact hkeep rfl rfl rfl rfl
  | updateClientAccess session sharedWithClient clientCanDecide =>
    unfold run updateClientAccess
    dsimp only
    split
    · exact h
    · split <;> exact hkeep rfl rfl rfl rfl
  | createShareLink session tokenHash expiresAt allowDecision createdById =>
    unfold run createShareLink
    dsimp only
    split <;> exact hkeep rfl rfl rfl rfl
  | revokeShareLink link now userId =>
    unfold run revokeShareLink
    dsimp only
    split <;> exact hkeep rfl rfl rfl rfl
  | commit => exact h.commit hready
  | rollback => exact h.rollback
  | _ => exact hkeep rfl rfl rfl rfl

theorem exec_inOrder (h : db.InOrder) (hinv : db.Inv) (hready : Ready i st db)
    (hcurrent : isCurrent i st db = true) : (exec i st ch db).2.InOrder := by
  unfold exec
  split
  · cases st with
    | commit => exact h.rollback
    | rollback => exact h.rollback
    | _ => exact h
  · exact run_inOrder h hinv hready hcurrent

/-! ### Runs -/

/-- Every session is a version of one review, a share link has one decision at most, and the
status of a session that is not closed is that of its latest decision. -/
structure Db.Reviewed (db : Db) : Prop where
  review : ∀ id session, db.sessions.rows id = some session →
    ∃ versions, db.IsReview versions ∧ session ∈ versions
  decided : ∀ linkId, (db.decisions.filter (·.author.shareLinkId = some linkId)).length ≤ 1
  status : ∀ id session, db.sessions.rows id = some session → session.status ≠ .closed →
    session.status = lastStatus (db.decisionsOf id)

theorem Db.Inv.reviewed (h : db.Inv) (horder : db.InOrder) : db.Reviewed where
  review id session hrow := h.review ((h.id_eq id session hrow).symm ▸ hrow)
  decided linkId := by
    have hall := h.decided linkId
    rw [List.filter_append, List.length_append] at hall
    omega
  status id session hrow hopen :=
    (h.status id session hrow hopen).trans (by rw [horder.decisionsOf])

/-- A run in which no request resolves, reopens or shares a session that was closed after the
request read it, and no decision takes the row of its session after a later one was committed:
closed sessions are final, and the others have the status of their latest decision. -/
theorem closed_final {tr : List (Occurrence machine)} {c : Config machine}
    (h : Run (M := machine) (Requested sha256) .empty tr c)
    (hcurrent : ∀ o ∈ tr, isCurrent o.thread o.stmt o.pre = true) :
    c.state.Reviewed ∧ ∀ o ∈ tr, o.pre.Final c.state := by
  have hidle : ∀ i, Db.empty.Idle i := fun i => ⟨fun _ => rfl, rfl, rfl⟩
  obtain ⟨hholds, hkeeps⟩ := Run.holds (K := contract)
    (fun p hp i s _ hfresh => requested_safe hp hfresh) empty_inv hidle h fun _ _ => trivial
  obtain ⟨horder, -⟩ := Run.invariant Db.InOrder h (fun o ho hpre => exec_inOrder hpre
    (hkeeps o ho).1 (hkeeps o ho).2.guar.1 (hcurrent o ho)) empty_inOrder
  refine ⟨hholds.inv.reviewed horder, fun o ho => ((hkeeps o ho).2.guar.2 (hcurrent o ho)).trans ?_⟩
  exact (Run.preserves Db.Final Db.Final.refl (fun _ _ _ => Db.Final.trans) h
    fun o ho => (hkeeps o ho).2.guar.2 (hcurrent o ho)).2 o ho

/-! ### A review of two versions -/

def sampleToken : String := "aTokenOfFortyThreeCharactersForAShareLink_x"

def sampleRequests : List Request :=
  [.createReview "site" none "ann", .annotate (fun _ => true) 0 "ann" "Ann" none "Too dark",
    .addShareLink (fun _ => true) 0 none true "ann",
    .guestDecide (fun _ => true) sampleToken "Gus" none .changesRequested none,
    .resolve (fun _ => true) 0 0 true "ann", .createReview "site" (some 0) "ann"]

def sampleThreads : Config machine where
  state := .empty
  threads := sampleRequests.map fun request => request.program fun token => token

theorem sampleThreads_run (schedule : List (ℕ × Choice)) :
    Run (M := machine) (Requested fun token => token) .empty (sampleThreads.played schedule)
      (sampleThreads.play schedule) := by
  refine Run.of_schedule (M := machine) _ (fun p hp => ?_) schedule
  obtain ⟨request, -, rfl⟩ := List.mem_map.mp hp
  exact ⟨request, rfl⟩

/-- Thread `i` runs `n` statements. -/
def turns (i n : ℕ) : List (ℕ × Choice) := List.replicate n (i, ⟨0, sampleToken, false⟩)

def sampleSchedule : List (ℕ × Choice) :=
  turns 0 2 ++ turns 1 5 ++ turns 2 4 ++ turns 3 9 ++ turns 4 4 ++ turns 5 5

theorem closed_final_sample :
    (sampleThreads.play sampleSchedule).state.Reviewed ∧
    ([0, 1].map fun id => ((sampleThreads.play sampleSchedule).state.sessions.rows id).map
      fun session => (session.version, session.status)) = [some (1, .closed), some (2, .open)] :=
  ⟨(closed_final (sampleThreads_run sampleSchedule) (by decide +kernel)).1, by decide +kernel⟩

/-- The new version is committed after the annotation's session was read. -/
def resolvedLate : List (ℕ × Choice) :=
  turns 0 2 ++ turns 1 5 ++ turns 4 3 ++ turns 5 5 ++ turns 4 1

def overlappingRequests : List Request :=
  [.createReview "site" none "ann", .decide (fun _ => true) 0 "ann" "Ann" .approved none,
    .decide (fun _ => true) 0 "bob" "Bob" .changesRequested none]

def overlappingThreads : Config machine where
  state := .empty
  threads := overlappingRequests.map fun request => request.program fun token => token

/-- The second decision is inserted and committed after the first was inserted. -/
def overlappingSchedule : List (ℕ × Choice) := turns 0 2 ++ turns 1 2 ++ turns 2 4 ++ turns 1 2

theorem overlappingThreads_run (schedule : List (ℕ × Choice)) :
    Run (M := machine) (Requested fun token => token) .empty (overlappingThreads.played schedule)
      (overlappingThreads.play schedule) := by
  refine Run.of_schedule (M := machine) _ (fun p hp => ?_) schedule
  obtain ⟨request, -, rfl⟩ := List.mem_map.mp hp
  exact ⟨request, rfl⟩

/-- An annotation of a closed session is resolved, and of two decisions that overlap the earlier
leaves its status. -/
theorem resolved_closed :
    (∃ (tr : List (Occurrence machine)) (c : Config machine),
      Run (M := machine) (Requested fun token => token) .empty tr c ∧
        ¬ ∀ o ∈ tr, o.pre.Final c.state) ∧
    ∃ (tr : List (Occurrence machine)) (c : Config machine),
      Run (M := machine) (Requested fun token => token) .empty tr c ∧ ¬ c.state.Reviewed := by
  refine ⟨⟨_, _, sampleThreads_run resolvedLate, fun hfinal => ?_⟩,
    ⟨_, _, overlappingThreads_run overlappingSchedule, fun hreviewed => ?_⟩⟩
  · have hchanged : ∃ o ∈ sampleThreads.played resolvedLate, o.pre.isClosed 0 = true ∧
        decide ((sampleThreads.play resolvedLate).state.annotationsOf 0 =
          o.pre.annotationsOf 0) = false := by
      simp only [← Bool.and_eq_true, ← Bool.not_eq_true', ← List.any_eq_true]
      decide +kernel
    obtain ⟨o, ho, hclosed, hchanged⟩ := hchanged
    exact of_decide_eq_false hchanged (hfinal o ho 0 hclosed).2.1
  · have hrow : ∃ session,
        (overlappingThreads.play overlappingSchedule).state.sessions.rows 0 = some session ∧
          decide (session.status = .approved) = true := by
      simp only [← Option.any_eq_true]
      decide +kernel
    obtain ⟨session, hrow, happroved⟩ := hrow
    rw [decide_eq_true_eq] at happroved
    have hstatus := hreviewed.status 0 session hrow (by rw [happroved]; decide)
    have hlatest : lastStatus
        ((overlappingThreads.play overlappingSchedule).state.decisionsOf 0) =
          .changesRequested := by decide +kernel
    rw [happroved, hlatest] at hstatus
    cases hstatus

end Ashbi.Review
