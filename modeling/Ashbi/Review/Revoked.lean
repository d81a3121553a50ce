import Ashbi.Review.Access

/-! Who writes on a review was given access by a statement of the same request. -/

namespace Ashbi.Review

open Interleaving

variable {db : Db} {i : ℕ} {session : Session} {link : ShareLink} {β : Type} {st : Stmt β}
  {ch : Choice} {sha256 : String → String}

/-! ### Share links -/

/-- What never changes of a share link, and that it stays revoked. -/
structure ShareLink.Kept (old link : ShareLink) : Prop where
  id_eq : link.id = old.id
  revoked : old.revokedAt.isSome = true → link.revokedAt.isSome = true

/-- A statement rewrites share links, or adds one. -/
theorem exec_shareLinks (st : Stmt β) (ch : Choice) (db : Db) :
    (∃ write, (∀ old : ShareLink, old.Kept (write old)) ∧
      (exec i st ch db).2.shareLinks = db.shareLinks.map write) ∨
    ∃ link : ShareLink, link.id = db.shareLinks.length ∧
      (exec i st ch db).2.shareLinks = db.shareLinks ++ [link] := by
  have hsame : ∀ links : List ShareLink, links = db.shareLinks →
      ∃ write, (∀ old : ShareLink, old.Kept (write old)) ∧ links = db.shareLinks.map write :=
    fun links hlinks => ⟨fun old => old, fun _ => ⟨rfl, fun h => h⟩, by simp [hlinks]⟩
  unfold exec
  split
  · cases st <;> exact .inl (hsame _ rfl)
  cases st with
  | createSession projectId previous createdById =>
    left
    rcases createSession_cases i projectId previous createdById db with
      hrun | ⟨session, -, -, -, -, -, hrun⟩
    · rw [run, hrun]
      exact hsame _ rfl
    · rw [run, hrun]
      exact hsame _ rfl
  | closeSession id =>
    left
    rcases closeSession_cases i id db with hrun | ⟨session, -, hrun⟩
    · rw [run, hrun]
      exact hsame _ rfl
    · rw [run, hrun]
      exact hsame _ rfl
  | lockOpenSession id => exact .inl (hsame _ (updateOpen_shareLinks ..))
  | applyDecisionStatus id decision => exact .inl (hsame _ (updateOpen_shareLinks ..))
  | createDecision session author decision note =>
    left
    rcases createDecision_cases i session author decision note db with
      hrun | ⟨row, -, -, -, -, -, hrun⟩
    · rw [run, hrun]
      exact hsame _ rfl
    · rw [run, hrun]
      exact hsame _ rfl
  | resolve session comment resolution =>
    left
    unfold run resolve
    dsimp only
    split <;> exact hsame _ rfl
  | updateClientAccess session sharedWithClient clientCanDecide =>
    left
    unfold run updateClientAccess
    dsimp only
    split
    · exact hsame _ rfl
    · split <;> exact hsame _ rfl
  | createShareLink session tokenHash expiresAt allowDecision createdById =>
    unfold run createShareLink
    dsimp only
    split
    · exact .inl (hsame _ rfl)
    · exact .inr ⟨_, rfl, rfl⟩
  | useShareLink link now =>
    refine .inl ⟨_, fun old => ?_, rfl⟩
    split
    · dsimp only
      split <;> exact ⟨rfl, fun h => h⟩
    · exact ⟨rfl, fun h => h⟩
  | revokeShareLink link now userId =>
    left
    unfold run revokeShareLink
    dsimp only
    split
    · exact hsame _ rfl
    · refine ⟨_, fun old => ?_, rfl⟩
      split
      · exact ⟨rfl, fun _ => rfl⟩
      · exact ⟨rfl, fun h => h⟩
  | _ => exact .inl (hsame _ rfl)

/-- The ids of share links are those that the table gave in turn. -/
def Db.Linked (db : Db) : Prop := db.shareLinks.map (·.id) = List.range db.shareLinks.length

theorem exec_linked (h : db.Linked) : (exec i st ch db).2.Linked := by
  unfold Db.Linked at h ⊢
  rcases exec_shareLinks (i := i) st ch db with ⟨write, hwrite, hpost⟩ | ⟨link, hid, hpost⟩
  · rw [hpost, List.map_map, List.length_map, ← h]
    exact List.map_congr_left fun old _ => (hwrite old).id_eq
  · rw [hpost, List.map_append, h, List.length_append, List.length_singleton, List.range_succ,
      List.map_singleton, hid]

theorem exec_revoked {linkId : ℕ} (h : db.isRevoked linkId = true) :
    (exec i st ch db).2.isRevoked linkId = true := by
  unfold Db.isRevoked at h ⊢
  obtain ⟨old, hin, hold⟩ := List.any_eq_true.mp h
  simp only [Bool.and_eq_true, decide_eq_true_eq] at hold
  rcases exec_shareLinks (i := i) st ch db with ⟨write, hwrite, hpost⟩ | ⟨link, -, hpost⟩
  · rw [hpost]
    refine List.any_eq_true.mpr ⟨write old, List.mem_map_of_mem hin, ?_⟩
    simp [(hwrite old).id_eq, (hwrite old).revoked hold.2, hold.1]
  · rw [hpost]
    exact List.any_eq_true.mpr ⟨old, List.mem_append_left _ hin, by simp [hold]⟩

/-- A link that is stored and not revoked has no revoked row beside it. -/
theorem Db.Linked.not_revoked (h : db.Linked) (hin : link ∈ db.shareLinks)
    (hrevoked : link.revokedAt = none) : db.isRevoked link.id = false := by
  refine List.any_eq_false.mpr fun other hother hsame => ?_
  simp only [Bool.and_eq_true, decide_eq_true_eq] at hsame
  have hnodup : (db.shareLinks.map (·.id)).Nodup := by
    rw [show db.shareLinks.map (·.id) = _ from h]
    exact List.nodup_range
  have heq : other = link := List.inj_on_of_nodup_map hnodup hother hin hsame.1
  rw [heq, hrevoked] at hsame
  cases hsame.2

/-! ### What was read -/

theorem mem_foundFact {ρ : Type} {fact : ρ → Fact} {answer : Except Failure (Option ρ)} {f : Fact}
    (h : f ∈ foundFact fact answer) : ∃ row, answer = .ok (some row) ∧ f = fact row := by
  unfold foundFact at h
  split at h
  · exact ⟨_, rfl, List.mem_singleton.mp h⟩
  · cases h

theorem learn_link (h : Fact.link link ∈ learn st (exec i st ch db).1) : link ∈ db.shareLinks := by
  unfold exec at h
  cases st with
  | findShareLink selects =>
    obtain ⟨row, hanswer, hfact⟩ := mem_foundFact h
    cases hfact
    split at hanswer
    · cases hanswer
    · exact List.mem_of_find?_eq_some (Except.ok.inj hanswer)
  | findSession selects =>
    obtain ⟨row, -, hfact⟩ := mem_foundFact h
    cases hfact
  | _ => cases h

theorem learn_session {selects : Session → Bool} (hinv : db.Inv) (hready : Ready i st db)
    (h : Fact.session selects session ∈ learn st (exec i st ch db).1) :
    selects session = true ∧ db.sessions.rows session.id = some session := by
  unfold exec at h
  cases st with
  | findShareLink selects =>
    obtain ⟨row, -, hfact⟩ := mem_foundFact h
    cases hfact
  | findSession selects =>
    obtain ⟨row, hanswer, hfact⟩ := mem_foundFact h
    cases hfact
    split at hanswer
    · cases hanswer
    · have hfound := Except.ok.inj hanswer
      refine ⟨List.find?_some hfound, ?_⟩
      have hidle : db.Idle i := hready
      obtain ⟨id, hread⟩ := read_of_mem_sessionsOf (List.mem_of_find?_eq_some hfound)
      rcases Versions.read_eq_some.mp hread with hmine | ⟨-, hrow⟩
      · cases (hidle.mine id).symm.trans hmine
      · exact (hinv.id_eq id session hrow).symm ▸ hrow
  | _ => cases h

/-! ### Runs -/

def Author.isStaff : Author → Bool
  | .staff _ _ => true
  | _ => false

/-- Each client or guest that inserts was admitted at a statement before of the same request, and
a revocation is never undone. -/
structure AdmittedBefore (tr : List (Occurrence machine)) (final : Db) : Prop where
  inserted : ∀ (k : ℕ) o, tr[k]? = some o → ∀ author session decides,
    inserts o.stmt = some (author, session, decides) → author.isStaff = false →
      ∃ o' ∈ tr.take k, o'.thread = o.thread ∧ o'.pre.admits author session.id decides = true
  revoked : ∀ o ∈ tr, ∀ linkId, o.pre.isRevoked linkId = true → final.isRevoked linkId = true

theorem admitted_before {tr : List (Occurrence machine)} {c : Config machine}
    (h : Run (M := machine) (Requested sha256) .empty tr c) : AdmittedBefore tr c.state := by
  have hidle : ∀ i, Db.empty.Idle i := fun i => ⟨fun _ => rfl, rfl, rfl⟩
  obtain ⟨-, hkeeps⟩ := Run.holds (K := contract)
    (fun p hp i s _ hfresh => requested_safe hp hfresh) empty_inv hidle h fun _ _ => trivial
  obtain ⟨-, hlinked⟩ := Run.invariant Db.Linked h (fun o _ => exec_linked) rfl
  refine ⟨fun k o ho author session decides hinserts hstaff => ?_, fun o ho linkId hrevoked => ?_⟩
  · have hadmitted := Run.learned (fun p hp => requested_learned hp) h ho author session
      decides hinserts
    cases author with
    | staff userId name => cases hstaff
    | guest link name email =>
      obtain ⟨hfact, hrevoked⟩ := hadmitted
      obtain ⟨o', ho', hthread, hlearned⟩ := mem_marksOf.mp hfact
      refine ⟨o', ho', hthread, ?_⟩
      have hstored := learn_link hlearned
      rw [Db.admits, (hlinked o' (List.mem_of_mem_take ho')).not_revoked hstored hrevoked]
      rfl
    | client userId name email =>
      obtain ⟨hdecides, selects, hfact, hselects⟩ := hadmitted
      obtain ⟨o', ho', hthread, hlearned⟩ := mem_marksOf.mp hfact
      obtain ⟨hinv, hkept⟩ := hkeeps o' (List.mem_of_mem_take ho')
      obtain ⟨hselected, hrow⟩ := learn_session hinv hkept.guar.1 hlearned
      refine ⟨o', ho', hthread, ?_⟩
      rw [Db.admits, hrow, Option.any_some, hselects session hselected]
      cases decides with
      | false => rfl
      | true => exact hdecides rfl
  · have hrely := Run.preserves
      (fun s t : Db => s.isRevoked linkId = true → t.isRevoked linkId = true)
      (fun _ h => h) (fun _ _ _ h h' hs => h' (h hs)) h fun o _ => exec_revoked
    exact hrely.2 o ho (exec_revoked hrevoked)

/-! ### An annotation through a revoked link -/

def guestRequests : List Request :=
  [.createReview "site" none "ann", .addShareLink (fun _ => true) 0 none true "ann",
    .guestAnnotate (fun _ => true) sampleToken "Gus" none none "Too dark",
    .revokeShareLink (fun _ => true) 0 0 "ann"]

def guestThreads : Config machine where
  state := .empty
  threads := guestRequests.map fun request => request.program fun token => token

theorem guestThreads_run (schedule : List (ℕ × Choice)) :
    Run (M := machine) (Requested fun token => token) .empty (guestThreads.played schedule)
      (guestThreads.play schedule) := by
  refine Run.of_schedule (M := machine) _ (fun p hp => ?_) schedule
  obtain ⟨request, -, rfl⟩ := List.mem_map.mp hp
  exact ⟨request, rfl⟩

/-- The link is revoked between the guest's checks and the insertion. -/
def guestSchedule : List (ℕ × Choice) :=
  turns 0 2 ++ turns 1 4 ++ turns 2 7 ++ turns 3 4 ++ turns 2 3

theorem admitted_before_sample :
    AdmittedBefore (guestThreads.played guestSchedule) (guestThreads.play guestSchedule).state ∧
    (guestThreads.play guestSchedule).state.annotations.map (·.author.shareLinkId) = [some 0] :=
  ⟨admitted_before (guestThreads_run guestSchedule), by decide +kernel⟩

/-- Each insertion is by an author who is admitted when it runs. -/
def AdmittedAtInsertion (tr : List (Occurrence machine)) : Prop :=
  ∀ o ∈ tr, ∀ author session decides, inserts o.stmt = some (author, session, decides) →
    o.pre.admits author session.id decides = true

theorem inserted_after_revocation : ∃ (tr : List (Occurrence machine)) (c : Config machine),
    Run (M := machine) (Requested fun token => token) .empty tr c ∧ ¬ AdmittedAtInsertion tr := by
  refine ⟨_, _, guestThreads_run guestSchedule, fun hadmitted => ?_⟩
  have hrevoked : ∃ o ∈ guestThreads.played guestSchedule, ((inserts o.stmt).any
      fun (author, session, decides) => !o.pre.admits author session.id decides) = true := by
    simp only [← List.any_eq_true]
    decide +kernel
  obtain ⟨o, ho, hrevoked⟩ := hrevoked
  obtain ⟨⟨author, session, decides⟩, hinserts, hnot⟩ := Option.any_eq_true _ _ |>.mp hrevoked
  dsimp only at hnot
  rw [hadmitted o ho author session decides hinserts] at hnot
  cases hnot

end Ashbi.Review
