import Ashbi.Interleaving.Learned
import Ashbi.Review.Final

/-! What clients and guests write after their access was revoked. -/

namespace Ashbi.Review

open Interleaving

variable {db : Db} {i : ℕ} {session : Session} {link : ShareLink} {author : Author}
  {decides : Bool} {α β : Type}

/-! ### Access -/

/-- The author, the session, and whether a decision is inserted rather than an annotation. -/
def inserts {γ : Type} (st : Stmt γ) : Option (Author × Session × Bool) :=
  match st with
  | .annotationCreate session author _ _ => some (author, session, false)
  | .createDecision session author _ _ => some (author, session, true)
  | _ => none

def Db.isRevoked (db : Db) (linkId : ℕ) : Bool :=
  db.shareLinks.any fun link => link.id = linkId && link.revokedAt.isSome

/-- The share link is not revoked; the session is shared with the client, who may decide. -/
def Db.admits (db : Db) (author : Author) (sessionId : ℕ) (decides : Bool) : Bool :=
  match author with
  | .staff _ _ => true
  | .guest link _ _ => !db.isRevoked link.id
  | .client _ _ _ => (db.sessions.rows sessionId).any fun row =>
      row.sharedWithClient && (!decides || row.clientCanDecide)

/-! ### What a request has read -/

inductive Fact
  | link (link : ShareLink)
  /-- `selects` is what the session was looked for with. -/
  | session (selects : Session → Bool) (session : Session)

/-- What was found, if anything. -/
def foundFact {ρ : Type} (fact : ρ → Fact) : Except Failure (Option ρ) → List Fact
  | .ok (some row) => [fact row]
  | _ => []

def learn {γ : Type} (st : Stmt γ) : γ → List Fact :=
  match st with
  | .findShareLink _ => foundFact .link
  | .findSession selects => foundFact (.session selects)
  | _ => fun _ => []

/-- The access that the author was given by what the request has read. -/
def Author.Admitted (author : Author) (session : Session) (decides : Bool) (facts : List Fact) :
    Prop :=
  match author with
  | .staff _ _ => True
  | .guest link _ _ => .link link ∈ facts ∧ link.revokedAt = none
  | .client _ _ _ => (decides = true → session.clientCanDecide = true) ∧
      ∃ selects, .session selects session ∈ facts ∧
        ∀ row : Session, selects row = true → row.sharedWithClient = true

/-- Who inserts was admitted. -/
def need {γ : Type} (st : Stmt γ) (facts : List Fact) : Prop :=
  ∀ author session decides, inserts st = some (author, session, decides) →
    author.Admitted session decides facts

theorem Author.Admitted.mono {facts more : List Fact} (h : author.Admitted session decides facts)
    (hmore : facts ⊆ more) : author.Admitted session decides more := by
  cases author with
  | staff userId name => trivial
  | guest link name email => exact ⟨hmore h.1, h.2⟩
  | client userId name email =>
    obtain ⟨hdecides, selects, hin, hselects⟩ := h
    exact ⟨hdecides, selects, hmore hin, hselects⟩

/-- A statement that inserts nothing needs nothing. -/
theorem need_of_none {γ : Type} {st : Stmt γ} {facts : List Fact} (h : inserts st = none) :
    need st facts := by
  intro author session decides hinserts
  cases h.symm.trans hinserts

section

variable {facts : List Fact} {f : β → Throws Stmt Failure α} {Q : α → List Fact → Prop}

/-- A statement that inserts nothing, and what follows it. -/
theorem stmt_bind_learned {st : Stmt (Except Failure β)} (hst : inserts st = none)
    (h : ∀ b, (f b).Learned learn need Q (facts ++ learn st (.ok b))) :
    (Throws.stmt st >>= f).Learned learn need Q facts :=
  Throws.learned_stmt_bind (need_of_none hst) h

theorem inTransaction_learned {body : Throws Stmt Failure α}
    (h : body.Learned learn need (fun _ _ => True) facts) :
    (inTransaction body).Learned learn need (fun _ _ => True) facts :=
  Throws.learned_transaction h (fun _ => need_of_none rfl) fun _ => need_of_none rfl

theorem annotateBody_learned (parentId : Option ℕ) (body : String)
    (h : author.Admitted session false facts) :
    (annotateBody session author parentId body).Learned learn need (fun _ _ => True) facts := by
  refine stmt_bind_learned rfl fun locked =>
    Throws.learned_require_bind fun _ => Throws.learned_stmt ?_ fun _ => trivial
  intro _ _ _ hinserts
  cases Option.some.inj hinserts
  exact h.mono (List.subset_append_left _ _)

theorem decideBody_learned (decision : Verdict) (note : Option String)
    (h : author.Admitted session true facts) :
    (decideBody session author decision note).Learned learn need (fun _ _ => True) facts := by
  refine Throws.learned_stmt_bind ?_ fun row => stmt_bind_learned rfl fun moved =>
    Throws.learned_require_bind fun _ => Throws.learned_pure trivial
  intro _ _ _ hinserts
  cases Option.some.inj hinserts
  exact h

theorem versionBody_learned (projectId createdById : String) (previous : Option Session) :
    (versionBody projectId previous createdById).Learned learn need (fun _ _ => True) facts := by
  refine stmt_bind_learned rfl fun created => ?_
  cases previous with
  | none => exact Throws.learned_pure trivial
  | some session =>
    dsimp only
    split
    · exact stmt_bind_learned rfl fun _ => Throws.learned_pure trivial
    · exact Throws.learned_pure trivial

/-! ### Reads -/

theorem loadSession_bind_learned {selects : Session → Bool} {failure : Failure}
    {f : Session → Throws Stmt Failure α} (h : ∀ session more,
      .session selects session ∈ more → (f session).Learned learn need Q more) :
    (loadSession selects failure >>= f).Learned learn need Q facts := by
  refine Throws.Learned.bind (stmt_bind_learned rfl fun found => ?_)
  refine Throws.learned_found fun session hsession => h session _ ?_
  subst hsession
  exact List.mem_append_right _ (List.mem_singleton_self _)

/-- What was read before stays read. -/
theorem checkParent_bind_learned {sessionId : ℕ} {parentId : Option ℕ} {failure : Failure}
    {f : Unit → Throws Stmt Failure α}
    (h : ∀ more, facts ⊆ more → (f ()).Learned learn need Q more) :
    (checkParent sessionId parentId failure >>= f).Learned learn need Q facts := by
  cases parentId with
  | none => exact h facts (List.Subset.refl _)
  | some id => exact Throws.Learned.bind (stmt_bind_learned rfl fun parent =>
      Throws.learned_require fun _ => h _ (List.subset_append_left _ _))

theorem checkLimit_bind_learned {sessionId : ℕ} {shareLinkId : Option ℕ}
    {f : Unit → Throws Stmt Failure α}
    (h : ∀ more, facts ⊆ more → (f ()).Learned learn need Q more) :
    (checkLimit sessionId shareLinkId >>= f).Learned learn need Q facts := by
  refine Throws.Learned.bind (stmt_bind_learned rfl fun total =>
    Throws.learned_require_bind fun _ => ?_)
  cases shareLinkId with
  | none => exact Throws.learned_pure (h _ (List.subset_append_left _ _))
  | some id =>
    refine stmt_bind_learned rfl fun linked => Throws.learned_require fun _ => h _ ?_
    rw [List.append_assoc]
    exact List.subset_append_left _ _

theorem now_bind_learned {f : Time → Throws Stmt Failure α}
    (h : ∀ now, (f now).Learned learn need Q facts) :
    (Throws.read .now >>= f).Learned learn need Q facts := by
  refine Throws.learned_read_bind (need_of_none rfl) fun now => ?_
  rw [show learn .now now = [] from rfl, List.append_nil]
  exact h now

theorem randomToken_bind_learned {f : String → Throws Stmt Failure α}
    (h : ∀ token, (f token).Learned learn need Q facts) :
    (Throws.read .randomToken >>= f).Learned learn need Q facts := by
  refine Throws.learned_read_bind (need_of_none rfl) fun token => ?_
  rw [show learn .randomToken token = [] from rfl, List.append_nil]
  exact h token

/-- A link that can be used is not revoked. -/
theorem resolveShareLink_bind_learned {sha256 : String → String} {projects : String → Bool}
    {token : String} {f : ShareLink × Session → Throws Stmt Failure α}
    (h : ∀ link session more, .link link ∈ more → link.revokedAt = none →
      (f (link, session)).Learned learn need Q more) :
    (resolveShareLink sha256 projects token >>= f).Learned learn need Q facts := by
  refine Throws.Learned.bind (Throws.learned_require_bind fun _ => ?_)
  refine stmt_bind_learned rfl fun found => Throws.learned_found_bind fun link hlink => ?_
  subst hlink
  refine stmt_bind_learned rfl fun found => now_bind_learned fun checkedAt =>
    Throws.learned_require_bind fun husable => Throws.learned_found_bind fun session _ => ?_
  refine Throws.learned_require_bind fun _ => now_bind_learned fun now =>
    stmt_bind_learned rfl fun _ => Throws.learned_pure (h link session _ ?_ ?_)
  · simp [learn, foundFact]
  · unfold shareLinkFailure at husable
    simp_all

/-! ### Requests -/

theorem createReview_learned (projectId : String) (previousSessionId : Option ℕ)
    (createdById : String) :
    (createReview projectId previousSessionId createdById).Learned learn need
      (fun _ _ => True) facts := by
  cases previousSessionId with
  | none => exact Throws.learned_mapError (inTransaction_learned (versionBody_learned _ _ _))
  | some id =>
    refine Throws.Learned.bind (loadSession_bind_learned fun previous more _ =>
      stmt_bind_learned rfl fun next => Throws.learned_require_bind fun _ => Throws.learned_pure ?_)
    exact Throws.learned_mapError (inTransaction_learned (versionBody_learned _ _ _))

end

section

variable {projects : String → Bool} {sessionId : ℕ} {userId name : String} {email : Option String}
  {parentId : Option ℕ} {text : String} {decision : Verdict} {note : Option String}
  {sha256 : String → String} {token : String} {facts : List Fact}

theorem annotate_learned : (annotate projects sessionId (.staff userId name) parentId text).Learned
    learn need (fun _ _ => True) facts := by
  unfold annotate
  generalize sanitizePlainText text = body
  refine loadSession_bind_learned fun session more _ => Throws.learned_require_bind fun _ => ?_
  refine checkParent_bind_learned fun _ _ => Throws.learned_require_bind fun _ => ?_
  refine checkLimit_bind_learned fun _ _ => Throws.learned_mapError (inTransaction_learned ?_)
  exact annotateBody_learned parentId body trivial

theorem recordDecision_learned :
    (recordDecision projects sessionId (.staff userId name) decision note).Learned
      learn need (fun _ _ => True) facts := by
  refine loadSession_bind_learned fun session more _ => Throws.learned_require_bind fun _ => ?_
  exact Throws.learned_mapError (inTransaction_learned (decideBody_learned decision _ trivial))

theorem resolveOrReopen_learned (annotationId : ℕ) (resolved : Bool) :
    (resolveOrReopen projects sessionId annotationId resolved userId).Learned
      learn need (fun _ _ => True) facts := by
  refine loadSession_bind_learned fun session more _ => Throws.learned_require_bind fun _ => ?_
  refine stmt_bind_learned rfl fun existing => Throws.learned_found_bind fun comment _ => ?_
  exact now_bind_learned fun now => Throws.learned_stmt (need_of_none rfl) fun _ => trivial

theorem changeClientAccess_learned (sharedWithClient clientCanDecide : Option Bool) :
    (changeClientAccess projects sessionId sharedWithClient clientCanDecide).Learned
      learn need (fun _ _ => True) facts := by
  refine loadSession_bind_learned fun session more _ => Throws.learned_require_bind fun _ =>
    Throws.learned_require_bind fun _ => ?_
  split
  · exact stmt_bind_learned rfl fun _ => Throws.learned_pure trivial
  · exact Throws.learned_pure trivial

theorem addShareLink_learned (expiresInDays : Option ℤ) (allowDecision : Bool) :
    (addShareLink projects sessionId sha256 expiresInDays allowDecision userId).Learned
      learn need (fun _ _ => True) facts := by
  refine loadSession_bind_learned fun session more _ => Throws.learned_require_bind fun _ => ?_
  refine now_bind_learned fun now => Throws.learned_require_bind fun _ =>
    randomToken_bind_learned fun token => ?_
  exact stmt_bind_learned rfl fun _ => Throws.learned_pure trivial

theorem revokeLink_learned (linkId : ℕ) :
    (revokeLink projects sessionId linkId userId).Learned learn need (fun _ _ => True) facts := by
  refine loadSession_bind_learned fun session more _ => ?_
  refine stmt_bind_learned rfl fun row => Throws.learned_found_bind fun link _ => ?_
  split
  · exact Throws.learned_pure trivial
  · exact now_bind_learned fun now => Throws.learned_stmt (need_of_none rfl) fun _ => trivial

theorem guestAnnotate_learned :
    (guestAnnotate sha256 projects token name email parentId text).Learned
      learn need (fun _ _ => True) facts := by
  unfold guestAnnotate
  generalize sanitizePlainText text = body
  generalize sanitizeGuestName name = name
  refine resolveShareLink_bind_learned fun link session more hlink hrevoked => ?_
  refine Throws.learned_require_bind fun _ => Throws.learned_require_bind fun _ =>
    Throws.learned_require_bind fun _ => checkParent_bind_learned fun more' hmore => ?_
  refine checkLimit_bind_learned fun more'' hmore' => Throws.learned_mapError
    (inTransaction_learned (annotateBody_learned parentId body ⟨hmore' (hmore hlink), hrevoked⟩))

theorem guestDecide_learned :
    (guestDecide sha256 projects token name email decision note).Learned
      learn need (fun _ _ => True) facts := by
  unfold guestDecide
  generalize sanitizeGuestName name = name
  refine resolveShareLink_bind_learned fun link session more hlink hrevoked => ?_
  refine Throws.learned_require_bind fun _ => Throws.learned_require_bind fun _ =>
    Throws.learned_require_bind fun _ => stmt_bind_learned rfl fun count => ?_
  refine Throws.learned_require_bind fun _ => Throws.learned_mapError
    (inTransaction_learned (decideBody_learned decision _ ⟨?_, hrevoked⟩))
  exact List.mem_append_left _ hlink

theorem clientAnnotate_learned :
    (clientAnnotate projects sessionId (.client userId name email) parentId text).Learned
      learn need (fun _ _ => True) facts := by
  unfold clientAnnotate
  generalize sanitizePlainText text = body
  refine loadSession_bind_learned fun session more hsession => ?_
  refine Throws.learned_require_bind fun _ => Throws.learned_require_bind fun _ => ?_
  refine checkParent_bind_learned fun more' hmore => checkLimit_bind_learned fun more'' hmore' => ?_
  refine stmt_bind_learned rfl fun own => Throws.learned_require_bind fun _ =>
    Throws.learned_mapError (inTransaction_learned (annotateBody_learned parentId body
      ⟨nofun, _, List.mem_append_left _ (hmore' (hmore hsession)), fun row hrow => ?_⟩))
  simp only [sessionScope, Bool.and_eq_true] at hrow
  exact hrow.2.1

theorem clientDecide_learned :
    (clientDecide projects sessionId (.client userId name email) decision note).Learned
      learn need (fun _ _ => True) facts := by
  refine loadSession_bind_learned fun session more hsession => ?_
  refine Throws.learned_require_bind fun hdecides => Throws.learned_require_bind fun _ =>
    Throws.learned_mapError (inTransaction_learned (decideBody_learned decision _
      ⟨fun _ => hdecides, _, hsession, fun row hrow => ?_⟩))
  simp only [sessionScope, Bool.and_eq_true] at hrow
  exact hrow.2.1

theorem answered_learned {p : Throws Stmt Failure α}
    (h : p.Learned learn need (fun _ _ => True) facts) :
    (answered p).Learned learn need (fun _ _ => True) facts :=
  Prog.Learned.bind (Prog.Learned.mono h fun _ _ _ => trivial)

theorem requested_learned {p : Prog Stmt Unit} (hp : Requested sha256 p) :
    p.Learned learn need (fun _ _ => True) [] := by
  obtain ⟨request, rfl⟩ := hp
  cases request with
  | createReview projectId previousSessionId createdById =>
    exact answered_learned (createReview_learned projectId previousSessionId createdById)
  | annotate projects sessionId userId name parentId text => exact answered_learned annotate_learned
  | resolve projects sessionId annotationId resolved userId =>
    exact answered_learned (resolveOrReopen_learned annotationId resolved)
  | decide projects sessionId userId name decision note =>
    exact answered_learned recordDecision_learned
  | clientAccess projects sessionId sharedWithClient clientCanDecide =>
    exact answered_learned (changeClientAccess_learned sharedWithClient clientCanDecide)
  | addShareLink projects sessionId expiresInDays allowDecision userId =>
    exact answered_learned (addShareLink_learned expiresInDays allowDecision)
  | revokeShareLink projects sessionId linkId userId =>
    exact answered_learned (revokeLink_learned linkId)
  | guestAnnotate projects token name email parentId text =>
    exact answered_learned guestAnnotate_learned
  | guestDecide projects token name email decision note =>
    exact answered_learned guestDecide_learned
  | clientAnnotate projects sessionId userId name email parentId text =>
    exact answered_learned clientAnnotate_learned
  | clientDecide projects sessionId userId name email decision note =>
    exact answered_learned clientDecide_learned

end

end Ashbi.Review
