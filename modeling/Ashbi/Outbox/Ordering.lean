import Ashbi.Outbox.Safety

/-! Events of one aggregate are delivered in the order of their sequence. -/

namespace Ashbi.Outbox

open Interleaving

variable {registry : List Subscriber} {attempts replays : ℕ → Prop} {i : ℕ} {s t u : Table}
  {β : Type}

/-- A new row of an aggregate comes after all of its rows. -/
structure Appends (s t : Table) : Prop extends Grows s t where
  later : ∀ p ∈ t.events, (∃ q ∈ s.events, q.toEnvelope = p.toEnvelope) ∨
    ∀ q ∈ s.events, q.key = p.key → q.sequence < p.sequence

theorem Appends.refl (s : Table) : Appends s s :=
  ⟨Grows.refl s, fun p hp => .inl ⟨p, hp, rfl⟩⟩

theorem Appends.trans (h : Appends s t) (h' : Appends t u) : Appends s u := by
  refine ⟨h.toGrows.trans h'.toGrows, fun p hp => ?_⟩
  rcases h'.later p hp with ⟨q, hq, hqe⟩ | hnew
  · rcases h.later q hq with ⟨r, hr, hre⟩ | hnew
    · exact .inl ⟨r, hr, hre.trans hqe⟩
    · right
      intro r hr hk
      have hlt := hnew r hr (hk.trans (congrArg Envelope.key hqe).symm)
      have hse : q.sequence = p.sequence := congrArg Envelope.sequence hqe
      omega
  · right
    intro r hr hk
    obtain ⟨q, hq, hqe, _⟩ := h.rows r hr
    have hlt := hnew q hq ((congrArg Envelope.key hqe).trans hk)
    have hse : q.sequence = r.sequence := congrArg Envelope.sequence hqe
    omega

/-- Only a commit adds rows. -/
theorem exec_rows {st : Stmt β} {ch : Choice} {p : DomainEvent}
    (hp : p ∈ (exec i st ch s).2.events) :
    (∃ q ∈ s.events, q.toEnvelope = p.toEnvelope) ∨ (i, p) ∈ s.staged := by
  have update : ∀ {r : DomainEvent → Bool} {f : DomainEvent → DomainEvent},
      p ∈ (s.updateMany r f).2.events → (∀ e, (f e).toEnvelope = e.toEnvelope) →
      (∃ q ∈ s.events, q.toEnvelope = p.toEnvelope) ∨ (i, p) ∈ s.staged := by
    intro r f hp hf
    obtain ⟨q, hq, rfl⟩ := mem_updateMany.mp hp
    exact .inl ⟨q, hq, (envelope_ite hf q).symm⟩
  have finish : ∀ {v : Table} {sub : Subscriber} {event : DomainEvent} {outcome : Outcome},
      (v.finish sub event outcome).events = v.events := by
    intro v sub event outcome
    cases outcome <;> rfl
  cases st with
  | endTransaction commit =>
    cases commit with
    | false => exact .inl ⟨p, hp, rfl⟩
    | true => exact (mem_visible.mp hp).imp_left fun hp => ⟨p, hp, rfl⟩
  | createEvent d =>
    simp only [exec, Table.create] at hp
    split at hp <;> exact .inl ⟨p, hp, rfl⟩
  | deadLetterAbandonedClaims now maxAttempts => exact update hp fun _ => rfl
  | claimDomainEvents now limit leaseMs maxAttempts => exact update hp fun _ => rfl
  | renewLease id token lockedUntil => exact update hp fun _ => rfl
  | settle id token data => exact update hp fun e => by cases data <;> rfl
  | requeue org id count now => exact update hp fun _ => rfl
  | discard org id count now => exact update hp fun _ => rfl
  | handle sub event => exact .inl ⟨p, (finish (v := s.handOver sub event)) ▸ hp, rfl⟩
  | awaitHandler sub event => exact .inl ⟨p, (finish (v := s)) ▸ hp, rfl⟩
  | _ => exact .inl ⟨p, hp, rfl⟩

theorem exec_appends {st : Stmt β} {ch : Choice} (hs : Consistent s)
    (hg : Grows s (exec i st ch s).2) : Appends s (exec i st ch s).2 := by
  refine ⟨hg, fun p hp => ?_⟩
  rcases exec_rows hp with hold | hnew
  · exact .inl hold
  · exact .inr fun q hq hk => hs.stagedLater (i, p) hnew q hq hk

variable {tr : List (Occurrence machine)} {c : Config machine}

/-- Every statement of a run only appends; so does the run from there on. -/
theorem OutboxRun.appends (h : OutboxRun registry attempts replays tr c) {o : Occurrence machine}
    (ho : o ∈ tr) : Appends o.pre c.state := by
  have step : ∀ o ∈ tr, Appends o.pre o.post :=
    fun o ho => exec_appends (h.holds.2 o ho).1 (h.grows ho)
  have hrest := Run.preserves Appends Appends.refl (fun _ _ _ => Appends.trans) h step
  exact (step o ho).trans (hrest.2 o ho)

/-- The event that a statement hands to a subscriber. -/
def Stmt.handed {β : Type} : Stmt β → Option DomainEvent
  | .handle _ event => some event
  | _ => none

theorem exec_handed {st : Stmt β} {ch : Choice} {d : Handling}
    (hd : d ∈ (exec i st ch s).2.handed) :
    d ∈ s.handed ∨ ∃ event, st.handed = some event ∧ d.eventId = event.id := by
  have finish : ∀ {v : Table} {sub : Subscriber} {event : DomainEvent} {outcome : Outcome},
      (v.finish sub event outcome).handed = v.handed := by
    intro v sub event outcome
    cases outcome <;> rfl
  cases st with
  | handle sub event =>
    rcases List.mem_append.mp ((finish (v := s.handOver sub event)) ▸ hd) with hd | hd
    · exact .inl hd
    · exact .inr ⟨event, rfl, by rw [List.mem_singleton.mp hd]⟩
  | awaitHandler sub event => exact .inl ((finish (v := s)) ▸ hd)
  | createEvent d =>
    simp only [exec, Table.create] at hd
    split at hd <;> exact .inl hd
  | _ => exact .inl hd

theorem handed_claimed {st : Stmt β} {event : DomainEvent} (hst : st.handed = some event)
    (hd : Disciplined registry attempts replays i st s) : ∃ c ∈ s.claims, c.event = event := by
  cases st with
  | handle sub e =>
    simp only [Stmt.handed, Option.some.injEq] at hst
    exact hst ▸ hd
  | _ => simp [Stmt.handed] at hst

/-- Only claimed events are handed to subscribers. -/
def HandedClaimed (s : Table) : Prop := ∀ d ∈ s.handed, ∃ c ∈ s.claims, c.event.id = d.eventId

theorem OutboxRun.handedClaimed (h : OutboxRun registry attempts replays tr c) :
    HandedClaimed c.state := by
  refine (Run.invariant HandedClaimed h (fun o ho hh d hd => ?_)
    (by simp [HandedClaimed, Table.empty])).1
  have hclaim : ∃ c ∈ o.pre.claims, c.event.id = d.eventId := by
    rcases exec_handed hd with hd | ⟨event, hst, hid⟩
    · exact hh d hd
    · obtain ⟨c, hc, he⟩ := handed_claimed hst (h.disciplined ho)
      exact ⟨c, hc, by rw [he, hid]⟩
  obtain ⟨c, hc, hid⟩ := hclaim
  exact ⟨c, (h.grows ho).claims hc, hid⟩

/-- The first event of the aggregate that is neither published nor discarded. -/
structure FirstUnsettled (s : Table) (k : AggregateKey) (first : DomainEvent) : Prop where
  row : first ∈ s.events
  key : first.key = k
  unsettled : first.status.settled = false
  earlier : ∀ p ∈ s.events, p.key = k → p.sequence < first.sequence →
    p.status = .published ∨ p.status = .discarded

/-- Pending since its insert: never claimed, never handed to a subscriber. -/
structure Untouched (s : Table) (e : DomainEvent) : Prop where
  pending : e.status = .pending
  attempts : e.attempts = 0
  unclaimed : ∀ c ∈ s.claims, c.event.id ≠ e.id
  unhanded : ∀ d ∈ s.handed, d.eventId ≠ e.id

theorem settled_iff {status : Status} :
    status.settled = true ↔ status = .published ∨ status = .discarded := by
  cases status <;> simp [Status.settled]

/-- The unsettled row of least sequence. -/
theorem exists_first {k : AggregateKey} {e : DomainEvent} (he : e ∈ s.events) (hk : e.key = k)
    (hu : e.status.settled = false) : ∃ first, FirstUnsettled s k first := by
  induction hn : e.sequence using Nat.strong_induction_on generalizing e with
  | _ n ih =>
    by_cases hp : ∃ p ∈ s.events, p.key = k ∧ p.sequence < n ∧ p.status.settled = false
    · obtain ⟨p, hp, hpk, hlt, hpu⟩ := hp
      exact ih p.sequence hlt hp hpk hpu rfl
    · push Not at hp
      refine ⟨e, he, hk, hu, fun p hps hpk hlt => settled_iff.mp ?_⟩
      exact Bool.ne_false_iff.mp (hp p hps hpk (hn ▸ hlt))

/-- An event behind an unsettled one has not been touched since its insert. -/
theorem untouched_behind (hs : Consistent s) (hh : HandedClaimed s) {first p : DomainEvent}
    (hf : first ∈ s.events) (hu : first.status.settled = false) (hp : p ∈ s.events)
    (hk : first.key = p.key) (hlt : first.sequence < p.sequence) : Untouched s p := by
  have hno : ∀ c ∈ s.claims, c.event.id ≠ p.id := by
    intro c hc hid
    obtain ⟨e, he, hee⟩ := hs.claimed c hc
    have hep : e = p := row_of_id hs.toRowsConsistent he hp ((congrArg Envelope.id hee).trans hid)
    subst hep
    have hkey : first.key = c.event.key := hk.trans (congrArg Envelope.key hee)
    have hseq : e.sequence = c.event.sequence := congrArg Envelope.sequence hee
    have hset := hs.front c hc first hf hkey (hseq ▸ hlt)
    simp [hu] at hset
  obtain ⟨hpend, hatt, _⟩ := hs.untouched p hp hno
  refine ⟨hpend, hatt, hno, fun d hd hid => ?_⟩
  obtain ⟨c, hc, hcd⟩ := hh d hd
  exact hno c hc (hcd.trans hid)

/-- In every run of a deployment each aggregate consists of settled events, then
the first unsettled one, then events that nobody has touched; and whenever an
event is handed over, every earlier event of its aggregate is already settled. -/
theorem outbox_ordering (h : OutboxRun registry attempts replays tr c) :
    (∀ k, (∀ p ∈ c.state.events, p.key = k → p.status = .published ∨ p.status = .discarded) ∨
      ∃ first, FirstUnsettled c.state k first ∧
        ∀ p ∈ c.state.events, p.key = k → p ≠ first → p.sequence ≠ first.sequence ∧
          (first.sequence < p.sequence → Untouched c.state p)) ∧
    ∀ o ∈ tr, ∀ event, o.stmt.handed = some event →
      ∀ p ∈ c.state.events, p.key = event.key → p.sequence < event.sequence →
        ∃ q ∈ o.pre.events, q.id = p.id ∧ (q.status = .published ∨ q.status = .discarded) := by
  have hs := h.holds.1
  refine ⟨fun k => ?_, fun o ho event hst p hp hk hlt => ?_⟩
  · by_cases hall : ∀ p ∈ c.state.events, p.key = k → p.status.settled = true
    · exact .inl fun p hp hk => settled_iff.mp (hall p hp hk)
    · push Not at hall
      obtain ⟨e, he, hk, hu⟩ := hall
      obtain ⟨first, hf⟩ := exists_first he hk (Bool.eq_false_iff.mpr hu)
      refine .inr ⟨first, hf, fun p hp hpk hne => ⟨fun hseq => hne ?_, fun hlt => ?_⟩⟩
      · exact sequence_unique hs.toRowsConsistent hp hf.row (hpk.trans hf.key.symm) hseq
      · exact untouched_behind hs h.handedClaimed hf.row hf.unsettled hp
          (hf.key.trans hpk.symm) hlt
  · have hpre := (h.holds.2 o ho).1
    obtain ⟨c', hc', he⟩ := handed_claimed hst (h.disciplined ho)
    subst he
    obtain ⟨e, hem, hee⟩ := hpre.claimed c' hc'
    have hkey : e.key = c'.event.key := congrArg Envelope.key hee
    have hseq : e.sequence = c'.event.sequence := congrArg Envelope.sequence hee
    rcases (h.appends ho).later p hp with ⟨q, hq, hqe⟩ | hlater
    · have hqk : q.key = c'.event.key := (congrArg Envelope.key hqe).trans hk
      have hqs : q.sequence = p.sequence := congrArg Envelope.sequence hqe
      have hset := hpre.front c' hc' q hq hqk (hqs ▸ hlt)
      exact ⟨q, hq, congrArg Envelope.id hqe, settled_iff.mp hset⟩
    · have hgt := hlater e hem (hkey.trans hk.symm)
      omega

/-! ### A sample run: two payments of one invoice, one dispatcher -/

def sampleRegistry : List Subscriber := [⟨"journal", none⟩]

def sampleInput (key : String) : RecordInput :=
  ⟨"invoice.paid", "inv-1", "{}", key, some "org-1", none, none, some 0, none, some "req-1"⟩

def sampleChoice : Choice := ⟨0, 0, "", fun _ => false, .returned⟩

def sampleThreads : List (Prog machine.Stmt Unit) :=
  [producer (fun _ _ => true) true [sampleInput "k1", sampleInput "k2"],
    (dispatchDomainEvents sampleRegistry {}).bind fun _ => .ret ()]

def sampleSchedule : List (ℕ × Choice) :=
  List.replicate 9 (0, sampleChoice) ++ List.replicate 15 (1, sampleChoice)

def sampleStart : Config machine := ⟨Table.empty, sampleThreads⟩

def sampleEnd : Config machine := sampleStart.play sampleSchedule

theorem sample_run : OutboxRun sampleRegistry (· = 10) (· = 5)
    (sampleStart.played sampleSchedule) sampleEnd := by
  refine Run.of_schedule sampleThreads (fun p hp => ?_) sampleSchedule
  rcases List.mem_cons.mp hp with rfl | hp
  · exact .producer _ _ _
  · exact List.mem_singleton.mp hp ▸ .dispatch {} rfl

theorem outbox_ordering_sample :
    (sampleEnd.state.events.map fun e => (e.sequence, e.status)) =
      [(1, .published), (2, .dispatching)] ∧
    ∀ o ∈ sampleStart.played sampleSchedule, ∀ event, o.stmt.handed = some event →
      ∀ p ∈ sampleEnd.state.events, p.key = event.key → p.sequence < event.sequence →
        ∃ q ∈ o.pre.events, q.id = p.id ∧ (q.status = .published ∨ q.status = .discarded) :=
  ⟨by decide, (outbox_ordering sample_run).2⟩

end Ashbi.Outbox
