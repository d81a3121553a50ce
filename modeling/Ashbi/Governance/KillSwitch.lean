import Ashbi.Interleaving.Program
import Ashbi.Js

/-! The AI kill switches of one process: the database rows, the two caches and the programs. A
change of a switch takes effect in the process that made it. -/

namespace Ashbi.Governance

open Interleaving

abbrev OrgId := String

inductive ConnectionStatus
  | active | disabled | revoked
  deriving DecidableEq

/-- A connection without its ciphertext, as hooks and callers see it. -/
structure Connection where
  status : ConnectionStatus
  baseUrl : String
  defaultModel : String
  deriving DecidableEq

structure ConnectionRow extends Connection where
  encryptedApiKey : Option String
  deriving DecidableEq

def publicConnection (row : ConnectionRow) : Connection := row.toConnection

/-- A value and the number of changes that the database had when it was read. The number is
only history; nothing depends on it. -/
structure Read (α : Type) where
  value : α
  writes : ℕ

structure OrgState (Provider : Type) where
  aiDisabled : Read Bool
  connection : Read (Option Connection)
  provider : Option Provider
  loadError : Bool

structure Cached (α : Type) where
  expiresAt : Time
  value : α

def Cached.fresh {α : Type} (entry : Cached α) (nowMs : Time) : Option α :=
  if nowMs < entry.expiresAt then some entry.value else none

/-- A committed change of a row that the switches are read from. -/
inductive Change
  | platformSetting (aiDisabled : Bool)
  | organization (id : OrgId) (aiDisabled : Bool)
  | connection (id : OrgId) (row : ConnectionRow)

/-- The database rows and the caches of this process; `none` is a missing row or entry. -/
structure State (Provider : Type) where
  platformSetting : Option Bool
  organization : OrgId → Option Bool
  connection : OrgId → Option ConnectionRow
  writes : ℕ
  platformCache : Option (Cached (Read Bool))
  cache : OrgId → Option (Cached (OrgState Provider))

variable {Provider : Type}

def State.apply (s : State Provider) : Change → State Provider
  | .platformSetting aiDisabled =>
    { s with platformSetting := some aiDisabled, writes := s.writes + 1 }
  | .organization id aiDisabled =>
    { s with organization := Function.update s.organization id (some aiDisabled)
             writes := s.writes + 1 }
  | .connection id row =>
    { s with connection := Function.update s.connection id (some row), writes := s.writes + 1 }

/-- What runs between two awaits. A cache is looked up together with the clock, and
`organizationFirst` says which of two parallel queries is answered first. -/
inductive Stmt (Provider : Type) : Type → Type
  | lookupPlatform : Stmt Provider (Time × Option (Read Bool))
  | findPlatformSetting : Stmt Provider (Read (Option Bool))
  | storePlatform (expiresAt : Time) (disabled : Read Bool) : Stmt Provider Unit
  | lookup (id : OrgId) : Stmt Provider (Time × Option (OrgState Provider))
  | organizationFirst : Stmt Provider Bool
  | findOrganization (id : OrgId) : Stmt Provider (Read (Option Bool))
  | findConnection (id : OrgId) : Stmt Provider (Read (Option ConnectionRow))
  | store (id : OrgId) (expiresAt : Time) (state : OrgState Provider) : Stmt Provider Unit
  | write (change : Change) : Stmt Provider Unit
  | invalidatePlatform : Stmt Provider Unit
  | invalidate (organizationId : Option OrgId) : Stmt Provider Unit

structure Choice where
  time : Time
  organizationFirst : Bool

def exec {β : Type} (st : Stmt Provider β) (ch : Choice) (s : State Provider) :
    β × State Provider :=
  match st with
  | .lookupPlatform => ((ch.time, s.platformCache.bind (·.fresh ch.time)), s)
  | .findPlatformSetting => (⟨s.platformSetting, s.writes⟩, s)
  | .storePlatform expiresAt disabled =>
    ((), { s with platformCache := some ⟨expiresAt, disabled⟩ })
  | .lookup id => ((ch.time, (s.cache id).bind (·.fresh ch.time)), s)
  | .organizationFirst => (ch.organizationFirst, s)
  | .findOrganization id => (⟨s.organization id, s.writes⟩, s)
  | .findConnection id => (⟨s.connection id, s.writes⟩, s)
  | .store id expiresAt state =>
    ((), { s with cache := Function.update s.cache id (some ⟨expiresAt, state⟩) })
  | .write change => ((), s.apply change)
  | .invalidatePlatform => ((), { s with platformCache := none })
  | .invalidate (some id) => ((), { s with cache := Function.update s.cache id none })
  | .invalidate none => ((), { s with cache := fun _ => none })

abbrev machine (Provider : Type) : Machine where
  Stmt := Stmt Provider
  Choice := Choice
  State := State Provider
  enabled := fun _ _ _ => true
  exec := fun _ st ch s => exec st ch s

/-! ### Programs -/

/-- What the instance is created with; `connect` decrypts the key and builds the provider of a
connection, and is `none` where one of the two throws. -/
structure Deps (Provider : Type) where
  envAiDisabled : Bool
  cacheTtlMs : ℤ
  connect : ConnectionRow → Option Provider

/-- `AI_ORG_CACHE_TTL_MS`. -/
def aiOrgCacheTtlMs : ℤ := 30000

inductive SwitchScope
  | platform | organization
  deriving DecidableEq

/-- Why a call is refused before a provider is contacted. -/
inductive Refusal
  | aiDisabled (scope : SwitchScope)
  | connectionDisabled
  | connectionUnavailable
  deriving DecidableEq

inductive Route (Provider : Type)
  | platform
  | byok (connection : Connection) (provider : Option Provider)

def storedPlatformDisabled (deps : Deps Provider) : Prog (Stmt Provider) Bool := do
  let (nowMs, hit) ← .stmt .lookupPlatform
  match hit with
  | some disabled => pure disabled.value
  | none =>
    let row ← .stmt .findPlatformSetting
    let disabled : Read Bool := ⟨row.value.getD false, row.writes⟩
    .stmt (.storePlatform (nowMs + deps.cacheTtlMs) disabled)
    pure disabled.value

def isPlatformDisabled (deps : Deps Provider) : Prog (Stmt Provider) Bool :=
  if deps.envAiDisabled then pure true else storedPlatformDisabled deps

structure PlatformStatus where
  disabled : Bool
  envDisabled : Bool
  storedDisabled : Bool

def getPlatformStatus (deps : Deps Provider) : Prog (Stmt Provider) PlatformStatus := do
  let storedDisabled ← storedPlatformDisabled deps
  pure ⟨deps.envAiDisabled || storedDisabled, deps.envAiDisabled, storedDisabled⟩

/-- The two parallel queries of a load. -/
def findOrgRows (id : OrgId) :
    Prog (Stmt Provider) (Read (Option Bool) × Read (Option ConnectionRow)) := do
  if ← .stmt .organizationFirst then
    let organization ← .stmt (.findOrganization id)
    let row ← .stmt (.findConnection id)
    pure (organization, row)
  else
    let row ← .stmt (.findConnection id)
    let organization ← .stmt (.findOrganization id)
    pure (organization, row)

/-- The state that is built from the two rows. -/
def orgState (deps : Deps Provider) (organization : Read (Option Bool))
    (row : Read (Option ConnectionRow)) : OrgState Provider :=
  let active := row.value.filter (·.status = .active)
  { aiDisabled := ⟨organization.value.getD false, organization.writes⟩
    connection := ⟨(row.value.filter (·.status ≠ .revoked)).map publicConnection, row.writes⟩
    provider := active.bind deps.connect
    loadError := active.any fun r => (deps.connect r).isNone }

def loadOrgState (deps : Deps Provider) (id : OrgId) :
    Prog (Stmt Provider) (OrgState Provider) := do
  let (nowMs, hit) ← .stmt (.lookup id)
  match hit with
  | some state => pure state
  | none =>
    let (organization, row) ← findOrgRows id
    let state := orgState deps organization row
    .stmt (.store id (nowMs + deps.cacheTtlMs) state)
    pure state

def assertAllowed (deps : Deps Provider) (organizationId : Option OrgId) :
    Prog (Stmt Provider) (Except Refusal Unit) := do
  if ← isPlatformDisabled deps then pure (.error (.aiDisabled .platform))
  else
    match organizationId with
    | none => pure (.ok ())
    | some id =>
      let state ← loadOrgState deps id
      if state.aiDisabled.value then pure (.error (.aiDisabled .organization)) else pure (.ok ())

def route (deps : Deps Provider) (organizationId : Option OrgId) :
    Prog (Stmt Provider) (Except Refusal (Route Provider)) := do
  match ← assertAllowed deps organizationId with
  | .error refusal => pure (.error refusal)
  | .ok () =>
    match organizationId with
    | none => pure (.ok .platform)
    | some id =>
      let state ← loadOrgState deps id
      match state.connection.value with
      | none => pure (.ok .platform)
      | some connection =>
        if connection.status = .disabled then pure (.error .connectionDisabled)
        else if state.loadError then pure (.error .connectionUnavailable)
        else pure (.ok (.byok connection state.provider))

def setPlatformAiDisabled (disabled : Bool) : Prog (Stmt Provider) Unit := do
  .stmt (.write (.platformSetting disabled))
  .stmt .invalidatePlatform

/-- A change of an organization's switch or connection by its admin. -/
def changeOrganization (id : OrgId) (change : Change) : Prog (Stmt Provider) Unit := do
  .stmt (.write change)
  .stmt (.invalidate (some id))

/-- The row that a change writes belongs to the organization. -/
def Change.of (id : OrgId) : Change → Bool
  | .platformSetting _ => false
  | .organization id' _ => id' = id
  | .connection id' _ => id' = id

/-- The calls of one process. `resolve`, `chat` and `chatJSON` decide in `route`; another
process changes rows without touching the caches of this one. -/
inductive Deployed (deps : Deps Provider) : Prog (Stmt Provider) Unit → Prop
  | assertAllowed (organizationId) :
      Deployed deps ((assertAllowed deps organizationId).bind fun _ => .ret ())
  | route (organizationId) : Deployed deps ((route deps organizationId).bind fun _ => .ret ())
  | status : Deployed deps ((getPlatformStatus deps).bind fun _ => .ret ())
  | setPlatform (disabled) : Deployed deps (setPlatformAiDisabled disabled)
  | changeOrganization (id) (change) (h : Change.of id change = true) :
      Deployed deps (changeOrganization id change)
  | elsewhere (change) : Deployed deps (.stmt (.write change))

/-! ### What calls decide from -/

variable {β : Type}

/-- The two caches: the platform switch, and the state of each organization. -/
inductive Cache
  | platform
  | organization (id : OrgId)
  deriving DecidableEq

def Change.cache : Change → Cache
  | .platformSetting _ => .platform
  | .organization id _ => .organization id
  | .connection id _ => .organization id

/-- When the parts of an organization's state were read. -/
def OrgState.readAt (state : OrgState Provider) : List ℕ :=
  [state.aiDisabled.writes, state.connection.writes]

/-- When the content of a cache was read from the database. -/
def State.cachedAt (s : State Provider) : Cache → List ℕ
  | .platform => s.platformCache.toList.map (·.value.writes)
  | .organization id => (s.cache id).toList.flatMap (·.value.readAt)

/-- The reads that one statement hands to its call: a hit of the cache, or the database. -/
def Stmt.decidesFrom (k : Cache) (st : Stmt Provider β) (ch : Choice) (s : State Provider) :
    List ℕ :=
  match st with
  | .lookupPlatform =>
    if k = .platform then (s.platformCache.bind (·.fresh ch.time)).toList.map (·.writes) else []
  | .findPlatformSetting => if k = .platform then [s.writes] else []
  | .lookup id =>
    if k = .organization id then
      ((s.cache id).bind (·.fresh ch.time)).toList.flatMap (·.readAt)
    else []
  | .findOrganization id | .findConnection id => if k = .organization id then [s.writes] else []
  | _ => []

/-- The reads that one statement keeps in a cache. -/
def Stmt.stores (k : Cache) : Stmt Provider β → List ℕ
  | .storePlatform _ disabled => if k = .platform then [disabled.writes] else []
  | .store id _ state => if k = .organization id then state.readAt else []
  | _ => []

def Stmt.invalidates (k : Cache) : Stmt Provider β → Bool
  | .invalidatePlatform => k = .platform
  | .invalidate (some id) => k = .organization id
  | .invalidate none => k ≠ .platform
  | _ => false

/-- The cache that the statement's change is read into. -/
def Stmt.changes : Stmt Provider β → Option Cache
  | .write change => some change.cache
  | _ => none

def decidesFrom (k : Cache) (o : Occurrence (machine Provider)) : List ℕ :=
  Stmt.decidesFrom k o.stmt o.choice o.pre

def storedBy (k : Cache) (o : Occurrence (machine Provider)) : List ℕ := Stmt.stores k o.stmt

/-- `written` is the change of a call that has returned with `invalidated`. -/
def completedChange (written invalidated : Occurrence (machine Provider)) : Option Cache :=
  (Stmt.changes written.stmt).filter fun k =>
    written.thread = invalidated.thread && Stmt.invalidates k invalidated.stmt

/-- Once a change has returned, no call that starts later decides from a value that was read
before the change was written. -/
def TakesEffect (tr : List (Occurrence (machine Provider))) : Prop :=
  ∀ i j l : Fin tr.length, i < j → j < l → ∀ k ∈ completedChange tr[i] tr[j],
    (∀ m : Fin tr.length, m ≤ j → tr[m].thread ≠ tr[l].thread) →
    ∀ readAt ∈ decidesFrom k tr[l], tr[i].post.writes ≤ readAt

/-- After a change has returned, no load stores a value that it read before the change. -/
def NoLoadSpans (tr : List (Occurrence (machine Provider))) : Prop :=
  ∀ i j l : Fin tr.length, i < j → j < l → ∀ k ∈ completedChange tr[i] tr[j],
    ∀ readAt ∈ storedBy k tr[l], tr[i].post.writes ≤ readAt

/-! ### Renewed caches -/

/-- The content of the cache was read at the `n`th change or later. -/
structure Renewed (k : Cache) (n : ℕ) (s : State Provider) : Prop where
  reached : n ≤ s.writes
  cached : ∀ readAt ∈ s.cachedAt k, n ≤ readAt

variable {k : Cache} {n : ℕ} {s : State Provider} {ch : Choice}

theorem writes_apply (change : Change) : (s.apply change).writes = s.writes + 1 := by
  cases change <;> rfl

theorem cachedAt_apply (change : Change) : (s.apply change).cachedAt k = s.cachedAt k := by
  cases change <;> cases k <;> rfl

/-- No statement takes a change back. -/
theorem exec_writes (st : Stmt Provider β) : s.writes ≤ (exec st ch s).2.writes := by
  cases st with
  | write change => exact (writes_apply change).symm ▸ Nat.le_succ _
  | invalidate organizationId => cases organizationId <;> exact Nat.le_refl _
  | _ => exact Nat.le_refl _

/-- What a statement leaves in a cache was there before or is stored by it. -/
theorem exec_cachedAt (st : Stmt Provider β) :
    ∀ readAt ∈ (exec st ch s).2.cachedAt k, readAt ∈ s.cachedAt k ∨ readAt ∈ Stmt.stores k st := by
  intro readAt hr
  cases st with
  | write change => exact .inl (by simpa only [exec, cachedAt_apply] using hr)
  | storePlatform expiresAt disabled =>
    cases k with
    | platform => exact .inr (by simpa [exec, State.cachedAt, Stmt.stores] using hr)
    | organization id => exact .inl hr
  | store id expiresAt state =>
    cases k with
    | platform => exact .inl hr
    | organization id' =>
      by_cases hid : id' = id
      · subst hid
        exact .inr (by simpa [exec, State.cachedAt, Stmt.stores] using hr)
      · exact .inl (by simpa [exec, State.cachedAt, hid] using hr)
  | invalidatePlatform =>
    cases k with
    | platform => simp [exec, State.cachedAt] at hr
    | organization id => exact .inl hr
  | invalidate organizationId =>
    cases k with
    | platform => cases organizationId <;> exact .inl hr
    | organization id' =>
      cases organizationId with
      | none => simp [exec, State.cachedAt] at hr
      | some id =>
        by_cases hid : id' = id
        · subst hid
          simp [exec, State.cachedAt] at hr
        · exact .inl (by simpa [exec, State.cachedAt, hid] using hr)
  | _ => exact .inl hr

theorem Renewed.step {st : Stmt Provider β} (h : Renewed k n s)
    (hstores : ∀ readAt ∈ Stmt.stores k st, n ≤ readAt) : Renewed k n (exec st ch s).2 where
  reached := Nat.le_trans h.reached (exec_writes st)
  cached readAt hr := (exec_cachedAt st readAt hr).elim (h.cached readAt) (hstores readAt)

/-- An invalidated cache is empty. -/
theorem Renewed.of_invalidates {st : Stmt Provider β} (h : Stmt.invalidates k st = true)
    (hn : n ≤ s.writes) : Renewed k n (exec st ch s).2 := by
  refine ⟨Nat.le_trans hn (exec_writes st), ?_⟩
  cases st with
  | invalidatePlatform =>
    obtain rfl : k = .platform := by simpa [Stmt.invalidates] using h
    simp [exec, State.cachedAt]
  | invalidate organizationId =>
    cases organizationId with
    | none =>
      cases k with
      | platform => simp [Stmt.invalidates] at h
      | organization id => simp [exec, State.cachedAt]
    | some id =>
      obtain rfl : k = .organization id := by simpa [Stmt.invalidates] using h
      simp [exec, State.cachedAt]
  | _ => simp [Stmt.invalidates] at h

theorem fresh_subset {α : Type} {entry : Option (Cached α)} {nowMs : Time} {value : α}
    (h : entry.bind (·.fresh nowMs) = some value) : ∃ e, entry = some e ∧ e.value = value := by
  obtain ⟨e, he, hv⟩ := Option.bind_eq_some_iff.mp h
  unfold Cached.fresh at hv
  split at hv
  · exact ⟨e, he, Option.some.inj hv⟩
  · cases hv

/-- A call decides from the cache or from the database as it is now. -/
theorem Renewed.decides {st : Stmt Provider β} (h : Renewed k n s) :
    ∀ readAt ∈ Stmt.decidesFrom k st ch s, n ≤ readAt := by
  intro readAt hr
  have hnow : readAt ∈ [s.writes] → n ≤ readAt := fun hm => List.mem_singleton.mp hm ▸ h.reached
  cases st with
  | lookupPlatform =>
    simp only [Stmt.decidesFrom] at hr
    split at hr
    · subst k
      obtain ⟨disabled, hd, rfl⟩ := List.mem_map.mp hr
      obtain ⟨entry, he, rfl⟩ := fresh_subset (Option.mem_toList.mp hd)
      exact h.cached _ (by simp [State.cachedAt, he])
    · cases hr
  | lookup id =>
    simp only [Stmt.decidesFrom] at hr
    split at hr
    · subst k
      obtain ⟨state, hs, hm⟩ := List.mem_flatMap.mp hr
      obtain ⟨entry, he, rfl⟩ := fresh_subset (Option.mem_toList.mp hs)
      exact h.cached _ (by simpa [State.cachedAt, he] using hm)
    · cases hr
  | findPlatformSetting =>
    simp only [Stmt.decidesFrom] at hr
    split at hr
    · exact hnow hr
    · cases hr
  | findOrganization id =>
    simp only [Stmt.decidesFrom] at hr
    split at hr
    · exact hnow hr
    · cases hr
  | findConnection id =>
    simp only [Stmt.decidesFrom] at hr
    split at hr
    · exact hnow hr
    · cases hr
  | _ => cases hr

/-- While no load spans a change, every change takes effect when it has returned. -/
theorem kill_switch {deps : Deps Provider} {s₀ : State Provider}
    {tr : List (Occurrence (machine Provider))} {c : Config (machine Provider)}
    (h : Run (Deployed deps) s₀ tr c) (hspan : NoLoadSpans tr) : TakesEffect tr := by
  intro i j l hij hjl k hk _
  obtain ⟨-, hcompleted⟩ := Option.mem_filter_iff.mp hk
  obtain ⟨-, hinvalidates⟩ := Bool.and_eq_true_iff.mp hcompleted
  -- from the write to the invalidation the database only gains changes
  have hreached : tr[i].post.writes ≤ tr[j].pre.writes :=
    ((h.chained.drop i).invariant (fun s => tr[i].post.writes ≤ s.writes)
      (fun o _ hs => Nat.le_trans hs (exec_writes o.stmt)) (Nat.le_refl _)).2 _
        (mem_drop_iff.mpr ⟨j, hij, rfl⟩)
  have hempty : Renewed k tr[i].post.writes tr[j].post :=
    Renewed.of_invalidates hinvalidates hreached
  have hkept : Renewed k tr[i].post.writes tr[l].pre := by
    apply ((h.chained.drop j).invariant (Renewed k tr[i].post.writes) ?_ hempty).2
    · exact mem_drop_iff.mpr ⟨l, hjl, rfl⟩
    · intro o ho hs
      obtain ⟨l', hl', rfl⟩ := mem_drop_iff.mp ho
      exact hs.step (hspan i j l' hij hl' k hk)
  exact hkept.decides

/-! ### Samples -/

def sampleDeps : Deps Unit := ⟨false, aiOrgCacheTtlMs, fun _ => none⟩

def sampleStart : State Unit where
  platformSetting := none
  organization := fun _ => none
  connection := fun _ => none
  writes := 0
  platformCache := none
  cache := fun _ => none

/-- Two calls of an organization around an operator who turns the platform off. -/
def samplePrograms : List (Prog (Stmt Unit) Unit) :=
  [(assertAllowed sampleDeps (some "org")).bind fun _ => .ret (), setPlatformAiDisabled true,
    (assertAllowed sampleDeps (some "org")).bind fun _ => .ret ()]

theorem samplePrograms_deployed : ∀ p ∈ samplePrograms, Deployed sampleDeps p := by
  intro p hp
  simp only [samplePrograms, List.mem_cons, List.not_mem_nil, or_false] at hp
  rcases hp with rfl | rfl | rfl
  · exact .assertAllowed _
  · exact .setPlatform _
  · exact .assertAllowed _

/-- The first call is done before the change, so the second one reads the database. -/
theorem kill_switch_sample :
    ∃ (tr : List (Occurrence (machine Unit))) (c : Config (machine Unit)),
    Run (Deployed sampleDeps) sampleStart tr c ∧ c.state.platformSetting = some true ∧
    TakesEffect tr := by
  have hrun : Run (M := machine Unit) (Deployed sampleDeps) sampleStart _ _ :=
    Run.of_schedule (M := machine Unit) samplePrograms samplePrograms_deployed
      ([0, 0, 0, 0, 0, 0, 0, 0, 1, 1, 2, 2, 2].map (·, ⟨0, true⟩))
  exact ⟨_, _, hrun, by decide +kernel, kill_switch hrun (by unfold NoLoadSpans; decide +kernel)⟩

/-- A call that reads the switch before the change stores what it read after the
invalidation, and the next call finds it in the cache. -/
theorem kill_switch_stale :
    ∃ (tr : List (Occurrence (machine Unit))) (c : Config (machine Unit)),
    Run (Deployed sampleDeps) sampleStart tr c ∧ ¬ TakesEffect tr := by
  have hrun : Run (M := machine Unit) (Deployed sampleDeps) sampleStart _ _ :=
    Run.of_schedule (M := machine Unit) samplePrograms samplePrograms_deployed
      ([0, 0, 1, 1, 0, 2].map (·, ⟨0, true⟩))
  refine ⟨_, _, hrun, fun heffect => ?_⟩
  have hstale := heffect ⟨2, by decide +kernel⟩ ⟨3, by decide +kernel⟩ ⟨5, by decide +kernel⟩
    (by decide +kernel) (by decide +kernel) .platform (by decide +kernel) (by decide +kernel) 0
    (by decide +kernel)
  exact absurd hstale (by decide +kernel)

end Ashbi.Governance
