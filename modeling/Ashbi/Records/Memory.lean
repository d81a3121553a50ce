import Ashbi.Records.Reference

/-! The memory of a calculation: what it holds agrees with the verdicts, and of the formulas that
stop at one stored value the first reports it. -/

namespace Ashbi.Records

variable {N α β : Type} {V : String → Outcome N} {C : String → Bool}

/-- What is recorded for a field that came to `o`. -/
def Explains : Outcome N → Except Code (Value N) → Prop
  | .ok value, entry => entry = .ok value
  | .error (.raised (.calculation code)), entry => entry = .error code
  | .error (.stopped _), entry => entry = .error .invalidInput ∨ entry = .error .dependencyError
  | .error (.raised _), _ => False

/-- The field is recorded with an error. -/
def Hit (R : Results N) (key : String) : Prop := ∃ code, R key = some (.error code)

/-- The calculated field is recorded as the one that met the invalid value of `key`. -/
structure Fell (V : String → Outcome N) (C : String → Bool) (R : Results N) (field key : String) :
    Prop where
  calculated : C field
  stopped : V field = .error (.stopped key)
  recorded : R field = some (.error .invalidInput)

/-- The memory between two calculations, or while the error for the value of `pending` is on its
way to the formula that will report it. -/
structure Settled (V : String → Outcome N) (C : String → Bool) (pending : Option String)
    (R : Results N) : Prop where
  explained : ∀ key entry, R key = some entry → Explains (V key) entry
  behind : ∀ f key entry, C f → V f = .error (.stopped key) → R f = some entry →
    Hit R key ∧ pending ≠ some key
  first : ∀ key, C key = false → Hit R key → pending ≠ some key → ∃ f, Fell V C R f key
  once : ∀ key f g, Fell V C R f key → Fell V C R g key → f = g

theorem Settled.empty : Settled V C none fun _ => none where
  explained := fun _ _ h => by cases h
  behind := fun _ _ _ _ _ h => by cases h
  first := fun _ _ ⟨_, h⟩ => by cases h
  once := fun _ _ _ h => by cases h.recorded

/-! ### What is recorded -/

section

variable {R : Results N} {pending : Option String} {key other : String}
  {entry : Except Code (Value N)}

theorem record_same : R.record key entry key = some entry := Function.update_self ..

theorem record_other (h : other ≠ key) : R.record key entry other = R other :=
  Function.update_of_ne h _ _

theorem hit_record_other (h : other ≠ key) : Hit (R.record key entry) other ↔ Hit R other := by
  unfold Hit
  rw [record_other h]

theorem hit_record (hfresh : R key = none) (h : Hit R other) : Hit (R.record key entry) other := by
  rw [hit_record_other]
  · exact h
  · rintro rfl
    obtain ⟨code, h⟩ := h
    rw [hfresh] at h
    cases h

/-- Only the record of the field itself makes it one that fell. -/
theorem Fell.of_record {f k : String} (h : Fell V C (R.record key entry) f k) :
    Fell V C R f k ∨ (f = key ∧ entry = .error .invalidInput) := by
  by_cases hf : f = key
  · subst hf
    have := h.recorded
    rw [record_same] at this
    exact .inr ⟨rfl, Option.some.inj this⟩
  · have := h.recorded
    rw [record_other hf] at this
    exact .inl ⟨h.calculated, h.stopped, this⟩

theorem Fell.record {f k : String} (h : Fell V C R f k) (hfresh : R key = none) :
    Fell V C (R.record key entry) f k := by
  refine ⟨h.calculated, h.stopped, ?_⟩
  rw [record_other]
  · exact h.recorded
  · rintro rfl
    have := h.recorded
    rw [hfresh] at this
    cases this

variable (h : Settled V C pending R) (hfresh : R key = none)
include h hfresh

/-- A record by which no field falls. -/
theorem Settled.record (hexplains : Explains (V key) entry)
    (hbehind : ∀ k, C key → V key = .error (.stopped k) → Hit R k ∧ pending ≠ some k)
    (hentry : C key = false → ∃ value, entry = .ok value)
    (hfell : C key → ∀ k, V key = .error (.stopped k) → entry ≠ .error .invalidInput) :
    Settled V C pending (R.record key entry) where
  explained := by
    intro other e he
    by_cases ho : other = key
    · subst ho
      rw [record_same] at he
      exact Option.some.inj he ▸ hexplains
    · rw [record_other ho] at he
      exact h.explained other e he
  behind := by
    intro f k e hf hv he
    by_cases ho : f = key
    · subst ho
      obtain ⟨hhit, hp⟩ := hbehind k hf hv
      exact ⟨hit_record hfresh hhit, hp⟩
    · rw [record_other ho] at he
      obtain ⟨hhit, hp⟩ := h.behind f k e hf hv he
      exact ⟨hit_record hfresh hhit, hp⟩
  first := by
    intro k hk hhit hp
    have hold : Hit R k := by
      by_cases ho : k = key
      · subst ho
        obtain ⟨value, rfl⟩ := hentry hk
        obtain ⟨code, hcode⟩ := hhit
        rw [record_same] at hcode
        cases hcode
      · exact (hit_record_other ho).mp hhit
    obtain ⟨f, hf⟩ := h.first k hk hold hp
    exact ⟨f, hf.record hfresh⟩
  once := by
    intro k f g hf hg
    rcases hf.of_record with hf' | ⟨rfl, he⟩
    · rcases hg.of_record with hg' | ⟨rfl, he⟩
      · exact h.once k f g hf' hg'
      · exact absurd he (hfell hg.calculated k hg.stopped)
    · exact absurd he (hfell hf.calculated k hf.stopped)

end

section

variable {R : Results N} {key f : String}

/-- The invalid value of a field is met: from now on its error is on its way. -/
theorem Settled.meet (h : Settled V C none R) (hfresh : R key = none) (hkey : C key = false)
    (hv : V key = .error (.stopped key)) :
    Settled V C (some key) (R.record key (.error .invalidInput)) where
  explained := by
    intro other e he
    by_cases ho : other = key
    · subst ho
      rw [record_same] at he
      rw [hv]
      exact .inl (Option.some.inj he).symm
    · rw [record_other ho] at he
      exact h.explained other e he
  behind := by
    intro g k e hg hvg he
    have hne : g ≠ key := by
      rintro rfl
      rw [hkey] at hg
      cases hg
    rw [record_other hne] at he
    obtain ⟨hhit, -⟩ := h.behind g k e hg hvg he
    refine ⟨hit_record hfresh hhit, ?_⟩
    rintro ⟨⟩
    obtain ⟨code, hcode⟩ := hhit
    rw [hfresh] at hcode
    cases hcode
  first := by
    intro k hk hhit hp
    have hne : k ≠ key := by
      rintro rfl
      exact hp rfl
    obtain ⟨g, hg⟩ := h.first k hk ((hit_record_other hne).mp hhit) nofun
    exact ⟨g, hg.record hfresh⟩
  once := by
    intro k g g' hg hg'
    have hold {g : String} (hg : Fell V C (R.record key (.error .invalidInput)) g k) :
        Fell V C R g k := by
      rcases hg.of_record with hg' | ⟨rfl, -⟩
      · exact hg'
      · have := hg.calculated
        rw [hkey] at this
        cases this
    exact h.once k g g' (hold hg) (hold hg')

/-- The formula under way reports the error. -/
theorem Settled.report (h : Settled V C (some key) R) (hfresh : R f = none) (hf : C f)
    (hv : V f = .error (.stopped key)) (hhit : Hit R key) :
    Settled V C none (R.record f (.error .invalidInput)) where
  explained := by
    intro other e he
    by_cases ho : other = f
    · subst ho
      rw [record_same] at he
      rw [hv]
      exact .inl (Option.some.inj he).symm
    · rw [record_other ho] at he
      exact h.explained other e he
  behind := by
    intro g k e hg hvg he
    refine ⟨?_, nofun⟩
    by_cases ho : g = f
    · subst ho
      rw [hv] at hvg
      cases hvg
      exact hit_record hfresh hhit
    · rw [record_other ho] at he
      exact hit_record hfresh (h.behind g k e hg hvg he).1
  first := by
    intro k hk hit hp
    by_cases hkey : k = key
    · subst hkey
      exact ⟨f, hf, hv, record_same⟩
    · have hne : k ≠ f := by
        rintro rfl
        rw [hf] at hk
        cases hk
      obtain ⟨g, hg⟩ := h.first k hk ((hit_record_other hne).mp hit) fun he => by
        cases he
        exact hkey rfl
      exact ⟨g, hg.record hfresh⟩
  once := by
    -- No other field fell at this value: it would have been behind a value that is still pending.
    have hnone {g : String} (hg : Fell V C R g key) : False :=
      (h.behind g key _ hg.calculated hg.stopped hg.recorded).2 rfl
    have hown {k g : String} (hg : Fell V C (R.record f (.error .invalidInput)) g k) :
        Fell V C R g k ∨ (g = f ∧ k = key) := by
      rcases hg.of_record with hg' | ⟨rfl, -⟩
      · exact .inl hg'
      · have := hg.stopped
        rw [hv] at this
        cases this
        exact .inr ⟨rfl, rfl⟩
    intro k g g' hg hg'
    rcases hown hg with hold | ⟨rfl, rfl⟩
    · rcases hown hg' with hold' | ⟨rfl, rfl⟩
      · exact h.once k g g' hold hold'
      · exact (hnone hold).elim
    · rcases hown hg' with hold' | ⟨rfl, -⟩
      · exact (hnone hold').elim
      · rfl

end

/-! ### Computations with a memory -/

/-- What a computation with a memory came to from `R`, where without a memory it comes to `o`. -/
def Came (V : String → Outcome N) (C : String → Bool) (R : Results N) :
    Except Fault α → Except Stop α → Results N → Prop
  | .ok a, r, R' => r = .ok a ∧ Settled V C none R' ∧ ∀ key, C key = false → Hit R' key → Hit R key
  | .error (.stopped key), r, R' => C key = false ∧ Hit R' key ∧
      ((Hit R key ∧ r = .error (calculationFail .dependencyError) ∧ Settled V C none R') ∨
        (¬ Hit R key ∧ r = .error (calculationFail .invalidInput) ∧ Settled V C (some key) R'))
  | .error (.raised (.calculation code)), r, R' =>
      r = .error (calculationFail code) ∧ Settled V C none R'
  | .error (.raised _), _, _ => False

/-- A run of a computation: the memory grows, by fields of `order`. -/
structure Ran (V : String → Outcome N) (C : String → Bool) (order : Types) (o : Except Fault α)
    (R : Results N) (after : Except Stop α × Results N) : Prop where
  grows : ∀ key entry, R key = some entry → after.2 key = some entry
  within : ∀ key, typeIn order key = none → after.2 key = R key
  came : Came V C R o after.1 after.2

/-- With a memory the computation comes to `o`, and to `Q` where it comes to a value. -/
structure Agrees (V : String → Outcome N) (C : String → Bool) (order : Types) (Q : α → Prop)
    (o : Except Fault α) (c : Memo N α) : Prop where
  good : ∀ a, o = .ok a → Q a
  runs : ∀ R, Settled V C none R → Ran V C order o R (c.run.run R)

section

variable {order : Types} {Q : α → Prop} {Q' : β → Prop} {o : Except Fault α} {c : Memo N α}

theorem agrees_pure {a : α} (h : Q a) : Agrees V C order Q (pure a) (pure a) where
  good := by
    rintro _ ⟨⟩
    exact h
  runs := fun _ hR => ⟨fun _ _ h => h, fun _ _ => rfl, rfl, hR, fun _ _ h => h⟩

theorem agrees_fail {code : Code} : Agrees V C order Q
    (.error (.raised (calculationFail code))) (throw (calculationFail code)) where
  good := nofun
  runs := fun _ hR => ⟨fun _ _ h => h, fun _ _ => rfl, rfl, hR⟩

theorem Agrees.wider {order' : Types} (h : Agrees V C order Q o c)
    (hwider : ∀ key, typeIn order' key = none → typeIn order key = none) :
    Agrees V C order' Q o c :=
  ⟨h.good, fun R hR => ⟨(h.runs R hR).grows, fun key hkey => (h.runs R hR).within key
    (hwider key hkey),
    (h.runs R hR).came⟩⟩

theorem hit_grows {R R' : Results N} (h : ∀ key entry, R key = some entry → R' key = some entry)
    {key : String} (hhit : Hit R key) : Hit R' key := by
  obtain ⟨code, hcode⟩ := hhit
  exact ⟨code, h _ _ hcode⟩

/-- After a value the computation goes on from a settled memory in which nothing more is hit. -/
theorem Came.after {R R₁ R₂ : Results N} {o : Except Fault β} {r : Except Stop β}
    (hcalm : ∀ key, C key = false → Hit R₁ key → Hit R key)
    (hgrows : ∀ key entry, R key = some entry → R₁ key = some entry)
    (h : Came V C R₁ o r R₂) : Came V C R o r R₂ := by
  match o with
  | .ok b =>
    obtain ⟨hr, hs, hc⟩ := h
    exact ⟨hr, hs, fun key hkey hhit => hcalm key hkey (hc key hkey hhit)⟩
  | .error (.stopped key) =>
    obtain ⟨hkey, hhit, ⟨hR₁, hr, hs⟩ | ⟨hR₁, hr, hs⟩⟩ := h
    · exact ⟨hkey, hhit, .inl ⟨hcalm key hkey hR₁, hr, hs⟩⟩
    · exact ⟨hkey, hhit, .inr ⟨fun hR => hR₁ (hit_grows hgrows hR), hr, hs⟩⟩
  | .error (.raised (.calculation code)) => exact h
  | .error (.raised (.failure f)) => exact h.elim
  | .error (.raised .mistyped) => exact h.elim
  | .error (.raised .exhausted) => exact h.elim

theorem run_bind_ok {g : α → Memo N β} {R R' : Results N} {a : α}
    (h : c.run.run R = (.ok a, R')) : (c >>= g).run.run R = (g a).run.run R' := by
  change (ExceptT.bindCont g (c.run.run R).1).run (c.run.run R).2 = _
  rw [h]
  rfl

theorem run_bind_error {g : α → Memo N β} {R R' : Results N} {stop : Stop}
    (h : c.run.run R = (.error stop, R')) : (c >>= g).run.run R = (.error stop, R') := by
  change (ExceptT.bindCont g (c.run.run R).1).run (c.run.run R).2 = _
  rw [h]
  rfl

/-- An error is handed on as it is. -/
theorem Came.error {R R' : Results N} {fault : Fault} {r : Except Stop α}
    (h : Came V C R (.error fault : Except Fault α) r R') :
    ∃ stop, r = .error stop ∧
      Came V C R (.error fault : Except Fault β) (.error stop) R' := by
  match fault with
  | .stopped key =>
    obtain ⟨hkey, hhit, ⟨hR, rfl, hs⟩ | ⟨hR, rfl, hs⟩⟩ := h
    · exact ⟨_, rfl, hkey, hhit, .inl ⟨hR, rfl, hs⟩⟩
    · exact ⟨_, rfl, hkey, hhit, .inr ⟨hR, rfl, hs⟩⟩
  | .raised (.calculation code) =>
    obtain ⟨rfl, hs⟩ := h
    exact ⟨_, rfl, rfl, hs⟩
  | .raised (.failure f) => exact h.elim
  | .raised .mistyped => exact h.elim
  | .raised .exhausted => exact h.elim

theorem Agrees.bind {f : α → Except Fault β} {g : α → Memo N β} (h : Agrees V C order Q o c)
    (hf : ∀ a, Q a → Agrees V C order Q' (f a) (g a)) :
    Agrees V C order Q' (o >>= f) (c >>= g) where
  good := by
    intro b hb
    cases o with
    | ok a => exact (hf a (h.good a rfl)).good b hb
    | error fault => cases hb
  runs := by
    intro R hR
    obtain ⟨hgrows, hwithin, hcame⟩ := h.runs R hR
    obtain ⟨⟨r, R₁⟩, hrun⟩ : ∃ x, c.run.run R = x := ⟨_, rfl⟩
    rw [hrun] at hgrows hwithin hcame
    cases o with
    | ok a =>
      obtain ⟨rfl, hs, hcalm⟩ := hcame
      obtain ⟨hgrows', hwithin', hcame'⟩ := (hf a (h.good a rfl)).runs R₁ hs
      rw [run_bind_ok hrun]
      exact ⟨fun key entry hk => hgrows' key entry (hgrows key entry hk),
        fun key hkey => (hwithin' key hkey).trans (hwithin key hkey),
        hcame'.after hcalm hgrows⟩
    | error fault =>
      obtain ⟨stop, hr, hcame'⟩ := hcame.error
      dsimp only at hr
      subst hr
      rw [run_bind_error hrun]
      exact ⟨hgrows, hwithin, hcame'⟩

end

end Ashbi.Records
