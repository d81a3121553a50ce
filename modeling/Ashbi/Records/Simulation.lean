import Ashbi.Records.Memory

/-! With a memory, expressions come to what they come to without. -/

namespace Ashbi.Records

open Checked

variable {N : Type} {P : Platform N} {V : String → Outcome N} {C : String → Bool} {order : Types}

/-- Arguments with a memory agree with the arguments without, each with its type. -/
inductive AgreesAll (P : Platform N) (V : String → Outcome N) (C : String → Bool) (order : Types) :
    List ResultType → List (Outcome N) → List (Memo N (Value N)) → Prop
  | nil : AgreesAll P V C order [] [] []
  | cons {t ts o os c cs} (h : Agrees V C order (Fine P t) o c)
      (rest : AgreesAll P V C order ts os cs) :
      AgreesAll P V C order (t :: ts) (o :: os) (c :: cs)

section

variable {ts : List ResultType} {os : List (Outcome N)} {cs : List (Memo N (Value N))}
  {t : ResultType}

theorem collect_agrees (h : AgreesAll P V C order ts os cs) :
    Agrees V C order (List.Forall₂ (Fine P) ts) (collect (m := Except Fault) os) (collect cs) := by
  induction h with
  | nil => exact agrees_pure .nil
  | cons h _ ih =>
    apply h.bind
    intro v hv
    apply ih.bind
    intro vs hvs
    exact agrees_pure (.cons hv hvs)

theorem coalesce_agrees (h : AgreesAll P V C order ts os cs) (hts : ∀ t' ∈ ts, t' = t) :
    Agrees V C order (Fine P t) (coalesce (m := Except Fault) os) (coalesce cs) := by
  induction h with
  | nil => exact agrees_pure (.inl rfl)
  | cons h _ ih =>
    obtain ⟨rfl, hrest⟩ := List.forall_mem_cons.mp hts
    apply h.bind
    intro v hv
    split
    · exact ih hrest
    · exact agrees_pure hv

/-- Where no argument is null, all arguments are of their types. -/
theorem fits_of_fine {vs : List (Value N)} (h : List.Forall₂ (Fine P) ts vs)
    (hnull : vs.any Value.isNull = false) : List.Forall₂ (Fits P) ts vs := by
  induction h with
  | nil => exact .nil
  | @cons t v _ _ hv _ ih =>
    rw [List.any_cons, Bool.or_eq_false_iff] at hnull
    refine .cons ?_ (ih hnull.2)
    rcases hv with rfl | hv
    · cases hnull.1
    · exact hv

/-- The operators that evaluate all their arguments. -/
theorem operate_eq {m : Type → Type} [Monad m] {raise : Stop → m (Value N)} {op : Op}
    {actions : List (m (Value N))} (hif : op ≠ .if) (hcoalesce : op ≠ .coalesce) :
    operate P raise op actions = (do
      let inputs ← collect actions
      if inputs.any Value.isNull then pure .null
      else
        match apply P op inputs with
        | .ok value => pure value
        | .error stop => raise stop) := by
  cases op <;> first | rfl | exact absurd rfl hif | exact absurd rfl hcoalesce

/-- A condition that is null selects no branch. -/
theorem operate_if_agrees {condition yes no : Outcome N} {condition' yes' no' : Memo N (Value N)}
    (hcondition : Agrees V C order (Fine P .boolean) condition condition')
    (hyes : Agrees V C order (Fine P t) yes yes') (hno : Agrees V C order (Fine P t) no no') :
    Agrees V C order (Fine P t)
      (operate (m := Except Fault) P raiseFault .if [condition, yes, no])
      (operate P throw .if [condition', yes', no']) := by
  apply hcondition.bind
  intro v hv
  rcases hv with rfl | hv
  · exact agrees_pure (.inl rfl)
  · match v, hv with
    | .boolean true, _ => exact hyes
    | .boolean false, _ => exact hno

theorem operate_agrees {op : Op} (h : AgreesAll P V C order ts os cs)
    (hleast : op.arity.1 ≤ ts.length) (hmost : ts.length ≤ op.arity.2)
    (ht : operationType op ts = .ok t) : Agrees V C order (Fine P t)
      (operate (m := Except Fault) P raiseFault op os) (operate P throw op cs) := by
  by_cases hif : op = .if
  · subst hif
    obtain ⟨u, hbranches, hfound⟩ := bind_ok.mp ht
    match h, hleast, hmost, hbranches, hfound with
    | .cons hcondition (.cons hyes (.cons hno .nil)), _, _, hbranches, hfound =>
      simp at hbranches hfound
      obtain ⟨rfl, rfl⟩ := hbranches
      subst hfound
      exact operate_if_agrees hcondition hyes hno
    | .nil, hleast, _, _, _ => exact absurd hleast (by decide)
    | .cons _ .nil, hleast, _, _, _ => exact absurd hleast (by simp [Op.arity])
    | .cons _ (.cons _ .nil), hleast, _, _, _ => exact absurd hleast (by simp [Op.arity])
    | .cons _ (.cons _ (.cons _ (.cons _ _))), _, hmost, _, _ =>
      exact absurd hmost (by simp [Op.arity])
  by_cases hcoalesce : op = .coalesce
  · subst hcoalesce
    exact coalesce_agrees h (matching_some (found_ok.mp ht)).2
  rw [operate_eq hif hcoalesce, operate_eq hif hcoalesce]
  apply (collect_agrees h).bind
  intro vs hvs
  split
  · exact agrees_pure (.inl rfl)
  case isFalse hnull =>
    have hcomputes : Computes (Fine P t) (apply P op vs) :=
      computes_fine (apply_sound hleast hmost
        (fits_of_fine hvs (Bool.eq_false_iff.mpr hnull)) ht hif hcoalesce)
    cases happly : apply P op vs with
    | ok v =>
      rw [happly] at hcomputes
      exact agrees_pure hcomputes
    | error stop =>
      rw [happly] at hcomputes
      obtain ⟨code, rfl⟩ := hcomputes
      exact agrees_fail

end

/-- An expression comes to what it comes to without a memory, and that is of its type. -/
theorem evaluate_agrees {T : String → Option ResultType} {look : String → Outcome N}
    {access : String → Memo N (Value N)} {e : Expression N} {t : ResultType}
    (h : HasType P T e t)
    (hread : ∀ key t, T key = some t → Agrees V C order (Fine P t) (look key) (access key)) :
    Agrees V C order (Fine P t) (evaluate (m := Except Fault) P raiseFault look e)
      (evaluate P throw access e) := by
  induction e generalizing t with
  | literal v =>
    cases h with
    | literal h =>
      refine agrees_pure (.inr ?_)
      cases v with
      | text s =>
        obtain ⟨u, -, h⟩ := bind_ok.mp h
        obtain rfl := pure_ok.mp h
        exact trivial
      | number n =>
        obtain ⟨u, hfinite, h⟩ := bind_ok.mp h
        obtain rfl := pure_ok.mp h
        simpa [Fits] using hfinite
      | boolean b =>
        obtain rfl := pure_ok.mp h
        exact trivial
      | _ => cases h
  | field key =>
    cases h with
    | field _ h => exact hread key t h
  | operation op args ih =>
    cases h with
    | @operation _ _ ts _ hleast hmost hargs ht =>
      have hall : AgreesAll P V C order ts (evaluateAll (m := Except Fault) P raiseFault look args)
          (evaluateAll P throw access args) := by
        clear hleast hmost ht
        induction hargs with
        | nil => exact .nil
        | cons harg _ ihargs =>
          obtain ⟨ihfirst, ihrest⟩ := List.forall_mem_cons.mp ih
          exact .cons (ihfirst harg) (ihargs ihrest)
      rw [hargs.length_eq] at hleast hmost
      exact operate_agrees hall hleast hmost ht
  | malformed message => cases h

end Ashbi.Records
