import Mathlib.Data.List.Nodup
import Ashbi.Records.Typing

/-! What the validation of field definitions establishes: the active fields stand in an order in
which each is typed by the ones before it. -/

namespace Ashbi.Records

open Checked

variable {N : Type} {P : Platform N} {catalog : Catalog N} {fields : List (Field N)}

/-! ### Expressions -/

@[induction_eliminator]
theorem Expression.induct {motive : Expression N → Prop} (literal : ∀ v, motive (.literal v))
    (field : ∀ key, motive (.field key))
    (operation : ∀ op args, (∀ e ∈ args, motive e) → motive (.operation op args))
    (malformed : ∀ message, motive (.malformed message)) (e : Expression N) : motive e := by
  refine Expression.rec (motive_2 := fun args => ∀ e ∈ args, motive e) literal field operation
    malformed ?_ ?_ e
  · simp
  · intro head tail hhead htail e he
    rcases List.mem_cons.mp he with rfl | he
    · exact hhead
    · exact htail e he

mutual

/-- The nodes of an expression. -/
def Expression.size : Expression N → ℕ
  | .operation _ args => 1 + Expression.sizes args
  | _ => 1

def Expression.sizes : List (Expression N) → ℕ
  | [] => 0
  | e :: rest => e.size + Expression.sizes rest

end

mutual

/-- The operations within which the deepest node of an expression stands. -/
def Expression.height : Expression N → ℕ
  | .operation _ args => Expression.heights args
  | _ => 0

/-- The same for arguments, from the operation that has them. -/
def Expression.heights : List (Expression N) → ℕ
  | [] => 0
  | e :: rest => max (e.height + 1) (Expression.heights rest)

end

/-- An expression has a type where the fields have the types `T`. -/
inductive HasType (P : Platform N) (T : String → Option ResultType) :
    Expression N → ResultType → Prop
  | literal {v t} (h : literalType P v = .ok t) : HasType P T (.literal v) t
  | field {key t} (safe : safeKey key) (h : T key = some t) : HasType P T (.field key) t
  | operation {op args ts t} (least : op.arity.1 ≤ args.length)
      (most : args.length ≤ op.arity.2) (hargs : List.Forall₂ (HasType P T) args ts)
      (h : operationType op ts = .ok t) : HasType P T (.operation op args) t

theorem forall₂_imp_of_mem {α β : Type} {R S : α → β → Prop} {xs : List α} {ys : List β}
    (h : List.Forall₂ R xs ys) (himp : ∀ x ∈ xs, ∀ y, R x y → S x y) : List.Forall₂ S xs ys := by
  induction h with
  | nil => exact .nil
  | cons hxy _ ih =>
    exact .cons (himp _ List.mem_cons_self _ hxy)
      (ih fun x hx => himp x (List.mem_cons_of_mem _ hx))

theorem HasType.mono {T T' : String → Option ResultType} {e : Expression N} {t : ResultType}
    (h : HasType P T e t) (hT : ∀ key t, T key = some t → T' key = some t) :
    HasType P T' e t := by
  induction e generalizing t with
  | literal v =>
    cases h with
    | literal h => exact .literal h
  | field key =>
    cases h with
    | field safe h => exact .field safe (hT _ _ h)
  | operation op args ih =>
    cases h with
    | operation least most hargs h =>
      exact .operation least most (forall₂_imp_of_mem hargs fun a ha t hat => ih a ha hat) h
  | malformed message => cases h

/-! ### The order of the fields -/

/-- A field by its key, of the type `t` where the fields before it have the types `types`. -/
inductive Entry (P : Platform N) (catalog : Catalog N) (fields : List (Field N)) (types : Types)
    (key : String) : ResultType → Prop
  | plain {field t} (found : lookup fields key = some field) (active : field.archived = false)
      (h : scalarType field.type = some t) : Entry P catalog fields types key t
  | formula {field t} (found : lookup fields key = some field) (active : field.archived = false)
      (type : field.type = .formula) (scalar : t ∈ scalars) (size : field.formula.size ≤ 100)
      (height : field.formula.height ≤ 12) (h : HasType P (typeIn types) field.formula t) :
      Entry P catalog fields types key t
  | rollup {field t} (found : lookup fields key = some field) (active : field.archived = false)
      (type : field.type = .rollup) (h : rollupType catalog fields field = .ok t) :
      Entry P catalog fields types key t

/-- The fields found so far, the newest first: each is typed by the ones before it. -/
inductive Ordered (P : Platform N) (catalog : Catalog N) (fields : List (Field N)) : Types → Prop
  | nil : Ordered P catalog fields []
  | cons {types key t} (h : Ordered P catalog fields types) (fresh : typeIn types key = none)
      (entry : Entry P catalog fields types key t) : Ordered P catalog fields ((key, t) :: types)

@[simp] theorem typeIn_nil (key : String) : typeIn [] key = none := rfl

theorem typeIn_cons {types : Types} {key other : String} {t : ResultType} :
    typeIn ((key, t) :: types) other = if other = key then some t else typeIn types other := by
  unfold typeIn
  rw [List.lookup_cons]
  by_cases h : other = key
  · simp [h]
  · rw [if_neg h, beq_false_of_ne h]

/-- The types found later agree with the ones found before. -/
def Below (types types' : Types) : Prop :=
  ∀ key t, typeIn types key = some t → typeIn types' key = some t

theorem Below.refl (types : Types) : Below types types := fun _ _ h => h

theorem Below.trans {a b c : Types} (hab : Below a b) (hbc : Below b c) : Below a c :=
  fun key t h => hbc key t (hab key t h)

theorem Below.cons {types types' : Types} {key : String} {t : ResultType}
    (h : Below types types') (fresh : typeIn types' key = none) :
    Below types ((key, t) :: types') := by
  intro other t' hother
  have hother := h other t' hother
  rw [typeIn_cons, if_neg, hother]
  rintro rfl
  simp [fresh] at hother

/-! ### Soundness -/

/-- A field was read: the order goes on, and the fields being visited are not in it. -/
structure ReadFrom (P : Platform N) (catalog : Catalog N) (fields : List (Field N))
    (visiting : List String) (types types' : Types) : Prop where
  ordered : Ordered P catalog fields types'
  below : Below types types'
  apart : ∀ key ∈ visiting, typeIn types key = none → typeIn types' key = none

theorem ReadFrom.trans {visiting : List String} {a b c : Types}
    (hab : ReadFrom P catalog fields visiting a b)
    (hbc : ReadFrom P catalog fields visiting b c) : ReadFrom P catalog fields visiting a c :=
  ⟨hbc.ordered, hab.below.trans hbc.below,
    fun key hkey h => hbc.apart key hkey (hab.apart key hkey h)⟩

/-- What `read` gives is in the order from then on. -/
def Reads (P : Platform N) (catalog : Catalog N) (fields : List (Field N))
    (visiting : List String) (read : Read) : Prop :=
  ∀ {key types t types'}, Ordered P catalog fields types → read key types = .ok (t, types') →
    ReadFrom P catalog fields visiting types types' ∧ typeIn types' key = some t

section

variable {visiting : List String} {read : Read}

/-- What a visited expression has shown. -/
structure Visited (P : Platform N) (catalog : Catalog N) (fields : List (Field N))
    (visiting : List String) (depth : ℕ) (e : Expression N) (nodes : ℕ) (types : Types)
    (t : ResultType) (nodes' : ℕ) (types' : Types) : Prop where
  reads : ReadFrom P catalog fields visiting types types'
  typed : HasType P (typeIn types') e t
  nodes_eq : nodes' = nodes + e.size
  nodes_le : nodes' ≤ 100
  depth_le : depth + e.height ≤ 12

theorem expressionTypes_sound {depth : ℕ} {args : List (Expression N)}
    (ih : ∀ e ∈ args, ∀ {nodes types t nodes' types'}, Ordered P catalog fields types →
      expressionType P read depth e nodes types = .ok (t, nodes', types') →
      Visited P catalog fields visiting depth e nodes types t nodes' types') :
    ∀ {nodes types ts nodes' types'}, nodes ≤ 100 → depth ≤ 13 → Ordered P catalog fields types →
      expressionTypes P read depth args nodes types = .ok (ts, nodes', types') →
      ReadFrom P catalog fields visiting types types' ∧
        List.Forall₂ (HasType P (typeIn types')) args ts ∧
        nodes' = nodes + Expression.sizes args ∧ nodes' ≤ 100 ∧
        depth + Expression.heights args ≤ 13 := by
  induction args with
  | nil =>
    intro nodes types ts nodes' types' hnodes hdepth ho h
    simp only [expressionTypes, pure_ok, Prod.mk.injEq] at h
    obtain ⟨rfl, rfl, rfl⟩ := h
    exact ⟨⟨ho, .refl _, fun _ _ h => h⟩, .nil, rfl, hnodes, hdepth⟩
  | cons e rest ihrest =>
    intro nodes types ts nodes' types' hnodes hdepth ho h
    simp only [expressionTypes, bind_ok, pure_ok, Prod.exists, Prod.mk.injEq] at h
    obtain ⟨t, nodes₁, types₁, he, ts', nodes₂, types₂, hrest, rfl, rfl, rfl⟩ := h
    have hv := ih e List.mem_cons_self ho he
    obtain ⟨hr, hargs, hn, hle, hd⟩ := ihrest
      (fun e he => ih e (List.mem_cons_of_mem _ he)) hv.nodes_le hdepth hv.reads.ordered hrest
    refine ⟨hv.reads.trans hr, .cons (hv.typed.mono hr.below) hargs, ?_, hle, ?_⟩
    · rw [hn, hv.nodes_eq, Expression.sizes, Nat.add_assoc]
    · have := hv.depth_le
      simp only [Expression.heights]
      omega

theorem expressionType_sound (hread : Reads P catalog fields visiting read) (e : Expression N) :
    ∀ {depth nodes types t nodes' types'}, Ordered P catalog fields types →
      expressionType P read depth e nodes types = .ok (t, nodes', types') →
      Visited P catalog fields visiting depth e nodes types t nodes' types' := by
  induction e with
  | literal v =>
    intro depth nodes types t nodes' types' ho h
    simp only [expressionType, bind_ok, refuse_ok, pure_ok, Prod.mk.injEq] at h
    obtain ⟨-, hsmall, t', ht, rfl, rfl, rfl⟩ := h
    simp only [Bool.or_eq_false_iff, decide_eq_false_iff_not, not_lt] at hsmall
    exact ⟨⟨ho, .refl _, fun _ _ h => h⟩, .literal ht, rfl, by omega, hsmall.2⟩
  | field key =>
    intro depth nodes types t nodes' types' ho h
    simp only [expressionType, bind_ok, refuse_ok, pure_ok, Prod.exists, Prod.mk.injEq] at h
    obtain ⟨-, hsmall, -, hsafe, t', types₁, ht, rfl, rfl, rfl⟩ := h
    simp only [Bool.or_eq_false_iff, decide_eq_false_iff_not, not_lt] at hsmall
    obtain ⟨hr, hkey⟩ := hread ho ht
    exact ⟨hr, .field (by simpa using hsafe) hkey, rfl, by omega, hsmall.2⟩
  | operation op args ih =>
    intro depth nodes types t nodes' types' ho h
    simp only [expressionType, bind_ok, refuse_ok, pure_ok, Prod.exists, Prod.mk.injEq] at h
    obtain ⟨-, hsmall, -, harity, ts, nodes₁, types₁, hargs, t', ht, rfl, rfl, rfl⟩ := h
    simp only [Bool.or_eq_false_iff, decide_eq_false_iff_not, not_lt] at hsmall harity
    obtain ⟨hr, hts, hn, hle, hd⟩ := expressionTypes_sound (fun e he => ih e he)
      (by omega) (by omega) ho hargs
    refine ⟨hr, .operation harity.1 harity.2 hts ht, ?_, hle, ?_⟩
    · rw [hn, Expression.size, Nat.add_assoc]
    · simp only [Expression.height]
      omega
  | malformed message =>
    intro depth nodes types t nodes' types' ho h
    simp only [expressionType, bind_ok, refuse_ok] at h
    obtain ⟨-, -, h⟩ := h
    cases h

end

/-- What a field has shown that was not yet in the order. -/
theorem fieldResult_sound {visiting : List String} {read : Read} {key : String} {field : Field N}
    {types types' : Types} {t : ResultType} (hread : Reads P catalog fields (key :: visiting) read)
    (hfound : lookup fields key = some field) (hactive : field.archived = false)
    (ho : Ordered P catalog fields types)
    (h : fieldResult P catalog fields read field types = .ok (t, types')) :
    ReadFrom P catalog fields (key :: visiting) types types' ∧
      Entry P catalog fields types' key t := by
  unfold fieldResult at h
  cases hscalar : scalarType field.type with
  | some t =>
    simp only [hscalar, pure_ok, Prod.mk.injEq] at h
    obtain ⟨rfl, rfl⟩ := h
    exact ⟨⟨ho, .refl _, fun _ _ h => h⟩, .plain hfound hactive hscalar⟩
  | none =>
    simp only [hscalar] at h
    split at h
    case isTrue htype =>
      simp only [bind_ok, refuse_ok, Prod.exists, pure_ok, Prod.mk.injEq] at h
      obtain ⟨t', nodes, types₂, h, -, hscalars, rfl, rfl⟩ := h
      have hv := expressionType_sound hread field.formula ho h
      refine ⟨hv.reads, .formula hfound hactive htype (by simpa using hscalars) ?_ ?_ hv.typed⟩
      · have := hv.nodes_eq
        have := hv.nodes_le
        omega
      · have := hv.depth_le
        omega
    case isFalse htype =>
      simp only [bind_ok, pure_ok, Prod.mk.injEq] at h
      obtain ⟨t', h, rfl, rfl⟩ := h
      have hrollup : field.type = .rollup := by
        revert hscalar htype
        cases field.type <;> simp [scalarType]
      exact ⟨⟨ho, .refl _, fun _ _ h => h⟩, .rollup hfound hactive hrollup h⟩

theorem fieldType_sound (fuel : ℕ) : ∀ visiting,
    Reads P catalog fields visiting (fieldType P catalog fields fuel visiting) := by
  induction fuel with
  | zero =>
    intro visiting key types types' t _ h
    cases h
  | succ fuel ih =>
    intro visiting key types t types' ho h
    simp only [fieldType, bind_ok, found_ok, Option.filter_eq_some_iff] at h
    obtain ⟨field, ⟨hfound, hactive⟩, h⟩ := h
    cases hknown : typeIn types key with
    | some t' =>
      simp only [hknown, pure_ok, Prod.mk.injEq] at h
      obtain ⟨rfl, rfl⟩ := h
      exact ⟨⟨ho, .refl _, fun _ _ h => h⟩, hknown⟩
    | none =>
      simp only [hknown, bind_ok, refuse_ok, Prod.exists, pure_ok, Prod.mk.injEq] at h
      obtain ⟨-, hfree, t', types₁, h, rfl, rfl⟩ := h
      obtain ⟨hr, hentry⟩ := fieldResult_sound (ih (key :: visiting)) hfound
        (by simpa using hactive) ho h
      have hnone := hr.apart key List.mem_cons_self hknown
      refine ⟨⟨.cons hr.ordered hnone hentry, hr.below.cons hnone, ?_⟩, by simp [typeIn_cons]⟩
      intro other hother hnot
      rw [typeIn_cons, if_neg, hr.apart other (List.mem_cons_of_mem _ hother) hnot]
      rintro rfl
      simp [hother] at hfree

end Ashbi.Records
