import Ashbi.Canonical.Text

/-! JSON with sorted keys, by which payloads and tool inputs are compared. -/

namespace Ashbi.Canonical

/-- A value of `JSON.parse`; the fields of an object stand in some order. -/
inductive Json
  | null
  | bool (value : Bool)
  | number (value : Number)
  | string (value : Text)
  | array (items : List Json)
  | object (fields : List (Text × Json))

/-- No object has two fields with one key. -/
inductive Json.Distinct : Json → Prop
  | null : Distinct .null
  | bool (value : Bool) : Distinct (.bool value)
  | number (value : Number) : Distinct (.number value)
  | string (value : Text) : Distinct (.string value)
  | array {items : List Json} (each : ∀ item ∈ items, Distinct item) : Distinct (.array items)
  | object {fields : List (Text × Json)} (keys : (fields.map Prod.fst).Nodup)
      (each : ∀ field ∈ fields, Distinct field.2) : Distinct (.object fields)

mutual

/-- Equal up to the order of keys, at every level. -/
inductive Json.Same : Json → Json → Prop
  | null : Same .null .null
  | bool (value : Bool) : Same (.bool value) (.bool value)
  | number (value : Number) : Same (.number value) (.number value)
  | string (value : Text) : Same (.string value) (.string value)
  | array {items items' : List Json} (each : SameItems items items') :
      Same (.array items) (.array items')
  | object {fields fields' order order' : List (Text × Json)} (perm : fields.Perm order)
      (perm' : fields'.Perm order') (each : SameFields order order') :
      Same (.object fields) (.object fields')

inductive Json.SameItems : List Json → List Json → Prop
  | nil : SameItems [] []
  | cons {item item' : Json} {items items' : List Json} (head : Same item item')
      (tail : SameItems items items') : SameItems (item :: items) (item' :: items')

inductive Json.SameFields : List (Text × Json) → List (Text × Json) → Prop
  | nil : SameFields [] []
  | cons {key : Text} {value value' : Json} {fields fields' : List (Text × Json)}
      (head : Same value value') (tail : SameFields fields fields') :
      SameFields ((key, value) :: fields) ((key, value') :: fields')

end

/-- The order of `sort()`: by code units. -/
def keyLe (a b : Text) : Bool := a ≤ b

/-- `parts.join(',')`. -/
def join : List Text → Text
  | [] => []
  | [part] => part
  | part :: next :: parts => part ++ unit ',' :: join (next :: parts)

def entry (key text : Text) : Text := quote key ++ unit ':' :: text

mutual

def canonicalJson : Json → Text
  | .null => ascii "null"
  | .bool true => ascii "true"
  | .bool false => ascii "false"
  | .number value => value.text
  | .string value => quote value
  | .array items => unit '[' :: join (canonicalItems items) ++ [unit ']']
  | .object fields =>
    let sorted := (canonicalFields fields).mergeSort fun a b => keyLe a.1 b.1
    unit '{' :: join (sorted.map fun field => entry field.1 field.2) ++ [unit '}']

def canonicalItems : List Json → List Text
  | [] => []
  | item :: items => canonicalJson item :: canonicalItems items

def canonicalFields : List (Text × Json) → List (Text × Text)
  | [] => []
  | (key, value) :: fields => (key, canonicalJson value) :: canonicalFields fields

end

theorem Json.induct {P : Json → Prop} (null : P .null) (bool : ∀ value, P (.bool value))
    (number : ∀ value, P (.number value)) (string : ∀ value, P (.string value))
    (array : ∀ items, (∀ item ∈ items, P item) → P (.array items))
    (object : ∀ fields, (∀ field ∈ fields, P field.2) → P (.object fields)) (j : Json) : P j := by
  match j with
  | .null => exact null
  | .bool value => exact bool value
  | .number value => exact number value
  | .string value => exact string value
  | .array items =>
    exact array items fun item _ => Json.induct null bool number string array object item
  | .object fields =>
    refine object fields fun field hfield => ?_
    have hsize := List.sizeOf_lt_of_mem hfield
    have hpair : sizeOf field.2 < sizeOf field := by
      cases field
      simp
    exact Json.induct null bool number string array object field.2
  termination_by sizeOf j
  decreasing_by
    all_goals
      simp only [Json.array.sizeOf_spec, Json.object.sizeOf_spec]
      try have := List.sizeOf_lt_of_mem ‹_ ∈ items›
      omega

theorem canonicalItems_eq (items : List Json) : canonicalItems items = items.map canonicalJson := by
  induction items with
  | nil => rfl
  | cons item items ih => rw [canonicalItems, ih, List.map_cons]

theorem canonicalFields_eq (fields : List (Text × Json)) :
    canonicalFields fields = fields.map fun field => (field.1, canonicalJson field.2) := by
  induction fields with
  | nil => rfl
  | cons field fields ih => rw [canonicalFields, ih, List.map_cons]

def sortFields {α : Type} (fields : List (Text × α)) : List (Text × α) :=
  fields.mergeSort fun a b => keyLe a.1 b.1

/-- The fields are written in the order of the sorted keys. -/
theorem canonicalJson_object (fields : List (Text × Json)) :
    canonicalJson (.object fields) = unit '{' ::
      join ((sortFields fields).map fun field => entry field.1 (canonicalJson field.2))
        ++ [unit '}'] := by
  have hsort := List.map_mergeSort (r := fun a b => keyLe a.1 b.1)
    (s := fun a b => keyLe a.1 b.1)
    (f := fun field : Text × Json => (field.1, canonicalJson field.2))
    (l := fields) fun _ _ _ _ => rfl
  rw [canonicalJson, canonicalFields_eq, ← hsort, List.map_map]
  rfl

/-! ### Reading -/

/-- The kinds of values, as their first code unit tells them. -/
def Json.kind : Json → ℕ
  | .null => 0
  | .bool true => 1
  | .bool false => 2
  | .number _ => 3
  | .string _ => 4
  | .array _ => 5
  | .object _ => 6

def kindOf (u : UInt16) : ℕ :=
  if u = unit 'n' then 0
  else if u = unit 't' then 1
  else if u = unit 'f' then 2
  else if u = unit '"' then 4
  else if u = unit '[' then 5
  else if u = unit '{' then 6
  else if u = unit ']' ∨ u = unit '}' then 7
  else 3

theorem canonicalJson_head (j : Json) (rest : Text) :
    ∃ u t, canonicalJson j ++ rest = u :: t ∧ kindOf u = j.kind := by
  cases j with
  | null => exact ⟨unit 'n', _, rfl, by decide⟩
  | bool value => cases value <;> exact ⟨_, _, rfl, by decide⟩
  | number value =>
    have hdigit : ∀ d < 10, kindOf (digitUnit d) = 3 := by decide
    rw [canonicalJson, Number.text]
    split
    · exact ⟨unit '-', _, rfl, show kindOf (unit '-') = 3 by decide⟩
    · obtain ⟨d, hd, t, ht⟩ := Layout.text_head value.layout_proper rest
      exact ⟨digitUnit d, t, ht, hdigit d hd⟩
  | string value => exact ⟨unit '"', _, rfl, show kindOf (unit '"') = 4 by decide⟩
  | array items => exact ⟨unit '[', _, rfl, show kindOf (unit '[') = 5 by decide⟩
  | object fields => exact ⟨unit '{', _, rfl, show kindOf (unit '{') = 6 by decide⟩

theorem kind_ne_close (j : Json) : 7 ≠ j.kind := by
  fun_cases Json.kind j <;> decide

theorem same_kind {a b : Json} {rest rest' : Text}
    (h : canonicalJson a ++ rest = canonicalJson b ++ rest') : a.kind = b.kind := by
  obtain ⟨u, t, hu, ha⟩ := canonicalJson_head a rest
  obtain ⟨u', t', hu', hb⟩ := canonicalJson_head b rest'
  rw [hu, hu'] at h
  rw [← ha, ← hb, (List.cons.inj h).1]

/-- A text that is written for each element tells the elements apart, whatever follows. -/
def Readable {α : Type} (f : α → Text) (R : α → α → Prop) (x : α) : Prop :=
  ∀ y rest rest', Ends rest → Ends rest' → f x ++ rest = f y ++ rest' → R x y ∧ rest = rest'

/-- What follows the first element of a list. -/
def joinTail (close : Text) : List Text → Text
  | [] => close
  | part :: parts => unit ',' :: join (part :: parts) ++ close

theorem join_cons (part : Text) (parts : List Text) (close : Text) :
    join (part :: parts) ++ close = part ++ joinTail close parts := by
  cases parts with
  | nil => rfl
  | cons next parts => rw [join, List.append_assoc]; rfl

theorem joinTail_ends {close : Text} (h : Ends close) (parts : List Text) :
    Ends (joinTail close parts) := by
  cases parts with
  | nil => exact h
  | cons part parts =>
    intro u hu
    rw [joinTail, List.cons_append, List.head?_cons, Option.mem_some_iff] at hu
    exact .inl hu.symm

theorem join_read {α : Type} {f : α → Text} {R : α → α → Prop} {close : UInt16}
    (hclose : close = unit ']' ∨ close = unit '}')
    (hhead : ∀ x rest rest', f x ++ rest ≠ close :: rest')
    {xs ys : List α} (hread : ∀ x ∈ xs, Readable f R x) {rest rest' : Text}
    (h : join (xs.map f) ++ close :: rest = join (ys.map f) ++ close :: rest') :
    List.Forall₂ R xs ys ∧ rest = rest' := by
  have hends : ∀ rest, Ends (close :: rest) := by
    intro rest u hu
    rw [List.head?_cons, Option.mem_some_iff] at hu
    subst hu
    exact .inr hclose
  have hcomma : close ≠ unit ',' := by
    rintro rfl
    revert hclose
    decide
  induction xs generalizing ys with
  | nil =>
    cases ys with
    | nil => exact ⟨.nil, (List.cons.inj h).2⟩
    | cons y ys =>
      rw [List.map_cons, join_cons] at h
      exact absurd h.symm (hhead y _ _)
  | cons x xs ih =>
    rw [List.map_cons, join_cons] at h
    cases ys with
    | nil => exact absurd h (hhead x _ _)
    | cons y ys =>
      rw [List.map_cons, join_cons] at h
      obtain ⟨hxy, htail⟩ := hread x (by simp) y _ _ (joinTail_ends (hends _) _)
        (joinTail_ends (hends _) _) h
      have hnext : join (xs.map f) ++ close :: rest = join (ys.map f) ++ close :: rest' := by
        cases xs <;> cases ys
        · exact htail
        · exact absurd (List.cons.inj htail).1 hcomma
        · exact absurd (List.cons.inj htail).1.symm hcomma
        · exact (List.cons.inj htail).2
      obtain ⟨hxs, hrest⟩ := ih (fun z hz => hread z (by simp [hz])) hnext
      exact ⟨.cons hxy hxs, hrest⟩

theorem sameItems_iff {xs ys : List Json} :
    Json.SameItems xs ys ↔ List.Forall₂ Json.Same xs ys := by
  constructor
  · intro h
    induction xs generalizing ys with
    | nil => cases h; exact .nil
    | cons x xs ih => cases h with | cons head tail => exact .cons head (ih tail)
  · intro h
    induction h with
    | nil => exact .nil
    | cons head _ ih => exact .cons head ih

/-- Two fields with one key and equal values. -/
def SameField (f g : Text × Json) : Prop := f.1 = g.1 ∧ Json.Same f.2 g.2

theorem sameFields_iff {fs gs : List (Text × Json)} :
    Json.SameFields fs gs ↔ List.Forall₂ SameField fs gs := by
  constructor
  · intro h
    induction fs generalizing gs with
    | nil => cases h; exact .nil
    | cons f fs ih => cases h with | cons head tail => exact .cons ⟨rfl, head⟩ (ih tail)
  · intro h
    induction h with
    | nil => exact .nil
    | @cons f g fs gs head _ ih =>
      obtain ⟨key, value⟩ := f
      obtain ⟨key', value'⟩ := g
      obtain ⟨rfl, head⟩ := head
      exact .cons head ih

theorem entry_read {f : Text × Json} (h : Readable canonicalJson Json.Same f.2) :
    Readable (fun field : Text × Json => entry field.1 (canonicalJson field.2)) SameField f := by
  intro g rest rest' hrest hrest' heq
  simp only [entry, List.append_assoc, List.cons_append] at heq
  obtain ⟨hkey, heq⟩ := quote_read heq
  obtain ⟨hvalue, hend⟩ := h g.2 rest rest' hrest hrest' (List.cons.inj heq).2
  exact ⟨⟨hkey, hvalue⟩, hend⟩

theorem canonicalJson_read (a : Json) : Readable canonicalJson Json.Same a := by
  induction a using Json.induct with
  | null =>
    intro b rest rest' _ _ h
    have hkind := same_kind h
    cases b with
    | null => exact ⟨.null, List.append_cancel_left h⟩
    | bool value => cases value <;> cases hkind
    | _ => cases hkind
  | bool value =>
    intro b rest rest' _ _ h
    have hkind := same_kind h
    cases b with
    | bool value' =>
      cases value <;> cases value'
      · exact ⟨.bool false, List.append_cancel_left h⟩
      · cases hkind
      · cases hkind
      · exact ⟨.bool true, List.append_cancel_left h⟩
    | _ => cases value <;> cases hkind
  | number value =>
    intro b rest rest' hrest hrest' h
    have hkind := same_kind h
    cases b with
    | number value' =>
      obtain ⟨rfl, hend⟩ := Number.read hrest hrest' h
      exact ⟨.number value, hend⟩
    | bool value => cases value <;> cases hkind
    | _ => cases hkind
  | string value =>
    intro b rest rest' _ _ h
    have hkind := same_kind h
    cases b with
    | string value' =>
      obtain ⟨rfl, hend⟩ := quote_read h
      exact ⟨.string value, hend⟩
    | bool value => cases value <;> cases hkind
    | _ => cases hkind
  | array items ih =>
    intro b rest rest' _ _ h
    have hkind := same_kind h
    cases b with
    | array items' =>
      simp only [canonicalJson, canonicalItems_eq, List.cons_append, List.append_assoc,
        List.nil_append, List.cons.injEq, true_and] at h
      have hhead : ∀ j rest rest', canonicalJson j ++ rest ≠ unit ']' :: rest' := by
        intro j rest rest' heq
        obtain ⟨u, t, hu, hkind⟩ := canonicalJson_head j rest
        have hclose : kindOf (unit ']') = 7 := by decide
        rw [hu] at heq
        rw [(List.cons.inj heq).1, hclose] at hkind
        exact absurd hkind (kind_ne_close j)
      obtain ⟨heach, hend⟩ := join_read (.inl rfl) hhead ih h
      exact ⟨.array (sameItems_iff.mpr heach), hend⟩
    | bool value => cases value <;> cases hkind
    | _ => cases hkind
  | object fields ih =>
    intro b rest rest' _ _ h
    have hkind := same_kind h
    cases b with
    | object fields' =>
      simp only [canonicalJson_object, List.cons_append, List.append_assoc,
        List.nil_append, List.cons.injEq, true_and] at h
      have hperm : ∀ fs : List (Text × Json), fs.Perm (sortFields fs) := fun fs =>
        (List.mergeSort_perm fs _).symm
      have hread : ∀ f ∈ sortFields fields, Readable
          (fun field : Text × Json => entry field.1 (canonicalJson field.2)) SameField f :=
        fun f hf => entry_read (ih f ((hperm fields).mem_iff.mpr hf))
      have hhead : ∀ (f : Text × Json) rest rest',
          entry f.1 (canonicalJson f.2) ++ rest ≠ unit '}' :: rest' := by
        intro f rest rest' heq
        exact absurd (List.cons.inj heq).1 (by decide)
      obtain ⟨heach, hend⟩ := join_read (.inr rfl) hhead hread h
      exact ⟨.object (hperm fields) (hperm fields') (sameFields_iff.mpr heach), hend⟩
    | bool value => cases value <;> cases hkind
    | _ => cases hkind

/-! ### Writing -/

theorem sortFields_perm {fs gs : List (Text × Text)} (hkeys : (fs.map Prod.fst).Nodup)
    (h : fs.Perm gs) : sortFields fs = sortFields gs := by
  have htrans : ∀ a b c : Text × Text, keyLe a.1 b.1 → keyLe b.1 c.1 → keyLe a.1 c.1 := by
    simp only [keyLe, decide_eq_true_eq]
    exact fun _ _ _ => List.le_trans
  have htotal : ∀ a b : Text × Text, (keyLe a.1 b.1 || keyLe b.1 a.1) = true := by
    simp only [keyLe, Bool.or_eq_true, decide_eq_true_eq]
    exact fun a b => List.le_total a.1 b.1
  refine List.Perm.eq_of_pairwise ?_ (List.pairwise_mergeSort htrans htotal fs)
    (List.pairwise_mergeSort htrans htotal gs)
    ((List.mergeSort_perm fs _).trans (h.trans (List.mergeSort_perm gs _).symm))
  intro a b ha hb hab hba
  simp only [keyLe, decide_eq_true_eq] at hab hba
  have ha' : a ∈ fs := (List.mergeSort_perm fs _).mem_iff.mp ha
  have hb' : b ∈ fs := h.mem_iff.mpr ((List.mergeSort_perm gs _).mem_iff.mp hb)
  exact List.inj_on_of_nodup_map hkeys ha' hb' (List.le_antisymm hab hba)

theorem canonicalJson_same {a : Json} : ∀ b : Json, a.Same b → a.Distinct → b.Distinct →
    canonicalJson a = canonicalJson b := by
  induction a using Json.induct with
  | array items ih =>
    intro b hsame hdistinct hdistinct'
    cases hsame with | @array _ items' each =>
    cases hdistinct with | array distinct =>
    cases hdistinct' with | array distinct' =>
    have hitems : items.map canonicalJson = items'.map canonicalJson := by
      have hforall := sameItems_iff.mp each
      clear each
      induction hforall with
      | nil => rfl
      | cons head _ ih' =>
        rw [List.forall_mem_cons] at ih distinct distinct'
        rw [List.map_cons, List.map_cons, ih.1 _ head distinct.1 distinct'.1,
          ih' ih.2 distinct.2 distinct'.2]
    rw [canonicalJson, canonicalJson, canonicalItems_eq, canonicalItems_eq, hitems]
  | object fields ih =>
    intro b hsame hdistinct hdistinct'
    cases hsame with | @object _ fields' order order' perm perm' each =>
    cases hdistinct with | object keys distinct =>
    cases hdistinct' with | object keys' distinct' =>
    have horder : canonicalFields order = canonicalFields order' := by
      replace ih : ∀ f ∈ order, _ := fun f hf => ih f (perm.mem_iff.mpr hf)
      replace distinct : ∀ f ∈ order, _ := fun f hf => distinct f (perm.mem_iff.mpr hf)
      replace distinct' : ∀ f ∈ order', _ := fun f hf => distinct' f (perm'.mem_iff.mpr hf)
      have hforall := sameFields_iff.mp each
      clear each perm perm'
      induction hforall with
      | nil => rfl
      | cons head _ ih' =>
        rw [List.forall_mem_cons] at ih distinct distinct'
        rw [canonicalFields_eq, canonicalFields_eq] at ih' ⊢
        rw [List.map_cons, List.map_cons, head.1, ih.1 _ head.2 distinct.1 distinct'.1,
          ih' ih.2 distinct.2 distinct'.2]
    have hperm : (canonicalFields fields).Perm (canonicalFields fields') := by
      rw [canonicalFields_eq] at horder ⊢
      rw [canonicalFields_eq] at horder ⊢
      exact (perm.map _).trans (horder ▸ (perm'.map _).symm)
    have hkeys : ((canonicalFields fields).map Prod.fst).Nodup := by
      rw [canonicalFields_eq, List.map_map]
      exact keys
    have hsort := sortFields_perm hkeys hperm
    rw [sortFields, sortFields] at hsort
    rw [canonicalJson, canonicalJson, hsort]
  | _ =>
    intro b hsame _ _
    cases hsame
    rfl

/-- A value as JavaScript holds it. -/
structure Value where
  json : Json
  distinct : json.Distinct

/-- Equal texts are equal values, up to the order of keys. -/
theorem canonicalJson_identifies (a b : Value) :
    canonicalJson a.json = canonicalJson b.json ↔ a.json.Same b.json := by
  constructor
  · intro h
    have hends : Ends [] := by simp [Ends]
    exact (canonicalJson_read a.json b.json [] [] hends hends (by rw [h])).1
  · exact fun h => canonicalJson_same _ h a.distinct b.distinct

end Ashbi.Canonical
