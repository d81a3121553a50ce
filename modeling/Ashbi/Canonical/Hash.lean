import Ashbi.Canonical.Json
import Ashbi.Js

/-! The hash of a tool's input. -/

namespace Ashbi.Canonical

mutual

def stableJson : Json → Text
  | .null => ascii "null"
  | .bool true => ascii "true"
  | .bool false => ascii "false"
  | .number value => value.text
  | .string value => quote value
  | .array items => unit '[' :: join (stableItems items) ++ [unit ']']
  | .object fields =>
    let sorted := (stableFields fields).mergeSort fun a b => keyLe a.1 b.1
    unit '{' :: join (sorted.map fun field => entry field.1 field.2) ++ [unit '}']

def stableItems : List Json → List Text
  | [] => []
  | item :: items => stableJson item :: stableItems items

def stableFields : List (Text × Json) → List (Text × Text)
  | [] => []
  | (key, value) :: fields => (key, stableJson value) :: stableFields fields

end

/-- `{ action: tool, input }`. -/
def hashed (tool : Text) (input : Json) : Json :=
  .object [(ascii "action", .string tool), (ascii "input", input)]

/-- A code unit that is not part of a pair, where a text is encoded as UTF-8. -/
def loneChar (u : UInt16) : Char :=
  if isLeading u || isTrailing u then '\ufffd' else Char.ofNat u.toNat

def pairChar (u v : UInt16) : Char :=
  Char.ofNat (0x10000 + (u.toNat - 0xd800) * 0x400 + (v.toNat - 0xdc00))

/-- The characters that are hashed; an unpaired surrogate becomes U+FFFD. -/
def chars : Text → List Char
  | [] => []
  | [u] => [loneChar u]
  | u :: v :: rest =>
    if isLeading u && isTrailing v then pairChar u v :: chars rest
    else loneChar u :: chars (v :: rest)

/-- The text that is hashed. -/
def hashText (tool : Text) (input : Json) : String :=
  String.ofList (chars (stableJson (hashed tool input)))

/-- The hash of the tool name and its normalized input. -/
def toolInputHash (sha256 : String → String) (tool : Text) (input : Json) : String :=
  sha256 (hashText tool input)

theorem stableJson_eq (j : Json) : stableJson j = canonicalJson j := by
  induction j using Json.induct with
  | array items ih =>
    have hitems : stableItems items = canonicalItems items := by
      induction items with
      | nil => rfl
      | cons item items ih' =>
        rw [List.forall_mem_cons] at ih
        rw [stableItems, canonicalItems, ih.1, ih' ih.2]
    rw [stableJson, canonicalJson, hitems]
  | object fields ih =>
    have hfields : stableFields fields = canonicalFields fields := by
      induction fields with
      | nil => rfl
      | cons field fields ih' =>
        rw [List.forall_mem_cons] at ih
        rw [stableFields, canonicalFields, ih.1, ih' ih.2]
    rw [stableJson, canonicalJson, hfields]
  | bool value => cases value <;> rw [stableJson, canonicalJson]
  | _ => rw [stableJson, canonicalJson]

/-! ### Texts without unpaired surrogates -/

inductive WellFormed : Text → Prop
  | nil : WellFormed []
  | plain {u : UInt16} {rest : Text} (leading : isLeading u = false)
    (trailing : isTrailing u = false)
      (tail : WellFormed rest) : WellFormed (u :: rest)
  | pair {u v : UInt16} {rest : Text} (leading : isLeading u = true)
    (trailing : isTrailing v = true)
      (tail : WellFormed rest) : WellFormed (u :: v :: rest)

/-- The code units of characters. -/
def units (cs : List Char) : Text := (cs.flatMap Js.charUnits).map .ofNat

theorem units_cons {c : Char} {cs : List Char} :
    units (c :: cs) = if c.toNat < 0x10000 then .ofNat c.toNat :: units cs
      else .ofNat (0xd800 + (c.toNat - 0x10000) / 0x400)
        :: .ofNat (0xdc00 + (c.toNat - 0x10000) % 0x400) :: units cs := by
  rw [units, List.flatMap_cons, List.map_append, Js.charUnits]
  split <;> rfl

theorem isLeading_iff {u : UInt16} : isLeading u = true ↔ 0xd800 ≤ u.toNat ∧ u.toNat ≤ 0xdbff := by
  simp [isLeading, UInt16.le_iff_toNat_le]

theorem isTrailing_iff {u : UInt16} :
    isTrailing u = true ↔ 0xdc00 ≤ u.toNat ∧ u.toNat ≤ 0xdfff := by
  simp [isTrailing, UInt16.le_iff_toNat_le]

theorem toNat_ofNat {n : ℕ} (h : n.isValidChar) : (Char.ofNat n).toNat = n := by
  rw [Char.ofNat, dif_pos h]
  rfl

theorem loneChar_toNat {u : UInt16} (leading : isLeading u = false)
    (trailing : isTrailing u = false) :
    (loneChar u).toNat = u.toNat := by
  have hlt := u.toNat_lt
  have hnot := leading
  have hnot' := trailing
  rw [Bool.eq_false_iff, ne_eq, isLeading_iff] at hnot
  rw [Bool.eq_false_iff, ne_eq, isTrailing_iff] at hnot'
  rw [loneChar, leading, trailing]
  refine toNat_ofNat ?_
  simp only [Nat.isValidChar]
  omega

theorem pairChar_toNat {u v : UInt16} (leading : isLeading u = true)
    (trailing : isTrailing v = true) :
    (pairChar u v).toNat = 0x10000 + (u.toNat - 0xd800) * 0x400 + (v.toNat - 0xdc00) := by
  rw [isLeading_iff] at leading
  rw [isTrailing_iff] at trailing
  refine toNat_ofNat ?_
  simp only [Nat.isValidChar]
  omega

theorem units_chars {t : Text} (h : WellFormed t) : units (chars t) = t := by
  induction h with
  | nil => rfl
  | @plain u rest leading trailing _ ih =>
    have hlt := u.toNat_lt
    have hchars : chars (u :: rest) = loneChar u :: chars rest := by
      cases rest with
      | nil => rfl
      | cons v rest => rw [chars, leading]; rfl
    rw [hchars, units_cons, loneChar_toNat leading trailing, if_pos (by omega),
      UInt16.ofNat_toNat, ih]
  | @pair u v rest leading trailing _ ih =>
    have hu := isLeading_iff.mp leading
    have hv := isTrailing_iff.mp trailing
    have hhigh :
        0xd800 + (0x10000 + (u.toNat - 0xd800) * 0x400 + (v.toNat - 0xdc00) - 0x10000) / 0x400 =
          u.toNat := by omega
    have hlow :
        0xdc00 + (0x10000 + (u.toNat - 0xd800) * 0x400 + (v.toNat - 0xdc00) - 0x10000) % 0x400 =
          v.toNat := by omega
    have hpair : (isLeading u && isTrailing v) = true := by rw [leading, trailing]; rfl
    rw [chars, if_pos hpair, units_cons, pairChar_toNat leading trailing, if_neg (by omega), hhigh,
      hlow, UInt16.ofNat_toNat, UInt16.ofNat_toNat, ih]

theorem WellFormed.append {s t : Text} (hs : WellFormed s) (ht : WellFormed t) :
    WellFormed (s ++ t) := by
  induction hs with
  | nil => exact ht
  | plain leading trailing _ ih => exact .plain leading trailing ih
  | pair leading trailing _ ih => exact .pair leading trailing ih

/-- No unit of the text is a surrogate. -/
def Plain (t : Text) : Prop := ∀ u ∈ t, isLeading u = false ∧ isTrailing u = false

instance (t : Text) : Decidable (Plain t) :=
  List.decidableBAll (fun u => isLeading u = false ∧ isTrailing u = false) t

theorem Plain.wellFormed {t : Text} (h : Plain t) : WellFormed t := by
  induction t with
  | nil => exact .nil
  | cons u t ih =>
    have hu := h u (by simp)
    exact .plain hu.1 hu.2 (ih fun v hv => h v (by simp [hv]))

theorem Plain.append {s t : Text} (hs : Plain s) (ht : Plain t) : Plain (s ++ t) := by
  intro u hu
  rcases List.mem_append.mp hu with hu | hu
  · exact hs u hu
  · exact ht u hu

theorem digitsText_plain {ds : List ℕ} (h : ∀ d ∈ ds, d < 10) : Plain (digitsText ds) := by
  have hall : ∀ d < 10, isLeading (digitUnit d) = false ∧ isTrailing (digitUnit d) = false := by
    decide
  intro u hu
  obtain ⟨d, hd, rfl⟩ := List.mem_map.mp hu
  exact hall d (h d hd)

theorem Number.text_plain (x : Number) : Plain x.text := by
  have hproper := x.layout_proper
  have hfraction : Plain (fractionText x.layout.fraction) := by
    unfold fractionText
    split
    · decide
    · exact .append (s := [_]) (by decide) (digitsText_plain hproper.fraction)
  have hexponent : Plain (exponentText x.layout.exponent) := by
    unfold exponentText signUnit
    split
    · decide
    · refine .append (s := [_, _]) ?_ (digitsText_plain (decimal_lt _))
      split <;> decide
  have hlayout := (digitsText_plain hproper.whole).append (hfraction.append hexponent)
  unfold Number.text
  split
  · exact .append (s := [_]) (by decide) hlayout
  · exact hlayout

theorem escapeUnit_plain (u : UInt16) : Plain (escapeUnit u) := by
  have hhex : ∀ n < 16, isLeading (hexDigit n) = false ∧ isTrailing (hexDigit n) = false := by
    decide
  have hu := u.toNat_lt
  unfold escapeUnit
  iterate 7
    split
    · decide
  split
  next =>
    intro v hv
    simp only [unicodeEscape, List.mem_cons, List.not_mem_nil, or_false] at hv
    rcases hv with rfl | rfl | rfl | rfl | rfl | rfl
    · decide
    · decide
    all_goals exact hhex _ (by omega)
  next h =>
    intro v hv
    rw [List.mem_singleton.mp hv]
    simp_all

theorem escape_wellFormed (s : Text) : WellFormed (escape s) := by
  fun_induction escape s with
  | case1 => exact .nil
  | case2 u => exact (escapeUnit_plain u).wellFormed
  | case3 u v s hpair ih =>
    rw [Bool.and_eq_true] at hpair
    exact .pair hpair.1 hpair.2 ih
  | case4 u v s hpair ih => exact (escapeUnit_plain u).wellFormed.append ih

theorem quote_wellFormed (s : Text) : WellFormed (quote s) :=
  .append (s := [_]) (Plain.wellFormed (by decide))
    ((escape_wellFormed s).append (Plain.wellFormed (by decide)))

theorem join_wellFormed {parts : List Text} (h : ∀ part ∈ parts, WellFormed part) :
    WellFormed (join parts) := by
  fun_induction join parts with
  | case1 => exact .nil
  | case2 part => exact h part (by simp)
  | case3 part next parts ih =>
    rw [List.forall_mem_cons] at h
    exact h.1.append (.append (s := [_]) (Plain.wellFormed (by decide)) (ih h.2))

theorem canonicalJson_wellFormed (j : Json) : WellFormed (canonicalJson j) := by
  have hbracket : ∀ {a b : UInt16} {t : Text}, Plain [a] → Plain [b] → WellFormed t →
      WellFormed (a :: t ++ [b]) := fun ha hb ht =>
    .append (s := [_]) ha.wellFormed (ht.append hb.wellFormed)
  induction j using Json.induct with
  | null => exact Plain.wellFormed (by decide)
  | bool value => cases value <;> exact Plain.wellFormed (by decide)
  | number value => exact value.text_plain.wellFormed
  | string value => exact quote_wellFormed value
  | array items ih =>
    rw [canonicalJson, canonicalItems_eq]
    refine hbracket (by decide) (by decide) (join_wellFormed ?_)
    intro part hpart
    obtain ⟨item, hitem, rfl⟩ := List.mem_map.mp hpart
    exact ih item hitem
  | object fields ih =>
    rw [canonicalJson_object]
    refine hbracket (by decide) (by decide) (join_wellFormed ?_)
    intro part hpart
    obtain ⟨field, hfield, rfl⟩ := List.mem_map.mp hpart
    exact (quote_wellFormed field.1).append (.append (s := [_]) (Plain.wellFormed (by decide))
      (ih field ((List.mergeSort_perm fields _).mem_iff.mp hfield)))

/-! ### Equal hashes -/

theorem Json.Same.field {fs gs : List (Text × Json)} (h : (Json.object fs).Same (.object gs))
    {f : Text × Json} (hf : f ∈ fs) : ∃ g ∈ gs, SameField f g := by
  cases h with | @object _ _ order order' perm perm' each =>
  have hall := sameFields_iff.mp each
  have hmem : f ∈ order := perm.mem_iff.mp hf
  have hfound : ∃ g ∈ order', SameField f g := by
    clear each perm perm'
    induction hall with
    | nil => cases hmem
    | cons head _ ih =>
      rcases List.mem_cons.mp hmem with rfl | hmem
      · exact ⟨_, by simp, head⟩
      · obtain ⟨g, hg, hfg⟩ := ih hmem
        exact ⟨g, by simp [hg], hfg⟩
  obtain ⟨g, hg, hfg⟩ := hfound
  exact ⟨g, perm'.mem_iff.mpr hg, hfg⟩

theorem hashed_same {tool tool' : Text} {input input' : Json} :
    (hashed tool input).Same (hashed tool' input') ↔ tool = tool' ∧ input.Same input' := by
  have hkeys : ascii "action" ≠ ascii "input" := by decide
  constructor
  · intro h
    obtain ⟨g, hg, hkey, htool⟩ := h.field (f := (ascii "action", .string tool)) (by simp)
    obtain ⟨g', hg', hkey', hinput⟩ := h.field (f := (ascii "input", input)) (by simp)
    simp only [List.mem_cons, List.not_mem_nil, or_false] at hg hg'
    rcases hg with rfl | rfl
    · rcases hg' with rfl | rfl
      · exact absurd hkey'.symm hkeys
      · cases htool
        exact ⟨rfl, hinput⟩
    · exact absurd hkey hkeys
  · intro ⟨htool, hinput⟩
    subst htool
    exact .object (.refl _) (.refl _) (.cons (.string tool) (.cons hinput .nil))

def Value.hashed (tool : Text) (input : Value) : Value where
  json := Canonical.hashed tool input.json
  distinct := by
    refine .object (show [ascii "action", ascii "input"].Nodup by decide) ?_
    simp [input.distinct, Json.Distinct.string]

/-- Two different texts with one hash. -/
def Collide (sha256 : String → String) (s t : String) : Prop := s ≠ t ∧ sha256 s = sha256 t

theorem hashText_eq (tool tool' : Text) (input input' : Value) :
    hashText tool input.json = hashText tool' input'.json ↔
      tool = tool' ∧ input.json.Same input'.json := by
  have hsame : canonicalJson (hashed tool input.json) = canonicalJson (hashed tool' input'.json) ↔
      (hashed tool input.json).Same (hashed tool' input'.json) :=
    canonicalJson_identifies (.hashed tool input) (.hashed tool' input')
  rw [← hashed_same, ← hsame, hashText, hashText, stableJson_eq, stableJson_eq]
  constructor
  · intro h
    have hunits := congrArg units (String.ofList_injective h)
    rwa [units_chars (canonicalJson_wellFormed _),
      units_chars (canonicalJson_wellFormed _)] at hunits
  · intro h
    rw [h]

theorem toolInputHash_eq (sha256 : String → String) (tool tool' : Text) (input input' : Value) :
    toolInputHash sha256 tool input.json = toolInputHash sha256 tool' input'.json ↔
      (tool = tool' ∧ input.json.Same input'.json) ∨
        Collide sha256 (hashText tool input.json) (hashText tool' input'.json) := by
  rw [← hashText_eq]
  constructor
  · intro h
    by_cases htext : hashText tool input.json = hashText tool' input'.json
    · exact .inl htext
    · exact .inr ⟨htext, h⟩
  · rintro (h | h)
    · rw [toolInputHash, h, toolInputHash]
    · exact h.2

/-- Canonical texts and hashes tell values apart, and nothing else. -/
theorem canonical_identity :
    (∀ a b : Value, canonicalJson a.json = canonicalJson b.json ↔ a.json.Same b.json) ∧
    stableJson = canonicalJson ∧
    ∀ (sha256 : String → String) (tool tool' : Text) (input input' : Value),
      toolInputHash sha256 tool input.json = toolInputHash sha256 tool' input'.json ↔
        (tool = tool' ∧ input.json.Same input'.json) ∨
          Collide sha256 (hashText tool input.json) (hashText tool' input'.json) :=
  ⟨canonicalJson_identifies, funext stableJson_eq, toolInputHash_eq⟩

/-- The number 1.5. -/
def oneAndHalf : Number := ⟨false, 15, 1, .inr (by decide), fun h => absurd h (by decide)⟩

example : oneAndHalf.text = ascii "1.5" := by decide +kernel

/-- An object, and the same with its keys the other way round. -/
def sampleObject : Value where
  json := .object [(ascii "rate", .number oneAndHalf), (ascii "note", .null)]
  distinct := .object (by decide) (by simp [Json.Distinct.number, Json.Distinct.null])

def swappedObject : Value where
  json := .object [(ascii "note", .null), (ascii "rate", .number oneAndHalf)]
  distinct := .object (by decide) (by simp [Json.Distinct.number, Json.Distinct.null])

theorem canonical_identity_sample :
    canonicalJson sampleObject.json = canonicalJson swappedObject.json ∧
    ∀ sha256 tool, toolInputHash sha256 tool sampleObject.json =
      toolInputHash sha256 tool swappedObject.json := by
  have hsame : sampleObject.json.Same swappedObject.json :=
    .object (.swap _ _ []) (.refl _) (.cons .null (.cons (.number oneAndHalf) .nil))
  obtain ⟨hidentity, -, hhash⟩ := canonical_identity
  exact ⟨(hidentity sampleObject swappedObject).mpr hsame,
    fun sha256 tool => (hhash sha256 tool tool _ _).mpr (.inl ⟨rfl, hsame⟩)⟩

end Ashbi.Canonical
