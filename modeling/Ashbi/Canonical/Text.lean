import Mathlib.Data.Nat.Digits.Lemmas
import Mathlib.Data.Rat.Cast.Order
import Mathlib.Tactic.FieldSimp
import Mathlib.Tactic.Linarith
import Mathlib.Tactic.Ring

/-! What `JSON.stringify` writes for strings and numbers. -/

namespace Ashbi.Canonical

/-- A JavaScript string: its code units, paired into characters or not. -/
abbrev Text := List UInt16

def unit (c : Char) : UInt16 := .ofNat c.toNat

def ascii (s : String) : Text := s.toList.map unit

/-- What follows a value: the end, or a comma or bracket of the enclosing value. -/
def Ends (rest : Text) : Prop := ∀ u ∈ rest.head?, u = unit ',' ∨ u = unit ']' ∨ u = unit '}'

/-! ### Strings -/

def isLeading (u : UInt16) : Bool := 0xd800 ≤ u && u ≤ 0xdbff

def isTrailing (u : UInt16) : Bool := 0xdc00 ≤ u && u ≤ 0xdfff

def hexDigit (n : ℕ) : UInt16 := .ofNat (if n < 10 then 48 + n else 87 + n)

def unicodeEscape (u : UInt16) : Text :=
  let n := u.toNat
  [unit '\\', unit 'u', hexDigit (n / 4096), hexDigit (n / 256 % 16), hexDigit (n / 16 % 16),
    hexDigit (n % 16)]

/-- A code unit on its own; a surrogate is then not part of a pair. -/
def escapeUnit (u : UInt16) : Text :=
  if u = 8 then ascii "\\b"
  else if u = 9 then ascii "\\t"
  else if u = 10 then ascii "\\n"
  else if u = 12 then ascii "\\f"
  else if u = 13 then ascii "\\r"
  else if u = unit '"' then ascii "\\\""
  else if u = unit '\\' then ascii "\\\\"
  else if u < 0x20 || isLeading u || isTrailing u then unicodeEscape u
  else [u]

def escape : Text → Text
  | [] => []
  | [u] => escapeUnit u
  | u :: v :: rest =>
    if isLeading u && isTrailing v then u :: v :: escape rest
    else escapeUnit u ++ escape (v :: rest)

/-- `JSON.stringify` of a string. -/
def quote (s : Text) : Text := unit '"' :: escape s ++ [unit '"']

def hexValue (u : UInt16) : ℕ := if u.toNat < 58 then u.toNat - 48 else u.toNat - 87

/-- The unit that a one-letter escape stands for. -/
def named (u : UInt16) : UInt16 :=
  if u = unit 'b' then 8
  else if u = unit 't' then 9
  else if u = unit 'n' then 10
  else if u = unit 'f' then 12
  else if u = unit 'r' then 13
  else u

/-- The units up to the closing quote, and what follows it. -/
def unquote : Text → Option (Text × Text)
  | [] => none
  | u :: rest =>
    if u = unit '"' then some ([], rest)
    else if u = unit '\\' then
      match rest with
      | [] => none
      | v :: rest =>
        if v = unit 'u' then
          match rest with
          | a :: b :: c :: d :: rest =>
            let n := ((hexValue a * 16 + hexValue b) * 16 + hexValue c) * 16 + hexValue d
            (unquote rest).map fun p => (UInt16.ofNat n :: p.1, p.2)
          | _ => none
        else (unquote rest).map fun p => (named v :: p.1, p.2)
    else (unquote rest).map fun p => (u :: p.1, p.2)

theorem hexValue_hexDigit : ∀ n < 16, hexValue (hexDigit n) = n := by decide

theorem unquote_cons (u : UInt16) (rest : Text) : unquote (u :: rest) =
    if u = unit '"' then some ([], rest)
    else if u = unit '\\' then
      match rest with
      | [] => none
      | v :: rest =>
        if v = unit 'u' then
          match rest with
          | a :: b :: c :: d :: rest =>
            let n := ((hexValue a * 16 + hexValue b) * 16 + hexValue c) * 16 + hexValue d
            (unquote rest).map fun p => (UInt16.ofNat n :: p.1, p.2)
          | _ => none
        else (unquote rest).map fun p => (named v :: p.1, p.2)
    else (unquote rest).map fun p => (u :: p.1, p.2) := unquote.eq_def ..

theorem unquote_end (rest : Text) : unquote (unit '"' :: rest) = some ([], rest) := by
  rw [unquote_cons]
  exact if_pos rfl

theorem unquote_plain {u : UInt16} (hq : u ≠ unit '"') (hb : u ≠ unit '\\') (rest : Text) :
    unquote (u :: rest) = (unquote rest).map fun p => (u :: p.1, p.2) := by
  rw [unquote_cons]
  simp only [hq, hb, if_false]

theorem unquote_named {v : UInt16} (hu : v ≠ unit 'u') (rest : Text) :
    unquote (unit '\\' :: v :: rest) = (unquote rest).map fun p => (named v :: p.1, p.2) := by
  rw [unquote_cons]
  dsimp only
  rw [if_neg (by decide), if_pos rfl, if_neg hu]

theorem unquote_unicode (u : UInt16) (rest : Text) :
    unquote (unicodeEscape u ++ rest) = (unquote rest).map fun p => (u :: p.1, p.2) := by
  have hu := u.toNat_lt
  have hvalue : ((u.toNat / 4096 * 16 + u.toNat / 256 % 16) * 16 + u.toNat / 16 % 16) * 16
      + u.toNat % 16 = u.toNat := by omega
  simp only [unicodeEscape, List.cons_append, List.nil_append]
  rw [unquote_cons]
  dsimp only
  rw [if_neg (by decide), if_pos rfl, if_pos rfl, hexValue_hexDigit _ (by omega),
    hexValue_hexDigit _ (by omega),
    hexValue_hexDigit _ (by omega), hexValue_hexDigit _ (by omega), hvalue, UInt16.ofNat_toNat]

theorem unquote_escapeUnit (u : UInt16) (rest : Text) :
    unquote (escapeUnit u ++ rest) = (unquote rest).map fun p => (u :: p.1, p.2) := by
  unfold escapeUnit
  split
  next h => subst h; exact unquote_named (by decide) rest
  split
  next h => subst h; exact unquote_named (by decide) rest
  split
  next h => subst h; exact unquote_named (by decide) rest
  split
  next h => subst h; exact unquote_named (by decide) rest
  split
  next h => subst h; exact unquote_named (by decide) rest
  split
  next h => subst h; exact unquote_named (by decide) rest
  split
  next h => subst h; exact unquote_named (by decide) rest
  split
  next => exact unquote_unicode u rest
  next hq hb _ => exact unquote_plain hq hb rest

theorem surrogate_plain {u : UInt16} (h : isLeading u = true ∨ isTrailing u = true) :
    u ≠ unit '"' ∧ u ≠ unit '\\' := by
  constructor <;>
  · rintro rfl
    exact absurd h (by decide)

theorem unquote_escape (s rest : Text) :
    unquote (escape s ++ unit '"' :: rest) = some (s, rest) := by
  fun_induction escape s with
  | case1 => exact unquote_end rest
  | case2 u =>
    rw [unquote_escapeUnit, unquote_end]
    rfl
  | case3 u v s hpair ih =>
    rw [Bool.and_eq_true] at hpair
    obtain ⟨huq, hub⟩ := surrogate_plain (.inl hpair.1)
    obtain ⟨hvq, hvb⟩ := surrogate_plain (.inr hpair.2)
    rw [List.cons_append, List.cons_append, unquote_plain huq hub, unquote_plain hvq hvb, ih]
    rfl
  | case4 u v s hpair ih =>
    rw [List.append_assoc, unquote_escapeUnit, ih]
    rfl

theorem quote_read {s s' rest rest' : Text} (h : quote s ++ rest = quote s' ++ rest') :
    s = s' ∧ rest = rest' := by
  simp only [quote, List.cons_append, List.append_assoc, List.nil_append,
    List.cons.injEq, true_and] at h
  have hread := unquote_escape s rest
  rw [h, unquote_escape] at hread
  simpa using hread.symm

/-! ### Numbers -/

/-- A finite number as it is written: the shortest digits that stand for it, and how many of
them (or of zeros around them) stand before the decimal point. Zero and minus zero are one. -/
structure Number where
  negative : Bool
  digits : ℕ
  point : ℤ
  shortest : digits = 0 ∨ digits % 10 ≠ 0
  zero : digits = 0 → negative = false ∧ point = 0

/-- The decimal digits, the first of them first. -/
def decimal (n : ℕ) : List ℕ := (Nat.digits 10 n).reverse

/-- The parts of a written number, without its sign. -/
structure Layout where
  whole : List ℕ
  fraction : List ℕ
  exponent : ℤ

/-- The cases of `Number::toString`. -/
def Number.layout (x : Number) : Layout :=
  let ds := decimal x.digits
  if x.digits = 0 then ⟨[0], [], 0⟩
  else if ds.length ≤ x.point ∧ x.point ≤ 21 then
    ⟨ds ++ List.replicate (x.point - ds.length).toNat 0, [], 0⟩
  else if 0 < x.point ∧ x.point ≤ 21 then ⟨ds.take x.point.toNat, ds.drop x.point.toNat, 0⟩
  else if -6 < x.point ∧ x.point ≤ 0 then ⟨[0], List.replicate (-x.point).toNat 0 ++ ds, 0⟩
  else ⟨ds.take 1, ds.drop 1, x.point - 1⟩

def digitUnit (d : ℕ) : UInt16 := .ofNat (48 + d)

def digitsText (ds : List ℕ) : Text := ds.map digitUnit

def fractionText (fraction : List ℕ) : Text :=
  if fraction = [] then [] else unit '.' :: digitsText fraction

def signUnit (exponent : ℤ) : UInt16 := if 0 < exponent then unit '+' else unit '-'

def exponentText (exponent : ℤ) : Text :=
  if exponent = 0 then []
  else unit 'e' :: signUnit exponent :: digitsText (decimal exponent.natAbs)

def Layout.text (l : Layout) : Text :=
  digitsText l.whole ++ (fractionText l.fraction ++ exponentText l.exponent)

/-- `JSON.stringify` of a finite number. -/
def Number.text (x : Number) : Text :=
  if x.negative then unit '-' :: x.layout.text else x.layout.text

/-- The rest does not go on with a digit. -/
def Stops (rest : Text) : Prop := ∀ u ∈ rest.head?, ∀ d < 10, u ≠ digitUnit d

theorem digitUnit_inj {a b : ℕ} (ha : a < 10) (hb : b < 10) (h : digitUnit a = digitUnit b) :
    a = b := by
  have h' := congrArg UInt16.toNat h
  simp only [digitUnit, UInt16.toNat_ofNat'] at h'
  omega

theorem digits_read {ds ds' : List ℕ} {rest rest' : Text} (hds : ∀ d ∈ ds, d < 10)
    (hds' : ∀ d ∈ ds', d < 10) (hrest : Stops rest) (hrest' : Stops rest')
    (h : digitsText ds ++ rest = digitsText ds' ++ rest') : ds = ds' ∧ rest = rest' := by
  induction ds generalizing ds' with
  | nil =>
    cases ds' with
    | nil => exact ⟨rfl, h⟩
    | cons d ds' =>
      simp only [digitsText, List.map_nil, List.nil_append, List.map_cons, List.cons_append] at h
      exact absurd rfl (hrest (digitUnit d) (by simp [h]) d (hds' d (by simp)))
  | cons d ds ih =>
    cases ds' with
    | nil =>
      simp only [digitsText, List.map_nil, List.nil_append, List.map_cons, List.cons_append] at h
      exact absurd rfl (hrest' (digitUnit d) (by simp [← h]) d (hds d (by simp)))
    | cons d' ds' =>
      simp only [digitsText, List.map_cons, List.cons_append, List.cons.injEq] at h
      obtain ⟨htail, hrest⟩ := ih (fun e he => hds e (by simp [he]))
        (fun e he => hds' e (by simp [he])) h.2
      exact ⟨by rw [digitUnit_inj (hds d (by simp)) (hds' d' (by simp)) h.1, htail], hrest⟩

theorem stops_of_head {u : UInt16} {rest : Text} (h : ∀ d < 10, u ≠ digitUnit d) :
    Stops (u :: rest) := by
  intro v hv
  rw [List.head?_cons, Option.mem_some_iff] at hv
  exact hv ▸ h

theorem Ends.stops {rest : Text} (h : Ends rest) : Stops rest := by
  intro u hu
  rcases h u hu with rfl | rfl | rfl <;> decide

theorem exponentText_stops (exponent : ℤ) {rest : Text} (h : Ends rest) :
    Stops (exponentText exponent ++ rest) := by
  unfold exponentText
  split
  · exact h.stops
  · exact stops_of_head (by decide)

theorem fractionText_stops (fraction : List ℕ) {rest : Text} (h : Stops rest) :
    Stops (fractionText fraction ++ rest) := by
  unfold fractionText
  split
  · exact h
  · exact stops_of_head (by decide)

theorem decimal_lt (n : ℕ) : ∀ d ∈ decimal n, d < 10 := by
  intro d hd
  exact Nat.digits_lt_base (by decide) (List.mem_reverse.mp hd)

theorem decimal_inj {n m : ℕ} (h : decimal n = decimal m) : n = m :=
  Nat.digits_inj_iff.mp (List.reverse_injective h)

theorem exponent_read {e e' : ℤ} {rest rest' : Text} (hrest : Ends rest) (hrest' : Ends rest')
    (h : exponentText e ++ rest = exponentText e' ++ rest') : e = e' ∧ rest = rest' := by
  have hclash : ∀ {v : UInt16} {t r : Text}, Ends r → r = unit 'e' :: v :: t → False := by
    intro v t r hr heq
    have := hr (unit 'e') (by simp [heq])
    revert this
    decide
  unfold exponentText at h
  split at h
  next he =>
    split at h
    next he' => exact ⟨he.trans he'.symm, h⟩
    next he' => exact (hclash hrest h).elim
  next he =>
    split at h
    next he' => exact (hclash hrest' h.symm).elim
    next he' =>
      simp only [List.cons_append, List.cons.injEq, true_and] at h
      obtain ⟨hdigits, hend⟩ := digits_read (decimal_lt _) (decimal_lt _) hrest.stops
        hrest'.stops h.2
      have habs := decimal_inj hdigits
      refine ⟨?_, hend⟩
      have hsign := h.1
      unfold signUnit at hsign
      split at hsign <;> split at hsign
      · omega
      · exact absurd hsign (by decide)
      · exact absurd hsign (by decide)
      · omega

theorem fraction_read {f f' : List ℕ} {e e' : ℤ} {rest rest' : Text} (hf : ∀ d ∈ f, d < 10)
    (hf' : ∀ d ∈ f', d < 10) (hrest : Ends rest) (hrest' : Ends rest')
    (h : fractionText f ++ (exponentText e ++ rest) = fractionText f' ++
      (exponentText e' ++ rest')) :
    f = f' ∧ exponentText e ++ rest = exponentText e' ++ rest' := by
  have hclash : ∀ {x : ℤ} {t r : Text}, Ends r → exponentText x ++ r = unit '.' :: t → False := by
    intro x t r hr heq
    unfold exponentText at heq
    split at heq
    · have := hr (unit '.') (by simpa using congrArg List.head? heq)
      revert this
      decide
    · exact absurd (List.cons.inj heq).1 (by decide)
  unfold fractionText at h
  split at h
  next hnil =>
    split at h
    next hnil' => exact ⟨hnil.trans hnil'.symm, h⟩
    next => exact (hclash hrest h).elim
  next =>
    split at h
    next => exact (hclash hrest' h.symm).elim
    next =>
      simp only [List.cons_append, List.cons.injEq, true_and] at h
      exact digits_read hf hf' (exponentText_stops e hrest) (exponentText_stops e' hrest') h

/-- The digits of the parts are digits, and there is one before the point. -/
structure Layout.Proper (l : Layout) : Prop where
  whole : ∀ d ∈ l.whole, d < 10
  nonempty : l.whole ≠ []
  fraction : ∀ d ∈ l.fraction, d < 10

theorem Layout.read {l l' : Layout} (hl : l.Proper) (hl' : l'.Proper) {rest rest' : Text}
    (hrest : Ends rest) (hrest' : Ends rest') (h : l.text ++ rest = l'.text ++ rest') :
    l = l' ∧ rest = rest' := by
  simp only [Layout.text, List.append_assoc] at h
  obtain ⟨hwhole, h⟩ := digits_read hl.whole hl'.whole
    (fractionText_stops _ (exponentText_stops _ hrest))
    (fractionText_stops _ (exponentText_stops _ hrest')) h
  obtain ⟨hfraction, h⟩ := fraction_read hl.fraction hl'.fraction hrest hrest' h
  obtain ⟨hexponent, hend⟩ := exponent_read hrest hrest' h
  refine ⟨?_, hend⟩
  cases l
  cases l'
  simp_all

/-- What digits stand for. -/
def digitsValue (ds : List ℕ) : ℕ := Nat.ofDigits 10 ds.reverse

def Layout.value (l : Layout) : ℚ :=
  digitsValue (l.whole ++ l.fraction) * 10 ^ (l.exponent - l.fraction.length)

theorem decimal_value (n : ℕ) : digitsValue (decimal n) = n := by
  rw [digitsValue, decimal, List.reverse_reverse, Nat.ofDigits_digits]

theorem value_zeros_append (n : ℕ) (ds : List ℕ) :
    digitsValue (List.replicate n 0 ++ ds) = digitsValue ds := by
  rw [digitsValue, List.reverse_append, List.reverse_replicate, Nat.ofDigits_append_replicate_zero,
    digitsValue]

theorem value_append_zeros (ds : List ℕ) (n : ℕ) :
    digitsValue (ds ++ List.replicate n 0) = digitsValue ds * 10 ^ n := by
  rw [digitsValue, List.reverse_append, List.reverse_replicate, Nat.ofDigits_append,
    Nat.ofDigits_replicate_zero, List.length_replicate, Nat.zero_add, Nat.mul_comm, digitsValue]

theorem decimal_ne_nil {n : ℕ} (h : n ≠ 0) : decimal n ≠ [] := by
  simpa [decimal, Nat.digits_eq_nil_iff_eq_zero] using h

theorem Number.layout_proper (x : Number) : x.layout.Proper := by
  have hlt := decimal_lt x.digits
  unfold Number.layout
  dsimp only
  split
  next => exact ⟨by simp, by simp, by simp⟩
  next hdigits =>
    have hne := decimal_ne_nil hdigits
    have hlength : 0 < (decimal x.digits).length := List.length_pos_iff.mpr hne
    have htake : ∀ n, 0 < n → (decimal x.digits).take n ≠ [] := by
      intro n hn
      simp only [ne_eq, List.take_eq_nil_iff, hne, or_false]
      omega
    split
    · refine ⟨?_, by simp [hne], by simp⟩
      intro d hd
      rcases List.mem_append.mp hd with hd | hd
      · exact hlt d hd
      · rw [List.eq_of_mem_replicate hd]
        decide
    split
    · exact ⟨fun d hd => hlt d (List.mem_of_mem_take hd), htake _ (by omega),
        fun d hd => hlt d (List.mem_of_mem_drop hd)⟩
    split
    · refine ⟨by simp, by simp, ?_⟩
      intro d hd
      rcases List.mem_append.mp hd with hd | hd
      · rw [List.eq_of_mem_replicate hd]
        decide
      · exact hlt d hd
    · exact ⟨fun d hd => hlt d (List.mem_of_mem_take hd), htake 1 (by decide),
        fun d hd => hlt d (List.mem_of_mem_drop hd)⟩

theorem Number.layout_value (x : Number) (h : x.digits ≠ 0) :
    x.layout.value = x.digits * 10 ^ (x.point - (decimal x.digits).length) := by
  have hvalue := decimal_value x.digits
  have hlength : 0 < (decimal x.digits).length := List.length_pos_iff.mpr (decimal_ne_nil h)
  unfold Number.layout Layout.value
  dsimp only
  rw [if_neg h]
  split
  next hp =>
    have hexp : (x.point - (decimal x.digits).length).toNat
        = x.point - (decimal x.digits).length := Int.toNat_of_nonneg (by omega)
    rw [List.append_nil, value_append_zeros, hvalue, ← hexp]
    simp
  split
  next hp =>
    rw [List.take_append_drop, hvalue, List.length_drop]
    dsimp only
    congr 2
    omega
  split
  next hp =>
    have hzero : digitsValue ([0] ++ (List.replicate (-x.point).toNat 0 ++ decimal x.digits))
        = x.digits := by
      rw [show [0] = List.replicate 1 0 from rfl, value_zeros_append, value_zeros_append, hvalue]
    rw [hzero, List.length_append, List.length_replicate]
    dsimp only
    congr 2
    omega
  next =>
    rw [List.take_append_drop, hvalue, List.length_drop]
    dsimp only
    congr 2
    omega

theorem shift_eq {s s' : ℕ} {e e' : ℤ} (hs : s % 10 ≠ 0) (hle : e ≤ e')
    (h : (s : ℚ) * 10 ^ e = s' * 10 ^ e') : s = s' ∧ e = e' := by
  obtain ⟨k, rfl⟩ := Int.le.dest hle
  have hpow : (10 : ℚ) ^ e ≠ 0 := zpow_ne_zero _ (by norm_num)
  rw [zpow_add₀ (by norm_num), zpow_natCast, mul_comm ((10 : ℚ) ^ e), ← mul_assoc] at h
  have heq : s = s' * 10 ^ k := by exact_mod_cast mul_right_cancel₀ hpow h
  cases k with
  | zero => simpa using heq
  | succ k =>
    rw [heq, pow_succ, ← mul_assoc, Nat.mul_mod_left] at hs
    exact absurd rfl hs

/-- A number that does not end in a zero is known with its power of ten. -/
theorem shortest_unique {s s' : ℕ} {e e' : ℤ} (hs : s % 10 ≠ 0) (hs' : s' % 10 ≠ 0)
    (h : (s : ℚ) * 10 ^ e = s' * 10 ^ e') : s = s' ∧ e = e' := by
  rcases Int.le_total e e' with hle | hle
  · exact shift_eq hs hle h
  · obtain ⟨hs, he⟩ := shift_eq hs' hle h.symm
    exact ⟨hs.symm, he.symm⟩

theorem layout_value_zero {x : Number} (h : x.digits = 0) : x.layout.value = 0 := by
  simp [Number.layout, Layout.value, h, digitsValue]

theorem Number.layout_inj {x y : Number} (hsign : x.negative = y.negative)
    (h : x.layout = y.layout) : x = y := by
  have hvalue := congrArg Layout.value h
  have hpow : ∀ e : ℤ, (10 : ℚ) ^ e ≠ 0 := fun e => zpow_ne_zero e (by norm_num)
  have hsame : x.digits = y.digits ∧ x.point = y.point := by
    by_cases hx : x.digits = 0 <;> by_cases hy : y.digits = 0
    · exact ⟨hx.trans hy.symm, (x.zero hx).2.trans (y.zero hy).2.symm⟩
    · rw [layout_value_zero hx, y.layout_value hy, eq_comm, mul_eq_zero] at hvalue
      exact absurd hvalue (by simp [hy, hpow])
    · rw [layout_value_zero hy, x.layout_value hx, mul_eq_zero] at hvalue
      exact absurd hvalue (by simp [hx, hpow])
    · rw [x.layout_value hx, y.layout_value hy] at hvalue
      obtain ⟨hdigits, hpoint⟩ := shortest_unique (x.shortest.resolve_left hx)
        (y.shortest.resolve_left hy) hvalue
      rw [hdigits] at hpoint
      exact ⟨hdigits, by omega⟩
  cases x
  cases y
  simp_all

theorem Layout.text_head {l : Layout} (h : l.Proper) (rest : Text) :
    ∃ d < 10, ∃ t, l.text ++ rest = digitUnit d :: t := by
  obtain ⟨whole, fraction, exponent⟩ := l
  cases whole with
  | nil => exact absurd rfl h.nonempty
  | cons d whole => exact ⟨d, h.whole d (by simp), _, rfl⟩

theorem Number.read {x y : Number} {rest rest' : Text} (hrest : Ends rest) (hrest' : Ends rest')
    (h : x.text ++ rest = y.text ++ rest') : x = y ∧ rest = rest' := by
  have hclash : ∀ {l : Layout} {t r : Text}, l.Proper → unit '-' :: t = l.text ++ r → False := by
    intro l t r hl heq
    obtain ⟨d, hd, t', ht'⟩ := Layout.text_head hl r
    have hsign : ∀ d < 10, unit '-' ≠ digitUnit d := by decide
    rw [ht'] at heq
    exact hsign d hd (List.cons.inj heq).1
  unfold Number.text at h
  split at h
  next hx =>
    split at h
    next hy =>
      simp only [List.cons_append, List.cons.injEq, true_and] at h
      obtain ⟨hlayout, hend⟩ := Layout.read x.layout_proper y.layout_proper hrest hrest' h
      exact ⟨Number.layout_inj (hx.trans hy.symm) hlayout, hend⟩
    next => exact (hclash y.layout_proper h).elim
  next hx =>
    split at h
    next => exact (hclash x.layout_proper h.symm).elim
    next hy =>
      obtain ⟨hlayout, hend⟩ := Layout.read x.layout_proper y.layout_proper hrest hrest' h
      exact ⟨Number.layout_inj (by simp_all) hlayout, hend⟩

end Ashbi.Canonical
