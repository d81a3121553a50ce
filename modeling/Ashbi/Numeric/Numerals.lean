import Mathlib.Data.Nat.Digits.Defs
import Mathlib.Data.Nat.Digits.Lemmas

/-! Numerals of a base up to sixteen: the number that digits write, and its one numeral in lower
case without leading zeros. -/

namespace Numerals

def digits : List Char := "0123456789abcdefABCDEF".toList

def digitValue (c : Char) : ℕ :=
  if '0' ≤ c ∧ c ≤ '9' then c.toNat - 48
  else if 'a' ≤ c ∧ c ≤ 'f' then c.toNat - 87
  else c.toNat - 55

def isDigit (b : ℕ) (c : Char) : Bool := digits.contains c && digitValue c < b

/-- The number that digits write, the most significant first. -/
def value (b : ℕ) (cs : List Char) : ℕ := Nat.ofDigits b (cs.reverse.map digitValue)

def numeral (b n : ℕ) : List Char :=
  if n = 0 then ['0'] else (b.digits n).reverse.map Nat.digitChar

/-- Digits without zeros at the front, but the last. -/
def stripZeros : List Char → List Char
  | [] => []
  | [c] => [c]
  | c :: d :: cs => if c = '0' then stripZeros (d :: cs) else c :: d :: cs

variable {b n m : ℕ} {c : Char} {cs : List Char}

/-! ### Digits -/

theorem mem_digits (h : isDigit b c = true) : c ∈ digits ∧ digitValue c < b := by
  simpa [isDigit] using h

theorem digitChar_digitValue (h : c ∈ digits) : Nat.digitChar (digitValue c) = c.toLower := by
  have hall : ∀ c ∈ digits, Nat.digitChar (digitValue c) = c.toLower :=
    List.forall_iff_forall_mem.mp (by decide)
  exact hall c h

theorem digitValue_toLower (h : c ∈ digits) : digitValue c.toLower = digitValue c := by
  have hall : ∀ c ∈ digits, digitValue c.toLower = digitValue c :=
    List.forall_iff_forall_mem.mp (by decide)
  exact hall c h

theorem toLower_mem (h : c ∈ digits) : c.toLower ∈ digits := by
  have hall : ∀ c ∈ digits, c.toLower ∈ digits :=
    List.forall_iff_forall_mem.mp (by decide)
  exact hall c h

theorem digitValue_digitChar (h : n < 16) :
    digitValue (Nat.digitChar n) = n ∧ Nat.digitChar n ∈ digits := by
  have hall : ∀ n < 16, digitValue (Nat.digitChar n) = n ∧ Nat.digitChar n ∈ digits := by decide
  exact hall n h

theorem eq_zero_of_digitValue (h : c ∈ digits) (hzero : digitValue c = 0) : c = '0' := by
  have hall : ∀ c ∈ digits, digitValue c = 0 → c = '0' :=
    List.forall_iff_forall_mem.mp (by decide)
  exact hall c h hzero

/-! ### Numbers -/

theorem value_cons : value b (c :: cs) = value b cs + b ^ cs.length * digitValue c := by
  simp [value, Nat.ofDigits_append]

theorem value_singleton : value b [c] = digitValue c := by
  simp [value]

theorem value_stripZeros : value b (stripZeros cs) = value b cs := by
  induction cs using stripZeros.induct with
  | case1 => rfl
  | case2 c => rfl
  | case3 d cs ih =>
    have hzero : digitValue '0' = 0 := by decide
    rw [stripZeros, if_pos rfl, ih, value_cons (c := '0'), hzero, Nat.mul_zero, Nat.add_zero]
  | case4 c d cs hne => rw [stripZeros, if_neg hne]

theorem value_toLower (h : ∀ c ∈ cs, c ∈ digits) : value b (cs.map Char.toLower) = value b cs := by
  rw [value, ← List.map_reverse, List.map_map, value]
  congr 1
  apply List.map_congr_left
  intro c hc
  exact digitValue_toLower (h c (List.mem_reverse.mp hc))

/-- Where only the last digit may be a zero at the front, and none is a capital, digits are the
numeral of their number. -/
theorem numeral_value (hb : 1 < b) (hdigits : ∀ c ∈ cs, c ∈ digits ∧ digitValue c < b)
    (hlower : ∀ c ∈ cs, c.toLower = c) (hne : cs ≠ [])
    (hzero : cs.length = 1 ∨ cs.head? ≠ some '0') : numeral b (value b cs) = cs := by
  cases cs with
  | nil => exact absurd rfl hne
  | cons c rest =>
    by_cases hc : c = '0'
    · subst hc
      have hrest : rest = [] := by simpa using hzero
      subst hrest
      rw [value_singleton]
      rfl
    · have hdigit := (hdigits c List.mem_cons_self).1
      have hvalue : b.digits (value b (c :: rest)) = (c :: rest).reverse.map digitValue := by
        apply Nat.digits_ofDigits b hb
        · intro d hd
          obtain ⟨e, he, rfl⟩ := List.mem_map.mp hd
          exact (hdigits e (List.mem_reverse.mp he)).2
        · intro _
          simpa using fun h => hc (eq_zero_of_digitValue hdigit h)
      have hpos : value b (c :: rest) ≠ 0 := by
        intro hnone
        rw [hnone, Nat.digits_zero] at hvalue
        simp at hvalue
      rw [numeral, if_neg hpos, hvalue, ← List.map_reverse, List.reverse_reverse, List.map_map]
      conv_rhs => rw [← List.map_id (c :: rest)]
      apply List.map_congr_left
      intro d hd
      exact (digitChar_digitValue (hdigits d hd).1).trans (hlower d hd)

theorem value_numeral (hb : 1 < b) (hle : b ≤ 16) (n : ℕ) : value b (numeral b n) = n := by
  by_cases hn : n = 0
  · subst hn
    rfl
  · rw [numeral, if_neg hn, value, ← List.map_reverse, List.reverse_reverse, List.map_map]
    have hmap : (b.digits n).map (digitValue ∘ Nat.digitChar) = b.digits n := by
      conv_rhs => rw [← List.map_id (b.digits n)]
      apply List.map_congr_left
      intro d hd
      exact (digitValue_digitChar (Nat.lt_of_lt_of_le (Nat.digits_lt_base hb hd) hle)).1
    rw [hmap, Nat.ofDigits_digits]

theorem numeral_injective (hb : 1 < b) (hle : b ≤ 16) (h : numeral b m = numeral b n) : m = n := by
  rw [← value_numeral hb hle m, h, value_numeral hb hle n]

theorem numeral_digits (hb : 1 < b) (hle : b ≤ 16) (h : c ∈ numeral b n) : c ∈ digits := by
  by_cases hn : n = 0
  · subst hn
    obtain rfl := List.mem_singleton.mp h
    decide
  · rw [numeral, if_neg hn] at h
    obtain ⟨d, hd, rfl⟩ := List.mem_map.mp h
    have hlt := Nat.digits_lt_base hb (List.mem_reverse.mp hd)
    exact (digitValue_digitChar (Nat.lt_of_lt_of_le hlt hle)).2

/-! ### Leading zeros -/

theorem stripZeros_subset (h : c ∈ stripZeros cs) : c ∈ cs := by
  induction cs using stripZeros.induct with
  | case1 => exact h
  | case2 d => exact h
  | case3 d cs ih =>
    rw [stripZeros, if_pos rfl] at h
    exact List.mem_cons_of_mem _ (ih h)
  | case4 d e cs hne =>
    rwa [stripZeros, if_neg hne] at h

theorem stripZeros_proper (h : cs ≠ []) : stripZeros cs ≠ [] ∧
    ((stripZeros cs).length = 1 ∨ (stripZeros cs).head? ≠ some '0') := by
  induction cs using stripZeros.induct with
  | case1 => exact absurd rfl h
  | case2 d => exact ⟨List.cons_ne_nil _ _, .inl rfl⟩
  | case3 d cs ih =>
    rw [stripZeros, if_pos rfl]
    exact ih (List.cons_ne_nil _ _)
  | case4 d e cs hne =>
    rw [stripZeros, if_neg hne]
    exact ⟨List.cons_ne_nil _ _, .inr (by simpa using hne)⟩

/-- Lower case without leading zeros is the numeral of the number. -/
theorem stripZeros_toLower (hb : 1 < b) (hdigits : ∀ c ∈ cs, c ∈ digits ∧ digitValue c < b)
    (hne : cs ≠ []) : stripZeros (cs.map Char.toLower) = numeral b (value b cs) := by
  have hmap : cs.map Char.toLower ≠ [] := by simpa using hne
  obtain ⟨hstripped, hzero⟩ := stripZeros_proper hmap
  have hmem : ∀ c ∈ stripZeros (cs.map Char.toLower), ∃ d ∈ cs, d.toLower = c :=
    fun c hc => List.mem_map.mp (stripZeros_subset hc)
  rw [← value_toLower (b := b) fun c hc => (hdigits c hc).1, ← value_stripZeros]
  refine (numeral_value hb ?_ ?_ hstripped hzero).symm
  · intro c hc
    obtain ⟨d, hd, rfl⟩ := hmem c hc
    rw [digitValue_toLower (hdigits d hd).1]
    exact ⟨toLower_mem (hdigits d hd).1, (hdigits d hd).2⟩
  · intro c hc
    obtain ⟨d, hd, rfl⟩ := hmem c hc
    have hall : ∀ e ∈ digits, e.toLower.toLower = e.toLower :=
      List.forall_iff_forall_mem.mp (by decide)
    exact hall d (hdigits d hd).1

end Numerals
