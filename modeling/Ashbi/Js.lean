import Mathlib.Algebra.BigOperators.Group.List.Basic
import Mathlib.Algebra.GroupWithZero.Nat
import Mathlib.Data.Int.Notation
import Mathlib.Data.List.DropRight

/-! JavaScript built-ins that differ from Lean's. -/

namespace Ashbi

/-- Milliseconds since the epoch, the precision of `TIMESTAMP(3)`. -/
abbrev Time := ℤ

namespace Js

/-- `String.prototype.length` counts UTF-16 code units. -/
def length (s : String) : ℕ := (s.toList.map fun c => if c.val < 0x10000 then 1 else 2).sum

/-- The code units of one character. -/
def charUnits (c : Char) : List ℕ :=
  if c.toNat < 0x10000 then [c.toNat]
  else [0xd800 + (c.toNat - 0x10000) / 0x400, 0xdc00 + (c.toNat - 0x10000) % 0x400]

/-- The UTF-16 code units, by which texts are compared. -/
def codeUnits (s : String) : List ℕ := s.toList.flatMap charUnits

/-- `\s` of a code unit. -/
def isSpaceUnit (unit : ℕ) : Bool :=
  (9 ≤ unit && unit ≤ 13) || (0x2000 ≤ unit && unit ≤ 0x200a)
    || [0x20, 0xa0, 0x1680, 0x2028, 0x2029, 0x202f, 0x205f, 0x3000, 0xfeff].contains unit

/-- The characters of `\s`. -/
def isSpace (c : Char) : Bool := isSpaceUnit c.toNat

/-- `String.prototype.trim`. -/
def trim (s : String) : String :=
  String.ofList ((s.toList.dropWhile isSpace).reverse.dropWhile isSpace).reverse

/-- The characters that fit into `n` code units. -/
def prefixUnits (n : ℕ) : List Char → List Char
  | [] => []
  | c :: cs =>
    let width := if c.val < 0x10000 then 1 else 2
    if width ≤ n then c :: prefixUnits (n - width) cs else []

/-- `s.slice(0, n)`, without the half of a surrogate pair that `n` would leave. -/
def sliceTo (n : ℕ) (s : String) : String := String.ofList (prefixUnits n s.toList)

/-! ### Code units -/

/-- A text that `trim` leaves nothing of. -/
def isBlank (units : List ℕ) : Bool := units.all isSpaceUnit

theorem length_codeUnits (s : String) : (codeUnits s).length = length s := by
  rw [codeUnits, List.length_flatMap, length]
  congr 1
  apply List.map_congr_left
  intro c _
  unfold charUnits
  have hval : c.toNat < 0x10000 ↔ c.val < 0x10000 := Iff.rfl
  by_cases h : c.toNat < 0x10000
  · rw [if_pos h, if_pos (hval.mp h)]
    rfl
  · rw [if_neg h, if_neg (hval.not.mp h)]
    rfl

/-- Only a character that is a space has code units that are. -/
theorem isSpace_of_units {c : Char} (h : ∀ unit ∈ charUnits c, isSpaceUnit unit = true) :
    isSpace c = true := by
  by_cases hc : c.toNat < 0x10000
  · exact h c.toNat (by simp [charUnits, hc])
  · have hlow := h (0xdc00 + (c.toNat - 0x10000) % 0x400) (by simp [charUnits, hc])
    simp [isSpaceUnit] at hlow
    omega

theorem isBlank_of_trim {s : String} (h : trim s ≠ "") : isBlank (codeUnits s) = false := by
  by_contra hblank
  apply h
  rw [Bool.not_eq_false, isBlank, List.all_eq_true] at hblank
  have hspaces : s.toList.dropWhile isSpace = [] := by
    rw [List.dropWhile_eq_nil_iff]
    intro c hc
    apply isSpace_of_units
    intro unit hunit
    exact hblank unit (List.mem_flatMap.mpr ⟨c, hc, hunit⟩)
  rw [trim, hspaces]
  rfl

/-- A zero code unit is a zero character. -/
theorem zero_mem_codeUnits {s : String} (h : 0 ∈ codeUnits s) : '\u0000' ∈ s.toList := by
  rw [codeUnits] at h
  obtain ⟨c, hc, hunit⟩ := List.mem_flatMap.mp h
  have hzero : c.toNat = 0 := by
    by_cases hlt : c.toNat < 0x10000
    · rw [charUnits, if_pos hlt, List.mem_singleton] at hunit
      exact hunit.symm
    · rw [charUnits, if_neg hlt] at hunit
      simp at hunit
      omega
  have hchar : c = '\u0000' := Char.toNat_inj.mp hzero
  rwa [← hchar]

/-- A string value that is not falsy. -/
def truthy (value : Option String) : Option String := value.filter (· ≠ "")

@[simp] theorem truthy_none : truthy none = none := rfl

@[simp] theorem truthy_some {value : String} (h : value ≠ "") :
    truthy (some value) = some value := by
  simp [truthy, Option.filter, h]

end Js

end Ashbi
