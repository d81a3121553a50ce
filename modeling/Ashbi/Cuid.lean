import Mathlib
import Ashbi.Js

/-! The ids that the database client makes. -/

namespace Ashbi

/-- A c with 24 lower case letters and digits. -/
def IsCuid (id : String) : Prop :=
  ∃ tail : List Char, id = String.ofList ('c' :: tail) ∧ tail.length = 24 ∧
    ∀ ch ∈ tail, ch.isLower = true ∨ ch.isDigit = true

namespace IsCuid

variable {id : String}

theorem ne_empty (h : IsCuid id) : id ≠ "" := by
  obtain ⟨tail, rfl, -⟩ := h
  intro hempty
  have hlist := congrArg String.toList hempty
  simp at hlist

theorem length_eq (h : IsCuid id) : Js.length id = 25 := by
  obtain ⟨tail, rfl, hlength, hchars⟩ := h
  have hone : ∀ ch ∈ tail, (if ch.val < 0x10000 then 1 else 2) = 1 := by
    intro ch hch
    refine if_pos ?_
    rcases hchars ch hch with hlower | hdigit
    · simp only [Char.isLower, Bool.and_eq_true, decide_eq_true_eq] at hlower
      exact UInt32.lt_of_le_of_lt hlower.2 (by decide)
    · simp only [Char.isDigit, Bool.and_eq_true, decide_eq_true_eq] at hdigit
      exact UInt32.lt_of_le_of_lt hdigit.2 (by decide)
  rw [Js.length, String.toList_ofList, List.map_cons, List.map_congr_left hone]
  simp [hlength]

theorem ne_of_head {other : String} (h : IsCuid id) (hother : other.toList.head? ≠ some 'c') :
    id ≠ other := by
  obtain ⟨tail, rfl, -⟩ := h
  rintro rfl
  rw [String.toList_ofList] at hother
  exact hother rfl

end IsCuid

/-- A c and one character over and over. -/
def cuidOf (ch : Char) : String := String.ofList ('c' :: List.replicate 24 ch)

theorem cuidOf_isCuid {ch : Char} (h : ch.isLower = true ∨ ch.isDigit = true) :
    IsCuid (cuidOf ch) := by
  refine ⟨List.replicate 24 ch, rfl, List.length_replicate, fun ch' hch => ?_⟩
  obtain rfl := List.eq_of_mem_replicate hch
  exact h

def sampleCuid : String := cuidOf 'a'

theorem sampleCuid_isCuid : IsCuid sampleCuid := cuidOf_isCuid (by decide)

end Ashbi
