import Mathlib
import Ashbi.Js
import Ashbi.Numeric.Bits

/-! Base32 of shared secrets, on JavaScript's 32-bit words. -/

namespace Ashbi.Mfa

def base32Alphabet : List Char := "ABCDEFGHIJKLMNOPQRSTUVWXYZ234567".toList

/-- The character at a masked index, which is always below 32. -/
def symbol (index : BitVec 32) : Char := base32Alphabet.getD index.toNat 'A'

/-- The variables of the loop of `base32Encode`; the accumulator is never masked. -/
structure Encoder where
  bits : ℕ := 0
  value : BitVec 32 := 0
  output : List Char := []

/-- The inner `while` loop. -/
def Encoder.drain (e : Encoder) : Encoder :=
  if 5 ≤ e.bits then
    drain { e with
      output := e.output ++ [symbol ((e.value >>> (e.bits - 5)) &&& 31)]
      bits := e.bits - 5 }
  else e
  termination_by e.bits

def Encoder.byte (e : Encoder) (byte : UInt8) : Encoder :=
  drain { e with value := e.value <<< 8 ||| byte.toBitVec.setWidth 32, bits := e.bits + 8 }

/-- RFC 4648 base32 without padding. -/
def base32Encode (buffer : List UInt8) : String :=
  let e := buffer.foldl Encoder.byte {}
  String.ofList
    (if 0 < e.bits then e.output ++ [symbol ((e.value <<< (5 - e.bits)) &&& 31)] else e.output)

/-- One character of `toUpperCase()`. Every character outside ASCII that is not named here
keeps one outside the alphabet and the separators, so that decoding fails as on itself. -/
def upperCase (c : Char) : List Char :=
  match c with
  | 'ß' => ['S', 'S']
  | 'ı' => ['I']
  | 'ſ' => ['S']
  | 'ﬀ' => ['F', 'F']
  | 'ﬁ' => ['F', 'I']
  | 'ﬂ' => ['F', 'L']
  | 'ﬃ' => ['F', 'F', 'I']
  | 'ﬄ' => ['F', 'F', 'L']
  | 'ﬅ' => ['S', 'T']
  | 'ﬆ' => ['S', 'T']
  | c => [c.toUpper]

/-- A character of `[\s=-]`. -/
def isSeparator (c : Char) : Bool := Js.isSpace c || c = '=' || c = '-'

/-- `String(input).toUpperCase().replace(/[\s=-]/g, '')`. -/
def clean (input : String) : List Char :=
  (input.toList.flatMap upperCase).filter fun c => !isSeparator c

/-- The variables of the loop of `base32Decode`. -/
structure Decoder where
  bits : ℕ := 0
  value : BitVec 32 := 0
  bytes : List UInt8 := []

def Decoder.char (d : Decoder) (c : Char) : Except String Decoder :=
  match base32Alphabet.idxOf? c with
  | none => throw "Invalid base32 secret"
  | some index =>
    let value := d.value <<< 5 ||| BitVec.ofNat 32 index
    let bits := d.bits + 5
    if 8 ≤ bits then
      pure { value
             bits := bits - 8
             bytes := d.bytes ++ [UInt8.ofBitVec ((value >>> (bits - 8)).setWidth 8)] }
    else pure { d with value, bits }

def base32Decode (input : String) : Except String (List UInt8) := do
  let d ← (clean input).foldlM Decoder.char {}
  return d.bytes

section Bits

open Bits

def byteBits (b : UInt8) : List Bool := low 8 b.toBitVec

/-- The five bits a character of the alphabet stands for. -/
def charBits (c : Char) : List Bool := low 5 (BitVec.ofNat 32 (base32Alphabet.idxOf c))

@[simp] theorem length_byteBits (b : UInt8) : (byteBits b).length = 8 := length_low _ _

theorem byteBits_injective : Function.Injective byteBits := by
  intro a b h
  apply UInt8.toBitVec_inj.mp
  apply BitVec.eq_of_getLsbD_eq
  exact low_eq_iff.mp h

theorem idxOf_symbol (i : Fin 32) : base32Alphabet.idxOf (symbol (BitVec.ofNat 32 i)) = i := by
  revert i
  decide

/-- The mask leaves one of 32 indices. -/
theorem masked (index : BitVec 32) : ∃ i : Fin 32, index &&& 31 = BitVec.ofNat 32 i := by
  refine ⟨⟨index.toNat % 32, Nat.mod_lt _ (by decide)⟩, ?_⟩
  apply BitVec.eq_of_toNat_eq
  have h : index.toNat &&& 31 = index.toNat % 32 := Nat.and_two_pow_sub_one_eq_mod index.toNat 5
  simp [h]
  omega

theorem symbol_mem (index : BitVec 32) : symbol (index &&& 31) ∈ base32Alphabet := by
  obtain ⟨i, hi⟩ := masked index
  have hall : ∀ i : Fin 32, symbol (BitVec.ofNat 32 i) ∈ base32Alphabet := by decide
  rw [hi]
  exact hall i

/-- A masked index is read back from its character. -/
theorem charBits_symbol (index : BitVec 32) : charBits (symbol (index &&& 31)) = low 5 index := by
  have hmask : low 5 (index &&& 31) = low 5 index := by
    refine low_eq_iff.mpr fun i hi => ?_
    interval_cases i <;> simp
  obtain ⟨i, hi⟩ := masked index
  rw [← hmask, hi, charBits, idxOf_symbol]

/-- The output and the lowest `bits` bits of the accumulator are the bytes read. -/
structure Encoder.Carries (e : Encoder) (bytes : List UInt8) : Prop where
  carried : e.output.flatMap charBits ++ low e.bits e.value = bytes.flatMap byteBits
  symbols : ∀ c ∈ e.output, c ∈ base32Alphabet

theorem Encoder.Carries.drain {e : Encoder} {bytes : List UInt8} (h : e.Carries bytes) :
    e.drain.Carries bytes ∧ e.drain.bits < 5 := by
  fun_induction Encoder.drain e with
  | case1 e hbits ih =>
    refine ih ⟨?_, ?_⟩
    · have hsplit := low_add 5 (e.bits - 5) e.value
      rw [Nat.add_sub_cancel' hbits] at hsplit
      simp only [List.flatMap_append, List.flatMap_singleton, charBits_symbol, ← h.carried, hsplit,
        List.append_assoc]
    · intro c hc
      rcases List.mem_append.mp hc with hc | hc
      · exact h.symbols c hc
      · rw [List.mem_singleton.mp hc]
        exact symbol_mem _
  | case2 e hbits => exact ⟨h, Nat.lt_of_not_le hbits⟩

theorem Encoder.Carries.byte {e : Encoder} {bytes : List UInt8} (h : e.Carries bytes)
    (hbits : e.bits < 5) (b : UInt8) :
    (e.byte b).Carries (bytes ++ [b]) ∧ (e.byte b).bits < 5 := by
  refine Encoder.Carries.drain ⟨?_, h.symbols⟩
  have hhigh : ∀ i, 8 ≤ i → (b.toBitVec.setWidth 32).getLsbD i = false := by
    intro i hi
    simp [hi]
  have hfeed := low_feed (n := e.bits) e.value (b.toBitVec.setWidth 32) (by omega) hhigh
  rw [low_setWidth _ (by decide)] at hfeed
  simp only [hfeed, List.flatMap_append, ← h.carried, byteBits, List.flatMap_singleton,
    List.append_assoc]

theorem Encoder.Carries.bytes {e : Encoder} {bytes : List UInt8} (h : e.Carries bytes)
    (hbits : e.bits < 5) (rest : List UInt8) :
    (rest.foldl Encoder.byte e).Carries (bytes ++ rest) ∧ (rest.foldl Encoder.byte e).bits < 5 := by
  induction rest generalizing e bytes with
  | nil => simpa using ⟨h, hbits⟩
  | cons b rest ih =>
    obtain ⟨hb, hbits'⟩ := h.byte hbits b
    simpa using ih hb hbits'

/-- The characters of an encoding stand for the bytes and fewer than five zeros. -/
theorem base32Encode_bits (buffer : List UInt8) :
    ∃ pad < 5, (base32Encode buffer).toList.flatMap charBits
        = buffer.flatMap byteBits ++ List.replicate pad false ∧
      ∀ c ∈ (base32Encode buffer).toList, c ∈ base32Alphabet := by
  have hstart : Encoder.Carries {} [] := ⟨rfl, by simp⟩
  obtain ⟨h, hbits⟩ := hstart.bytes (by decide) buffer
  simp only [base32Encode, List.nil_append] at h hbits ⊢
  generalize buffer.foldl Encoder.byte {} = e at h hbits ⊢
  by_cases hpos : 0 < e.bits
  · have hpad := low_feed (n := e.bits) (k := 5 - e.bits) e.value 0#32 (by omega) (by simp)
    rw [Nat.add_sub_cancel' (by omega), BitVec.or_zero] at hpad
    have hzero : low (5 - e.bits) 0#32 = List.replicate (5 - e.bits) false := low_zero _
    rw [hzero] at hpad
    refine ⟨5 - e.bits, by omega, ?_, ?_⟩
    · simp only [hpos, if_true, String.toList_ofList, List.flatMap_append, List.flatMap_singleton,
        charBits_symbol, hpad, ← h.carried, List.append_assoc]
    · intro c hc
      simp only [hpos, if_true, String.toList_ofList] at hc
      rcases List.mem_append.mp hc with hc | hc
      · exact h.symbols c hc
      · rw [List.mem_singleton.mp hc]
        exact symbol_mem _
  · refine ⟨0, by decide, ?_, ?_⟩
    · have hnone : e.bits = 0 := by omega
      have hcarried := h.carried
      simp only [hnone, low, List.append_nil] at hcarried
      simp [hpos, hcarried]
    · simpa [hpos] using h.symbols

/-- The bytes and the lowest `bits` bits of the accumulator are the characters read. -/
structure Decoder.Carries (d : Decoder) (chars : List Char) : Prop where
  carried : d.bytes.flatMap byteBits ++ low d.bits d.value = chars.flatMap charBits
  short : d.bits < 8

theorem Decoder.Carries.char {d : Decoder} {chars : List Char} (h : d.Carries chars) {c : Char}
    (hc : c ∈ base32Alphabet) :
    ∃ d', d.char c = .ok d' ∧ d'.Carries (chars ++ [c]) := by
  have hshort := h.short
  have hidx : base32Alphabet.idxOf? c = some (base32Alphabet.idxOf c) :=
    List.findIdx?_eq_some_iff_findIdx_eq.mpr ⟨List.idxOf_lt_length_of_mem hc, rfl⟩
  have hhigh : ∀ i, 5 ≤ i → (BitVec.ofNat 32 (base32Alphabet.idxOf c)).getLsbD i = false := by
    intro i hi
    have hindex : base32Alphabet.idxOf c < 2 ^ 5 := List.idxOf_lt_length_of_mem hc
    simp only [BitVec.getLsbD_ofNat, Nat.testBit_lt_two_pow (Nat.lt_of_lt_of_le hindex
      (Nat.pow_le_pow_right (by decide) hi)), Bool.and_false]
  have hfeed := low_feed (n := d.bits) d.value (BitVec.ofNat 32 (base32Alphabet.idxOf c))
    (by omega) hhigh
  have hcarried : d.bytes.flatMap byteBits
      ++ low (d.bits + 5) (d.value <<< 5 ||| BitVec.ofNat 32 (base32Alphabet.idxOf c))
      = (chars ++ [c]).flatMap charBits := by
    simp only [hfeed, List.flatMap_append, ← h.carried, charBits, List.flatMap_singleton,
      List.append_assoc]
  simp only [Decoder.char, hidx]
  generalize d.value <<< 5 ||| BitVec.ofNat 32 (base32Alphabet.idxOf c) = value at hcarried ⊢
  split
  next hbits =>
    refine ⟨_, rfl, ?_, ?_⟩
    · have hsplit := low_add 8 (d.bits + 5 - 8) value
      rw [Nat.add_sub_cancel' hbits] at hsplit
      rw [← hcarried, hsplit]
      simp [byteBits, low_setWidth]
    · dsimp only
      omega
  next hbits => exact ⟨_, rfl, hcarried, Nat.lt_of_not_le hbits⟩

theorem Decoder.Carries.chars {d : Decoder} {chars : List Char} (h : d.Carries chars)
    {rest : List Char} (hrest : ∀ c ∈ rest, c ∈ base32Alphabet) :
    ∃ d', rest.foldlM Decoder.char d = .ok d' ∧ d'.Carries (chars ++ rest) := by
  induction rest generalizing d chars with
  | nil => exact ⟨d, rfl, by simpa using h⟩
  | cons c rest ih =>
    obtain ⟨d₁, hd₁, h₁⟩ := h.char (hrest c (by simp))
    obtain ⟨d', hd', h'⟩ := ih h₁ fun c hc => hrest c (by simp [hc])
    refine ⟨d', ?_, by simpa using h'⟩
    rw [List.foldlM_cons, hd₁]
    exact hd'

/-- Fewer than eight bits beyond the bytes are dropped. -/
theorem decode_encoded {input : String} {buffer : List UInt8}
    (h : clean input = (base32Encode buffer).toList) : base32Decode input = .ok buffer := by
  obtain ⟨pad, hpad, hbits, hsymbols⟩ := base32Encode_bits buffer
  have hstart : Decoder.Carries {} [] := ⟨rfl, by decide⟩
  obtain ⟨d, hd, hcarries⟩ := hstart.chars hsymbols
  have hcarried := hcarries.carried
  rw [List.nil_append, hbits] at hcarried
  have hlength := congrArg List.length hcarried
  have hshort := hcarries.short
  simp only [List.length_append, length_flatMap length_byteBits, length_low,
    List.length_replicate] at hlength
  obtain ⟨hbytes, -⟩ := List.append_inj hcarried (by
    rw [length_flatMap length_byteBits, length_flatMap length_byteBits]
    omega)
  have hbuffer := flatMap_injective (by decide) length_byteBits byteBits_injective hbytes
  rw [base32Decode, h, hd, ← hbuffer]
  rfl

end Bits

/-- The characters that are not separators, in upper case. -/
def normalized (s : String) : String :=
  String.ofList ((s.toList.filter fun c => !isSeparator c).map Char.toUpper)

theorem upperCase_mem {c : Char} (h : c.toUpper ∈ base32Alphabet) : upperCase c = [c.toUpper] := by
  unfold upperCase
  split <;> first | rfl | exact absurd h (by decide)

theorem alphabet_kept {c : Char} (h : c ∈ base32Alphabet) :
    isSeparator c = false ∧ c.toUpper = c := by
  have hall : ∀ c ∈ base32Alphabet, isSeparator c = false ∧ c.toUpper = c :=
    List.forall_iff_forall_mem.mp (by decide)
  exact hall c h

theorem upperCase_separator {c : Char} (h : isSeparator c = true) : upperCase c = [c] := by
  unfold upperCase
  split
  case h_11 =>
    have hlower : ¬('a'.val ≤ c.val ∧ c.val ≤ 'z'.val) := by
      intro ⟨ha, hz⟩
      have ha' : 97 ≤ c.toNat := UInt32.le_iff_toNat_le.mp ha
      have hz' : c.toNat ≤ 122 := UInt32.le_iff_toNat_le.mp hz
      simp only [isSeparator, Js.isSpace, Js.isSpaceUnit, Bool.or_eq_true, Bool.and_eq_true,
        decide_eq_true_eq,
        List.contains_eq_mem, List.mem_cons, List.not_mem_nil, or_false] at h
      rcases h with (h | rfl) | rfl
      · omega
      · exact absurd ha' (by decide)
      · exact absurd ha' (by decide)
    rw [Char.toUpper, dif_neg hlower]
  all_goals exact absurd h (by decide)

theorem clean_normalized {s : String} (h : ∀ c ∈ (normalized s).toList, c ∈ base32Alphabet) :
    clean s = (normalized s).toList := by
  simp only [clean, normalized, String.toList_ofList] at h ⊢
  generalize s.toList = chars at h ⊢
  induction chars with
  | nil => rfl
  | cons c cs ih =>
    cases hc : isSeparator c with
    | true =>
      simp only [List.filter_cons, hc, Bool.not_true, Bool.false_eq_true, if_false] at h ⊢
      simp [upperCase_separator hc, hc, ih h]
    | false =>
      simp only [List.filter_cons, hc, Bool.not_false, if_true, List.map_cons,
        List.forall_mem_cons] at h ⊢
      simp [upperCase_mem h.1, (alphabet_kept h.1).1, ih h.2]

theorem normalized_encoded (buffer : List UInt8) :
    normalized (base32Encode buffer) = base32Encode buffer := by
  obtain ⟨pad, hpad, hbits, hsymbols⟩ := base32Encode_bits buffer
  apply String.toList_injective
  rw [normalized, String.toList_ofList]
  rw [List.filter_eq_self.mpr fun c hc => by simp [(alphabet_kept (hsymbols c hc)).1]]
  exact (List.map_congr_left fun c hc => (alphabet_kept (hsymbols c hc)).2).trans (List.map_id _)

theorem decode_normalized {s : String} {buffer : List UInt8}
    (h : normalized s = base32Encode buffer) : base32Decode s = .ok buffer := by
  obtain ⟨pad, hpad, hbits, hsymbols⟩ := base32Encode_bits buffer
  refine decode_encoded ?_
  rw [← h] at hsymbols ⊢
  exact clean_normalized hsymbols

theorem base32_inverse :
    (∀ buffer, base32Decode (base32Encode buffer) = .ok buffer) ∧
    ∀ s buffer, normalized s = base32Encode buffer →
      (base32Decode s).map base32Encode = .ok (normalized s) := by
  refine ⟨fun buffer => decode_normalized (normalized_encoded buffer), ?_⟩
  intro s buffer h
  rw [decode_normalized h, h]
  rfl

theorem base32_inverse_mixed :
    (base32Decode "mz xw-6YQ=").map base32Encode = .ok "MZXW6YQ" :=
  base32_inverse.2 "mz xw-6YQ=" [0x66, 0x6f, 0x6f, 0x62] (by decide +kernel)

end Ashbi.Mfa
