import Mathlib.Tactic.Common

/-!
Base64 with the URL alphabet and without padding. Decoding passes over carriage
returns and line feeds, and ignores the bits of the last character that belong
to no byte; so several texts decode to the same bytes, and `encode` gives one of
them.
-/
namespace Microserver.Base64

abbrev Bytes := List UInt8

/-- The character of a six-bit value. -/
def alphabet (v : Nat) : Char :=
  if v < 26 then Char.ofNat (v + 65)
  else if v < 52 then Char.ofNat (v + 71)
  else if v < 62 then Char.ofNat (v - 4)
  else if v = 62 then '-'
  else '_'

/-- The six-bit value of a character of the alphabet. -/
def value (c : Char) : Option Nat :=
  if 'A' ≤ c ∧ c ≤ 'Z' then some (c.toNat - 65)
  else if 'a' ≤ c ∧ c ≤ 'z' then some (c.toNat - 71)
  else if '0' ≤ c ∧ c ≤ '9' then some (c.toNat + 4)
  else if c = '-' then some 62
  else if c = '_' then some 63
  else none

/-- The six-bit values of a sequence of bytes, three bytes at a time. -/
def values : Bytes → List Nat
  | [] => []
  | [a] => [a.toNat / 4, a.toNat % 4 * 16]
  | [a, b] => [a.toNat / 4, a.toNat % 4 * 16 + b.toNat / 16, b.toNat % 16 * 4]
  | a :: b :: c :: rest =>
    a.toNat / 4 :: (a.toNat % 4 * 16 + b.toNat / 16) :: (b.toNat % 16 * 4 + c.toNat / 64) :: c.toNat % 64 :: values rest

/-- `EncodeToString`. -/
def encodeToString (bytes : Bytes) : List Char := (values bytes).map alphabet

/-- The bytes of a sequence of six-bit values, four values at a time. -/
def unpack : List Nat → Option Bytes
  | [] => some []
  | [_] => none
  | [u, v] => some [UInt8.ofNat (u * 4 + v / 16)]
  | [u, v, w] => some [UInt8.ofNat (u * 4 + v / 16), UInt8.ofNat (v % 16 * 16 + w / 4)]
  | u :: v :: w :: x :: rest => (unpack rest).map fun bytes =>
    UInt8.ofNat (u * 4 + v / 16) :: UInt8.ofNat (v % 16 * 16 + w / 4) :: UInt8.ofNat (w % 4 * 64 + x) :: bytes

def isNewline (c : Char) : Bool := c = '\r' || c = '\n'

/-- `DecodeString`. -/
def decodeString (text : List Char) : Option Bytes :=
  ((text.filter fun c => !isNewline c).mapM value).bind unpack

theorem alphabet_facts : ∀ v < 64, value (alphabet v) = some v ∧ isNewline (alphabet v) = false ∧ alphabet v ≠ '.' := by
  decide

theorem values_lt (bytes : Bytes) : ∀ v ∈ values bytes, v < 64 := by
  induction bytes using values.induct with
  | case1 => simp [values]
  | case2 a =>
    have bound := a.toNat_lt
    simp only [values, List.mem_cons, List.not_mem_nil, or_false]
    omega
  | case3 a b =>
    have bound := a.toNat_lt
    have bound' := b.toNat_lt
    simp only [values, List.mem_cons, List.not_mem_nil, or_false]
    omega
  | case4 a b c rest ih =>
    have bound := a.toNat_lt
    have bound' := b.toNat_lt
    have bound'' := c.toNat_lt
    simp only [values, List.mem_cons]
    rintro v (rfl | rfl | rfl | rfl | later)
    · omega
    · omega
    · omega
    · omega
    · exact ih v later

theorem ofNat_of_eq {n : Nat} {a : UInt8} (same : n = a.toNat) : UInt8.ofNat n = a := by
  subst same
  exact UInt8.ofNat_toNat

theorem unpack_values (bytes : Bytes) : unpack (values bytes) = some bytes := by
  induction bytes using values.induct with
  | case1 => rfl
  | case2 a =>
    have first : UInt8.ofNat (a.toNat / 4 * 4 + a.toNat % 4 * 16 / 16) = a := ofNat_of_eq (by omega)
    simp only [values, unpack, first]
  | case3 a b =>
    have bound := b.toNat_lt
    have first : UInt8.ofNat (a.toNat / 4 * 4 + (a.toNat % 4 * 16 + b.toNat / 16) / 16) = a := ofNat_of_eq (by omega)
    have second : UInt8.ofNat ((a.toNat % 4 * 16 + b.toNat / 16) % 16 * 16 + b.toNat % 16 * 4 / 4) = b :=
      ofNat_of_eq (by omega)
    simp only [values, unpack, first, second]
  | case4 a b c rest ih =>
    have bound := b.toNat_lt
    have bound' := c.toNat_lt
    have first : UInt8.ofNat (a.toNat / 4 * 4 + (a.toNat % 4 * 16 + b.toNat / 16) / 16) = a := ofNat_of_eq (by omega)
    have second : UInt8.ofNat ((a.toNat % 4 * 16 + b.toNat / 16) % 16 * 16 + (b.toNat % 16 * 4 + c.toNat / 64) / 4) = b :=
      ofNat_of_eq (by omega)
    have third : UInt8.ofNat ((b.toNat % 16 * 4 + c.toNat / 64) % 4 * 64 + c.toNat % 64) = c := ofNat_of_eq (by omega)
    simp only [values, unpack, ih, Option.map_some, first, second, third]

theorem mapM_value (vs : List Nat) (small : ∀ v ∈ vs, v < 64) : (vs.map alphabet).mapM value = some vs := by
  induction vs with
  | nil => rfl
  | cons v rest ih =>
    obtain ⟨here, later⟩ := List.forall_mem_cons.mp small
    simp [(alphabet_facts v here).1, ih later]

/-- An encoding decodes to what was encoded. -/
theorem decodeString_encodeToString (bytes : Bytes) : decodeString (encodeToString bytes) = some bytes := by
  have small := values_lt bytes
  have plain : (encodeToString bytes).filter (fun c => !isNewline c) = encodeToString bytes := by
    rw [List.filter_eq_self]
    intro c member
    obtain ⟨v, listed, rfl⟩ := List.mem_map.mp member
    simp [(alphabet_facts v (small v listed)).2.1]
  unfold decodeString
  rw [plain, encodeToString, mapM_value _ small, Option.bind_some, unpack_values]

theorem dot_not_mem_encodeToString (bytes : Bytes) : '.' ∉ encodeToString bytes := by
  intro member
  obtain ⟨v, listed, same⟩ := List.mem_map.mp member
  exact (alphabet_facts v (values_lt bytes v listed)).2.2 same

end Microserver.Base64
