import Mathlib.Data.String.Basic
import Mathlib.Tactic.Common

/-!
Texts between quotation marks. A text is a sequence of bytes; what is no UTF-8 in
it, what cannot be printed, quotation marks and backslashes are written as escapes,
so that a quoted text can be read back wherever it stands, and two texts are never
quoted alike.
-/
namespace Microserver.Quoting

/-! ### Characters and their bytes -/

/-- The character at the beginning of a text, when there is one. -/
def decodeRune (s : List UInt8) : Option Char := s.toByteArray.utf8DecodeChar? 0

theorem decodeRune_some {s : List UInt8} {c : Char} (decoded : decodeRune s = some c) : ∃ rest, s = String.utf8EncodeChar c ++ rest := by
  obtain ⟨rest, same⟩ := ByteArray.exists_of_utf8DecodeChar?_eq_some decoded
  refine ⟨rest.data.toList, ?_⟩
  have bytes := congrArg (fun b : ByteArray => b.data.toList) same
  simpa only [ByteArray.toList_data_append, List.toList_data_toByteArray] using bytes

/-- A byte below 128 stands for a character of its own. -/
theorem mem_utf8EncodeChar {c : Char} {b : UInt8} (member : b ∈ String.utf8EncodeChar c) (ascii : b.toNat < 128) : c.toNat = b.toNat := by
  have high (n : Nat) (large : 128 ≤ n) (fits : n < 256) : b ≠ UInt8.ofNat n := by
    rintro rfl
    rw [UInt8.toNat_ofNat', Nat.mod_eq_of_lt fits] at ascii
    omega
  unfold String.utf8EncodeChar at member
  dsimp only at member
  split at member
  · rename_i small
    rw [List.mem_singleton.mp member, UInt8.toNat_ofNat', Nat.mod_eq_of_lt (by omega)]
    rfl
  · split at member
    · simp only [List.mem_cons, List.not_mem_nil, or_false] at member
      rcases member with same | same
      · exact absurd same (high _ (by omega) (by omega))
      · exact absurd same (high _ (by omega) (by omega))
    · split at member
      · simp only [List.mem_cons, List.not_mem_nil, or_false] at member
        rcases member with same | same | same
        · exact absurd same (high _ (by omega) (by omega))
        · exact absurd same (high _ (by omega) (by omega))
        · exact absurd same (high _ (by omega) (by omega))
      · simp only [List.mem_cons, List.not_mem_nil, or_false] at member
        rcases member with same | same | same | same
        · exact absurd same (high _ (by omega) (by omega))
        · exact absurd same (high _ (by omega) (by omega))
        · exact absurd same (high _ (by omega) (by omega))
        · exact absurd same (high _ (by omega) (by omega))

theorem utf8EncodeChar_ascii {c : Char} (ascii : c.toNat < 128) : String.utf8EncodeChar c = [UInt8.ofNat c.toNat] := by
  unfold String.utf8EncodeChar
  exact if_pos (Nat.le_of_lt_succ ascii)

/-! ### Hexadecimal digits -/

def hexDigit (n : Nat) : UInt8 := UInt8.ofNat (if n < 10 then 48 + n else 87 + n)

def hexValue (d : UInt8) : Nat := if d.toNat < 58 then d.toNat - 48 else d.toNat - 87

/-- The last `k` hexadecimal digits of a number. -/
def hex : Nat → Nat → List UInt8
  | 0, _ => []
  | k + 1, n => hex k (n / 16) ++ [hexDigit (n % 16)]

def value (ds : List UInt8) : Nat := ds.foldl (fun n d => 16 * n + hexValue d) 0

@[simp] theorem length_hex (k n : Nat) : (hex k n).length = k := by
  induction k generalizing n with
  | zero => rfl
  | succ k ih => rw [hex, List.length_append, ih, List.length_singleton]

theorem hexDigit_spec : ∀ n < 16, hexValue (hexDigit n) = n ∧ 48 ≤ (hexDigit n).toNat := by decide

theorem value_hex (k n : Nat) : value (hex k n) = n % 16 ^ k := by
  induction k generalizing n with
  | zero => exact (Nat.mod_one n).symm
  | succ k ih =>
    obtain ⟨last, -⟩ := hexDigit_spec (n % 16) (Nat.mod_lt n (by decide))
    have front : value (hex k (n / 16) ++ [hexDigit (n % 16)]) = 16 * value (hex k (n / 16)) + hexValue (hexDigit (n % 16)) := by
      rw [value, List.foldl_append]
      rfl
    rw [hex, front, ih, last, Nat.pow_succ']
    exact (Nat.mod_mul.trans (Nat.add_comm _ _)).symm

theorem mem_hex {d : UInt8} {k n : Nat} (member : d ∈ hex k n) : 48 ≤ d.toNat := by
  induction k generalizing n with
  | zero => cases member
  | succ k ih =>
    rcases List.mem_append.mp member with front | last
    · exact ih front
    · rw [List.mem_singleton.mp last]
      exact (hexDigit_spec (n % 16) (Nat.mod_lt n (by decide))).2

/-! ### Quoting -/

/-- A text in characters, and the bytes that belong to none. -/
inductive Piece
  | rune (c : Char)
  | byte (b : UInt8)

def Piece.raw : Piece → List UInt8
  | .rune c => String.utf8EncodeChar c
  | .byte b => [b]

/-- The pieces of a text behind its first `skip` bytes. -/
def pieces : Nat → List UInt8 → List Piece
  | _, [] => []
  | skip + 1, _ :: s => pieces skip s
  | 0, b :: s =>
    match decodeRune (b :: s) with
    | some c => .rune c :: pieces (c.utf8Size - 1) s
    | none => .byte b :: pieces 0 s

/-- `strconv.IsPrint`; from U+0100 on it is a table. -/
def IsPrint (table : Char → Bool) (c : Char) : Bool :=
  if c.toNat < 256 then (32 ≤ c.toNat && c.toNat < 127) || (161 ≤ c.toNat && c.toNat ≠ 173) else table c

/-- The letters of the short escapes. -/
def shorts : List (Nat × UInt8) := [(7, 97), (8, 98), (12, 102), (10, 110), (13, 114), (9, 116), (11, 118)]

def appendEscapedRune (table : Char → Bool) (c : Char) : List UInt8 :=
  if c = '"' ∨ c = '\\' then [92, UInt8.ofNat c.toNat]
  else if IsPrint table c then String.utf8EncodeChar c
  else match shorts.find? fun short => short.1 == c.toNat with
    | some short => [92, short.2]
    | none =>
      if c.toNat < 32 ∨ c.toNat = 127 then 92 :: 120 :: hex 2 c.toNat
      else if c.toNat < 65536 then 92 :: 117 :: hex 4 c.toNat
      else 92 :: 85 :: hex 8 c.toNat

def quotePiece (table : Char → Bool) : Piece → List UInt8
  | .rune c => appendEscapedRune table c
  | .byte b => 92 :: 120 :: hex 2 b.toNat

/-- `%q`. -/
def quote (table : Char → Bool) (s : List UInt8) : List UInt8 := 34 :: ((pieces 0 s).flatMap (quotePiece table) ++ [34])

theorem pieces_raw (s : List UInt8) (skip : Nat) : (pieces skip s).flatMap Piece.raw = s.drop skip := by
  induction s generalizing skip with
  | nil => cases skip <;> rfl
  | cons b s ih =>
    cases skip with
    | succ skip => exact ih skip
    | zero =>
      unfold pieces
      cases decoded : decodeRune (b :: s) with
      | none =>
        show b :: (pieces 0 s).flatMap Piece.raw = b :: s
        rw [ih 0, List.drop_zero]
      | some c =>
        obtain ⟨rest, same⟩ := decodeRune_some decoded
        have length : (String.utf8EncodeChar c).length = c.utf8Size - 1 + 1 := by
          rw [String.length_utf8EncodeChar, Nat.sub_add_cancel c.utf8Size_pos]
        show String.utf8EncodeChar c ++ (pieces (c.utf8Size - 1) s).flatMap Piece.raw = b :: s
        rw [ih, ← List.drop_succ_cons, ← length, same, List.drop_left]

/-! ### Reading back -/

/-- What a short escape stands for. -/
def control (letter : UInt8) : UInt8 :=
  match shorts.find? fun short => short.2 == letter with
  | some short => UInt8.ofNat short.1
  | none => letter

/-- A text that has been quoted from here on, its bytes, and what stands behind. -/
inductive Reads : List UInt8 → List UInt8 → List UInt8 → Prop
  | close {rest} : Reads (34 :: rest) [] rest
  | plain {b q s rest} : b ≠ 34 → b ≠ 92 → Reads q s rest → Reads (b :: q) (b :: s) rest
  | short {letter q s rest} : letter ∉ [120, 117, 85] → Reads q s rest → Reads (92 :: letter :: q) (control letter :: s) rest
  | byte {q s rest} : Reads (q.drop 2) s rest → Reads (92 :: 120 :: q) (UInt8.ofNat (value (q.take 2)) :: s) rest
  | rune {q s rest} : Reads (q.drop 4) s rest →
      Reads (92 :: 117 :: q) (String.utf8EncodeChar (Char.ofNat (value (q.take 4))) ++ s) rest
  | wide {q s rest} : Reads (q.drop 8) s rest →
      Reads (92 :: 85 :: q) (String.utf8EncodeChar (Char.ofNat (value (q.take 8))) ++ s) rest

theorem Reads.unique {q s s' rest rest' : List UInt8} (first : Reads q s rest) (second : Reads q s' rest') : s = s' ∧ rest = rest' := by
  induction first generalizing s' with
  | close =>
    cases second with
    | close => exact ⟨rfl, rfl⟩
    | plain quote _ _ => exact absurd rfl quote
  | plain quote escape _ ih =>
    cases second with
    | close => exact absurd rfl quote
    | plain _ _ second =>
      obtain ⟨rfl, rfl⟩ := ih second
      exact ⟨rfl, rfl⟩
    | short | byte | rune | wide => exact absurd rfl escape
  | short letter _ ih =>
    cases second with
    | plain _ escape _ => exact absurd rfl escape
    | short _ second =>
      obtain ⟨rfl, rfl⟩ := ih second
      exact ⟨rfl, rfl⟩
    | byte | rune | wide => exact absurd (by decide) letter
  | byte _ ih =>
    cases second with
    | plain _ escape _ => exact absurd rfl escape
    | short letter _ => exact absurd (by decide) letter
    | byte second =>
      obtain ⟨rfl, rfl⟩ := ih second
      exact ⟨rfl, rfl⟩
  | rune _ ih =>
    cases second with
    | plain _ escape _ => exact absurd rfl escape
    | short letter _ => exact absurd (by decide) letter
    | rune second =>
      obtain ⟨rfl, rfl⟩ := ih second
      exact ⟨rfl, rfl⟩
  | wide _ ih =>
    cases second with
    | plain _ escape _ => exact absurd rfl escape
    | short letter _ => exact absurd (by decide) letter
    | wide second =>
      obtain ⟨rfl, rfl⟩ := ih second
      exact ⟨rfl, rfl⟩

theorem Reads.plains {u q s rest : List UInt8} (plain : ∀ b ∈ u, b ≠ 34 ∧ b ≠ 92) (reads : Reads q s rest) :
    Reads (u ++ q) (u ++ s) rest := by
  induction u with
  | nil => exact reads
  | cons b u ih =>
    obtain ⟨⟨quote, escape⟩, plain⟩ := List.forall_mem_cons.mp plain
    exact .plain quote escape (ih plain)

variable {table : Char → Bool}

theorem shorts_control : ∀ short ∈ shorts, short.2 ∉ [120, 117, 85] ∧ control short.2 = UInt8.ofNat short.1 ∧ short.1 < 128 := by decide

theorem hex_append {k n : Nat} (fits : n < 16 ^ k) (q : List UInt8) : value ((hex k n ++ q).take k) = n ∧ (hex k n ++ q).drop k = q := by
  refine ⟨?_, List.drop_left' (length_hex k n)⟩
  rw [List.take_left' (length_hex k n), value_hex, Nat.mod_eq_of_lt fits]

/-- One character is read back. -/
theorem Reads.appendEscapedRune {c : Char} {q s rest : List UInt8} (reads : Reads q s rest) :
    Reads (appendEscapedRune table c ++ q) (String.utf8EncodeChar c ++ s) rest := by
  unfold Quoting.appendEscapedRune
  split
  · rename_i special
    rcases special with rfl | rfl
    · exact .short (by decide) reads
    · exact .short (by decide) reads
  · rename_i ordinary
    obtain ⟨quote, escape⟩ := not_or.mp ordinary
    split
    · refine .plains (fun b member => ⟨?_, ?_⟩) reads
      · rintro rfl
        exact quote (Char.toNat_inj.mp (mem_utf8EncodeChar member (by decide)))
      · rintro rfl
        exact escape (Char.toNat_inj.mp (mem_utf8EncodeChar member (by decide)))
    · split
      · rename_i escaped found
        obtain ⟨short, meaning, ascii⟩ := shorts_control escaped (List.mem_of_find?_eq_some found)
        have same : escaped.1 = c.toNat := by simpa using List.find?_some found
        rw [utf8EncodeChar_ascii (same ▸ ascii), ← same, ← meaning]
        exact .short short reads
      · split
        · rename_i low
          obtain ⟨read, behind⟩ := hex_append (show c.toNat < 16 ^ 2 by omega) q
          rw [utf8EncodeChar_ascii (by omega)]
          conv in UInt8.ofNat _ => rw [← read]
          exact .byte (behind.symm ▸ reads)
        · split
          · rename_i short
            obtain ⟨read, behind⟩ := hex_append (show c.toNat < 16 ^ 4 from short) q
            conv in String.utf8EncodeChar _ => rw [← Char.ofNat_toNat c, ← read]
            exact .rune (behind.symm ▸ reads)
          · obtain ⟨read, behind⟩ := hex_append (show c.toNat < 16 ^ 8 from c.val.toNat_lt) q
            conv in String.utf8EncodeChar _ => rw [← Char.ofNat_toNat c, ← read]
            exact .wide (behind.symm ▸ reads)

theorem reads_pieces (table : Char → Bool) (ps : List Piece) (rest : List UInt8) :
    Reads (ps.flatMap (quotePiece table) ++ 34 :: rest) (ps.flatMap Piece.raw) rest := by
  induction ps with
  | nil => exact .close
  | cons p ps ih =>
    rw [List.flatMap_cons, List.flatMap_cons, List.append_assoc]
    cases p with
    | rune c => exact ih.appendEscapedRune
    | byte b =>
      obtain ⟨read, behind⟩ := hex_append (show b.toNat < 16 ^ 2 from b.toNat_lt) (ps.flatMap (quotePiece table) ++ 34 :: rest)
      have same : UInt8.ofNat (value ((hex 2 b.toNat ++ (ps.flatMap (quotePiece table) ++ 34 :: rest)).take 2)) = b := by
        rw [read, UInt8.ofNat_toNat]
      have reads := Reads.byte (behind.symm ▸ ih)
      rwa [same] at reads

/-- A quoted text is read back, whatever stands behind it. -/
theorem reads_quote (table : Char → Bool) (s rest : List UInt8) : ∃ q, quote table s ++ rest = 34 :: q ∧ Reads q s rest := by
  have reads := reads_pieces table (pieces 0 s) rest
  rw [pieces_raw, List.drop_zero] at reads
  refine ⟨_, ?_, reads⟩
  simp [quote]

theorem quote_append_inj {s s' rest rest' : List UInt8} (same : quote table s ++ rest = quote table s' ++ rest') :
    s = s' ∧ rest = rest' := by
  obtain ⟨q, first, reads⟩ := reads_quote table s rest
  obtain ⟨q', second, reads'⟩ := reads_quote table s' rest'
  obtain rfl : q = q' := (List.cons.inj (first.symm.trans (same.trans second))).2
  exact reads.unique reads'

/-! ### Lines -/

/-- A quoted text stands on one line. -/
theorem newline_not_mem_quote (table : Char → Bool) (s : List UInt8) : 10 ∉ quote table s := by
  have digits (k n : Nat) : (10 : UInt8) ∉ hex k n := fun member => absurd (mem_hex member) (by decide)
  have rune (c : Char) : 10 ∉ appendEscapedRune table c := by
    unfold appendEscapedRune
    split
    · rename_i special
      rcases special with rfl | rfl <;> decide
    · split
      · rename_i printed
        intro member
        have same : c = '\n' := Char.toNat_inj.mp (mem_utf8EncodeChar member (by decide))
        rw [same] at printed
        cases printed
      · split
        · rename_i escaped found
          have all : ∀ short ∈ shorts, (10 : UInt8) ∉ [92, short.2] := by decide
          exact all escaped (List.mem_of_find?_eq_some found)
        · split
          · simp [digits]
          · split
            · simp [digits]
            · simp [digits]
  have pieces (ps : List Piece) : 10 ∉ ps.flatMap (quotePiece table) := by
    intro member
    obtain ⟨p, -, inside⟩ := List.mem_flatMap.mp member
    cases p with
    | rune c => exact rune c inside
    | byte b => exact absurd inside (by simp [quotePiece, digits])
  simp [quote, pieces]

end Microserver.Quoting
