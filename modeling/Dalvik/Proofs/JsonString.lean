import Mathlib
import Dalvik.Json.Escape
import Dalvik.Json.Literal
import Dalvik.Proofs.Utf8

/-!
# String literals

A character stands in a literal as itself, behind a backslash, or as an escape by number
(`charBytes_cases`). In each of these forms the lexer passes over its bytes without leaving the string
(`lexFrom_charBytes`), and reading gives the character back (`firstChar_charBytes`). So the content
of a literal is read as the text that it was written for (`text_contentBytes`).
-/

namespace Dalvik
namespace Json

open Bytes

/-! ## Escapes by number -/

/-- The byte of a hexadecimal digit. -/
def hexByte (k : ℕ) : UInt8 := UInt8.ofNat (Nat.digitChar k).toNat

/-- The bytes of hexadecimal digits are digits with their values. -/
theorem hexByte_spec : ∀ k < 16, String.utf8EncodeChar (Nat.digitChar k) = [hexByte k] ∧
    Token.isHexDigit (hexByte k) = true ∧ Literal.hexValue (hexByte k) = k := by
  decide

/-- Four places hold the hexadecimal digits of a number of sixteen bits. -/
theorem toList_hexField_four {n : ℕ} (h : n < 65536) :
    (Text.hexField 4 n).toList = [Nat.digitChar (n / 4096), Nat.digitChar (n / 256 % 16),
      Nat.digitChar (n / 16 % 16), Nat.digitChar (n % 16)] := by
  have hfield : (Text.hexField 4 n).toList
      = List.replicate (4 - (Nat.toDigits 16 n).length) '0' ++ Nat.toDigits 16 n := by
    show (Text.padZeros 4 (Text.hexNat n)).toList = _
    unfold Text.padZeros Text.hexNat
    rw [String.toList_append, String.toList_ofList, String.toList_ofList, String.length_ofList]
  have hdigits : ∀ m, Nat.toDigits 16 m
      = if m < 16 then [Nat.digitChar m] else Nat.toDigits 16 (m / 16) ++ [Nat.digitChar (m % 16)] :=
    fun m => Nat.toDigits_eq_if (by decide)
  rw [hfield]
  -- one place for each power of sixteen that the number reaches
  by_cases h1 : n < 16
  · rw [hdigits, if_pos h1]
    have hz : n / 4096 = 0 ∧ n / 256 % 16 = 0 ∧ n / 16 % 16 = 0 ∧ n % 16 = n := by omega
    rw [hz.1, hz.2.1, hz.2.2.1, hz.2.2.2]
    rfl
  · rw [hdigits, if_neg h1]
    by_cases h2 : n / 16 < 16
    · rw [hdigits, if_pos h2]
      have hz : n / 4096 = 0 ∧ n / 256 % 16 = 0 ∧ n / 16 % 16 = n / 16 := by omega
      rw [hz.1, hz.2.1, hz.2.2]
      rfl
    · rw [hdigits (n / 16), if_neg h2, Nat.div_div_eq_div_mul]
      by_cases h3 : n / 256 < 16
      · rw [hdigits, if_pos h3]
        have hz : n / 4096 = 0 ∧ n / 256 % 16 = n / 256 := by omega
        rw [hz.1, hz.2]
        rfl
      · rw [hdigits (n / (16 * 16)), if_neg h3, Nat.div_div_eq_div_mul, hdigits,
          if_pos (show n / (16 * 16 * 16) < 16 by omega)]
        rfl

/-- The bytes of the escape of a character by its number. -/
def unitBytes (n : ℕ) : List UInt8 :=
  [0x5c, 0x75, hexByte (n / 4096), hexByte (n / 256 % 16), hexByte (n / 16 % 16), hexByte (n % 16)]

theorem unitOf_hexByte {n : ℕ} (h : n < 65536) :
    Literal.unitOf (hexByte (n / 4096)) (hexByte (n / 256 % 16)) (hexByte (n / 16 % 16))
      (hexByte (n % 16)) = n := by
  unfold Literal.unitOf
  rw [(hexByte_spec _ (by omega)).2.2, (hexByte_spec _ (by omega)).2.2,
    (hexByte_spec _ (by omega)).2.2, (hexByte_spec _ (by omega)).2.2]
  omega

/-! ## The forms of a character -/

/-- The bytes that stand for a character in a literal. -/
def charBytes (e : Escapes) (c : Char) : List UInt8 := (e.char c).flatMap String.utf8EncodeChar

/-- The bytes of the content of a literal. -/
def contentBytes (e : Escapes) (s : String) : List UInt8 := s.toList.flatMap (charBytes e)

theorem encode_literal (e : Escapes) (s : String) :
    Utf8.encode (e.literal s) = 0x22 :: (contentBytes e s ++ [0x22]) := by
  have hquote : Utf8.encode "\"" = [0x22] := Utf8.encode_ofList ['"']
  have hcontent : Utf8.encode (String.ofList (s.toList.flatMap e.char)) = contentBytes e s := by
    rw [Utf8.encode_ofList, List.flatMap_assoc]
    rfl
  rw [Escapes.literal, Utf8.encode_append, Utf8.encode_append, hquote, hcontent]
  rfl

theorem charBytes_unit {n : ℕ} (h : n < 65536) :
    ('\\' :: 'u' :: (Text.hexField 4 n).toList).flatMap String.utf8EncodeChar = unitBytes n := by
  rw [toList_hexField_four h]
  simp only [List.flatMap_cons, List.flatMap_nil, (hexByte_spec (n / 4096) (by omega)).1,
    (hexByte_spec (n / 256 % 16) (by omega)).1, (hexByte_spec (n / 16 % 16) (by omega)).1,
    (hexByte_spec (n % 16) (by omega)).1]
  rfl

/-- A character stands behind a backslash, as an escape by number, or as itself. -/
theorem charBytes_cases (e : Escapes) (c : Char) :
    (∃ k, charBytes e c = [0x5c, k] ∧ k ≠ 0x75 ∧ Token.isEscape k = true ∧
        Literal.escaped k = c) ∨
      (c.toNat < 0xd800 ∧ charBytes e c = unitBytes c.toNat) ∨
      (charBytes e c = String.utf8EncodeChar c ∧ 0x20 ≤ c.toNat ∧ c ≠ '"' ∧ c ≠ '\\') := by
  have hchar : Char.ofNat c.toNat = c := Char.ofNat_toNat c
  unfold charBytes Escapes.char
  split
  · exact .inl ⟨0x22, by decide, by decide, by decide, by decide⟩
  · exact .inl ⟨0x5c, by decide, by decide, by decide, by decide⟩
  · exact .inl ⟨0x6e, by decide, by decide, by decide, by decide⟩
  · exact .inl ⟨0x72, by decide, by decide, by decide, by decide⟩
  · exact .inl ⟨0x74, by decide, by decide, by decide, by decide⟩
  · rename_i hquote hslash _ _ _
    simp only [Bool.and_eq_true, Bool.or_eq_true, beq_iff_eq, decide_eq_true_eq]
    split_ifs with hback hfeed hunit
    · refine .inl ⟨0x62, by decide, by decide, by decide, ?_⟩
      rw [← hchar, hback.1]
      rfl
    · refine .inl ⟨0x66, by decide, by decide, by decide, ?_⟩
      rw [← hchar, hfeed.1]
      rfl
    -- low characters, the two line separators, and three that are escaped for their meaning
    -- elsewhere: none of them is a surrogate
    · have hlt : c.toNat < 0xd800 := by
        rcases hunit with ((hlow | hsep) | hsep) | ⟨-, (rfl | rfl) | rfl⟩
        · omega
        · omega
        · omega
        all_goals decide
      exact .inr (.inl ⟨hlt, charBytes_unit (by omega)⟩)
    · push Not at hunit
      exact .inr (.inr ⟨List.flatMap_singleton _ _, hunit.1.1.1, hquote, hslash⟩)

/-- A character that stands as itself has no byte with a meaning of its own. -/
theorem plain_of_mem_utf8EncodeChar {c : Char} (hlow : 0x20 ≤ c.toNat) (hquote : c ≠ '"')
    (hslash : c ≠ '\\') {b : UInt8} (hb : b ∈ String.utf8EncodeChar c) :
    0x20 ≤ b.toNat ∧ b ≠ 0x22 ∧ b ≠ 0x5c := by
  by_cases hascii : c.toNat < 128
  · rw [Utf8.utf8EncodeChar_ascii hascii, List.mem_singleton] at hb
    have hnat : b.toNat = c.toNat := by
      rw [hb, Utf8.toNat_ofNat_of_lt (by omega)]
    have hchar : ∀ d : Char, b.toNat = d.toNat → c = d := by
      intro d hd
      rw [← Char.ofNat_toNat c, ← hnat, hd, Char.ofNat_toNat]
    refine ⟨by omega, ?_, ?_⟩
    · rintro rfl
      exact hquote (hchar '"' rfl)
    · rintro rfl
      exact hslash (hchar '\\' rfl)
  -- the bytes of other characters are all above ASCII
  · have hhigh := Utf8.le_of_mem_utf8EncodeChar (by omega) hb
    refine ⟨by omega, ?_, ?_⟩
    · rintro rfl
      exact absurd hhigh (by decide)
    · rintro rfl
      exact absurd hhigh (by decide)

/-! ## Reading -/

/-- The bytes of a character are read as that character, whatever follows. -/
theorem firstChar_charBytes (e : Escapes) (c : Char) (rest : List UInt8) :
    ∃ b tail, charBytes e c = b :: tail ∧ Literal.firstChar b (tail ++ rest) = (c, tail.length) := by
  obtain ⟨k, hbytes, hmark, -, hvalue⟩ | ⟨hlt, hbytes⟩ | ⟨hbytes, hlow, hquote, hslash⟩ :=
    charBytes_cases e c
  · refine ⟨0x5c, [k], hbytes, ?_⟩
    show (if k = 0x75 then _ else (Literal.escaped k, 1)) = (c, 1)
    rw [if_neg hmark, hvalue]
  · refine ⟨0x5c, _, hbytes, ?_⟩
    -- only the first half of a pair would make the reader look further
    have hsurrogate : Literal.isSurrogate c.toNat = false := by
      simp [Literal.isSurrogate, hlt]
    have hunit : Literal.unitChar c.toNat rest = (c, 0) := by
      rw [Literal.unitChar, hsurrogate, Char.ofNat_toNat]
      rfl
    unfold Literal.firstChar
    simp only [List.cons_append, List.nil_append, if_true,
      unitOf_hexByte (show c.toNat < 65536 by omega), hunit]
    rfl
  · obtain ⟨b, tail, hb, hfirst⟩ := Utf8.first_utf8EncodeChar c rest
    refine ⟨b, tail, hbytes.trans hb, ?_⟩
    have hne : b ≠ 0x5c :=
      (plain_of_mem_utf8EncodeChar hlow hquote hslash (hb ▸ List.mem_cons_self)).2.2
    unfold Literal.firstChar
    rw [if_neg hne, hfirst]

theorem charsOnto_cons (acc : List Char) (b : UInt8) (rest : List UInt8) :
    Literal.charsOnto acc (b :: rest)
      = Literal.charsOnto ((Literal.firstChar b rest).1 :: acc)
          (rest.drop (Literal.firstChar b rest).2) := by
  rw [Literal.charsOnto]

/-- The bytes of some characters are read as these characters. -/
theorem charsOnto_flatMap (e : Escapes) (cs : List Char) (acc : List Char) :
    Literal.charsOnto acc (cs.flatMap (charBytes e)) = cs.reverse ++ acc := by
  induction cs generalizing acc with
  | nil => rw [List.flatMap_nil, Literal.charsOnto, List.reverse_nil, List.nil_append]
  | cons c cs ih =>
    obtain ⟨b, tail, hbytes, hfirst⟩ := firstChar_charBytes e c (cs.flatMap (charBytes e))
    rw [List.flatMap_cons, hbytes, List.cons_append, charsOnto_cons, hfirst, List.drop_left, ih,
      List.reverse_cons, List.append_assoc, List.singleton_append]

/-- A literal is read as the text that it was written for. -/
theorem text_contentBytes (e : Escapes) (s : String) : Literal.text (contentBytes e s) = s := by
  unfold Literal.text contentBytes
  rw [charsOnto_flatMap, List.append_nil, List.reverse_reverse, String.ofList_toList]

/-! ## Lexing -/

/-- Bytes without a meaning of their own stay in the string. -/
theorem lexFrom_plain (bytes rest rev : List UInt8) (acc : Array Token)
    (h : ∀ b ∈ bytes, 0x20 ≤ b.toNat ∧ b ≠ 0x22 ∧ b ≠ 0x5c) :
    Token.lexFrom (.inString .plain rev) acc (bytes ++ rest)
      = Token.lexFrom (.inString .plain (bytes.reverse ++ rev)) acc rest := by
  induction bytes generalizing rev with
  | nil => rfl
  | cons b bytes ih =>
    rw [List.forall_mem_cons] at h
    obtain ⟨hlow, hquote, hslash⟩ := h.1
    have hlt : ¬ b < 0x20 := by
      rw [UInt8.lt_iff_toNat_lt]
      exact Nat.not_lt.mpr hlow
    have hstep : Token.step? (.inString .plain rev) acc b
        = some (.inString .plain (b :: rev), acc) := by
      simp [Token.step?, Token.StringPart.next?, hquote, hslash, hlt]
    rw [List.cons_append, Token.lexFrom, hstep]
    show Token.lexFrom (.inString .plain (b :: rev)) acc (bytes ++ rest) = _
    rw [ih _ h.2, List.reverse_cons, List.append_assoc, List.singleton_append]

/-- An escape by number stays in the string. -/
theorem lexFrom_unitBytes {n : ℕ} (h : n < 65536) (rest rev : List UInt8) (acc : Array Token) :
    Token.lexFrom (.inString .plain rev) acc (unitBytes n ++ rest)
      = Token.lexFrom (.inString .plain ((unitBytes n).reverse ++ rev)) acc rest := by
  have h₁ := (hexByte_spec (n / 4096) (by omega)).2.1
  have h₂ := (hexByte_spec (n / 256 % 16) (by omega)).2.1
  have h₃ := (hexByte_spec (n / 16 % 16) (by omega)).2.1
  have h₄ := (hexByte_spec (n % 16) (by omega)).2.1
  simp [unitBytes, Token.lexFrom, Token.step?, Token.StringPart.next?, h₁, h₂, h₃, h₄]

/-- No character ends the string that it stands in. -/
theorem lexFrom_charBytes (e : Escapes) (c : Char) (rest rev : List UInt8) (acc : Array Token) :
    Token.lexFrom (.inString .plain rev) acc (charBytes e c ++ rest)
      = Token.lexFrom (.inString .plain ((charBytes e c).reverse ++ rev)) acc rest := by
  obtain ⟨k, hbytes, hmark, hescape, -⟩ | ⟨hlt, hbytes⟩ | ⟨hbytes, hlow, hquote, hslash⟩ :=
    charBytes_cases e c
  · rw [hbytes]
    simp [Token.lexFrom, Token.step?, Token.StringPart.next?, hmark, hescape]
  · rw [hbytes]
    exact lexFrom_unitBytes (by omega) rest rev acc
  · rw [hbytes]
    exact lexFrom_plain _ _ _ _ fun b hb => plain_of_mem_utf8EncodeChar hlow hquote hslash hb

/-- The content of a literal stays in the string. -/
theorem lexFrom_flatMap (e : Escapes) (cs : List Char) (rest rev : List UInt8)
    (acc : Array Token) :
    Token.lexFrom (.inString .plain rev) acc (cs.flatMap (charBytes e) ++ rest)
      = Token.lexFrom (.inString .plain ((cs.flatMap (charBytes e)).reverse ++ rev)) acc rest := by
  induction cs generalizing rev with
  | nil => rfl
  | cons c cs ih =>
    rw [List.flatMap_cons, List.append_assoc, lexFrom_charBytes, ih, List.reverse_append,
      List.append_assoc]

/-- A literal is one token. -/
theorem lexFrom_literal (e : Escapes) (s : String) (rest : List UInt8) (acc : Array Token) :
    Token.lexFrom .between acc (Utf8.encode (e.literal s) ++ rest)
      = Token.lexFrom .between (acc.push (.string (contentBytes e s))) rest := by
  rw [encode_literal, List.cons_append, List.append_assoc]
  show Token.lexFrom (.inString .plain []) acc
    (s.toList.flatMap (charBytes e) ++ 0x22 :: rest) = _
  rw [lexFrom_flatMap, List.append_nil]
  show Token.lexFrom .between (acc.push (.string (contentBytes e s).reverse.reverse)) rest = _
  rw [List.reverse_reverse]

end Json
end Dalvik
