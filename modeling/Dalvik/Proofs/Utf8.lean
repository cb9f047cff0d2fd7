import Mathlib
import Dalvik.Bytes.Utf8

/-!
# Characters as bytes

The bytes of a text are those of its characters in order (`encode_ofList`), and the bytes of one
character, whatever follows them, are read as that character (`first_utf8EncodeChar`). A character
of ASCII is one byte, and all bytes of any other character are above ASCII.
-/

namespace Dalvik
namespace Bytes
namespace Utf8

/-! ## Texts -/

theorem toList_loop (bs : ByteArray) (i : ℕ) (r : List UInt8) :
    ByteArray.toList.loop bs i r = r.reverse ++ bs.data.toList.drop i := by
  -- on the bytes that are left
  induction hn : bs.size - i generalizing i r with
  | zero =>
    have hlen : bs.data.toList.length ≤ i := by
      show bs.size ≤ i
      omega
    rw [ByteArray.toList.loop, if_neg (by omega), List.drop_eq_nil_of_le hlen, List.append_nil]
  | succ n ih =>
    have hlt : i < bs.data.toList.length := by
      show i < bs.size
      omega
    have hget : bs.get! i = bs.data.toList[i] := by
      show bs.data[i]! = _
      rw [getElem!_pos bs.data i hlt]
      rfl
    rw [ByteArray.toList.loop, if_pos (by omega), ih (i + 1) _ (by omega), hget,
      List.drop_eq_getElem_cons hlt, List.reverse_cons, List.append_assoc, List.singleton_append]

theorem toList_eq (bs : ByteArray) : bs.toList = bs.data.toList := by
  unfold ByteArray.toList
  rw [toList_loop, List.reverse_nil, List.nil_append, List.drop_zero]

/-- A text is encoded part by part. -/
theorem encode_append (s t : String) : encode (s ++ t) = encode s ++ encode t := by
  unfold encode
  rw [String.toUTF8_eq_toByteArray, String.toUTF8_eq_toByteArray, String.toUTF8_eq_toByteArray,
    String.toByteArray_append, toList_eq, toList_eq, toList_eq]
  exact ByteArray.toList_data_append

/-- A text is encoded character by character. -/
theorem encode_ofList (cs : List Char) :
    encode (String.ofList cs) = cs.flatMap String.utf8EncodeChar := by
  unfold encode
  rw [String.toUTF8_eq_toByteArray, String.toByteArray_ofList, List.utf8Encode, toList_eq]
  exact List.toList_data_toByteArray

/-! ## Single characters -/

theorem toNat_ofNat_of_lt {n : ℕ} (h : n < 256) : (UInt8.ofNat n).toNat = n := by
  rw [UInt8.toNat_ofNat', Nat.mod_eq_of_lt h]

/-- An ASCII character is encoded as its number. -/
theorem utf8EncodeChar_ascii {c : Char} (h : c.toNat < 128) :
    String.utf8EncodeChar c = [UInt8.ofNat c.toNat] := by
  have hle : c.val.toNat ≤ 0x7f := Nat.le_of_lt_succ h
  unfold String.utf8EncodeChar
  exact if_pos hle

/-- A character above ASCII has no byte of ASCII. -/
theorem le_of_mem_utf8EncodeChar {c : Char} (h : 128 ≤ c.toNat) {b : UInt8}
    (hb : b ∈ String.utf8EncodeChar c) : 128 ≤ b.toNat := by
  have hc : ¬ c.val.toNat ≤ 0x7f := Nat.not_le.mpr h
  unfold String.utf8EncodeChar at hb
  simp only [hc, if_false] at hb
  -- every byte is a marker of at least 128 plus fewer bits than it leaves free
  split_ifs at hb <;> simp only [List.mem_cons, List.not_mem_nil, or_false] at hb
  · rcases hb with rfl | rfl <;> rw [toNat_ofNat_of_lt (by omega)] <;> omega
  · rcases hb with rfl | rfl | rfl <;> rw [toNat_ofNat_of_lt (by omega)] <;> omega
  · rcases hb with rfl | rfl | rfl | rfl <;> rw [toNat_ofNat_of_lt (by omega)] <;> omega

/-! ### Lead bytes -/

/-- A byte that leads a sequence of two. -/
theorem lead?_two {b : UInt8} (h : 0xc2 ≤ b.toNat ∧ b.toNat ≤ 0xdf) :
    lead? b = some (1, 0x80, 0xbf) := by
  unfold lead?
  simp only [Bool.and_eq_true, decide_eq_true_eq]
  rw [if_pos h]

/-- Three bytes: the second one is bounded below after `e0` and above after `ed`. -/
theorem lead?_three {b : UInt8} (h : 0xe0 ≤ b.toNat ∧ b.toNat ≤ 0xef) :
    lead? b = some (2, if b.toNat = 0xe0 then 0xa0 else 0x80,
      if b.toNat = 0xed then 0x9f else 0xbf) := by
  unfold lead?
  simp only [Bool.and_eq_true, decide_eq_true_eq, beq_iff_eq]
  rw [if_neg (by omega)]
  by_cases he0 : b.toNat = 0xe0
  · rw [if_pos he0, if_pos he0, if_neg (by omega)]
  · rw [if_neg he0, if_neg he0]
    by_cases hed : b.toNat = 0xed
    · rw [if_pos hed, if_pos hed]
    · rw [if_neg hed, if_neg hed, if_pos (by omega)]

/-- Four bytes: the second one is bounded below after `f0` and above after `f4`. -/
theorem lead?_four {b : UInt8} (h : 0xf0 ≤ b.toNat ∧ b.toNat ≤ 0xf4) :
    lead? b = some (3, if b.toNat = 0xf0 then 0x90 else 0x80,
      if b.toNat = 0xf4 then 0x8f else 0xbf) := by
  unfold lead?
  simp only [Bool.and_eq_true, decide_eq_true_eq, beq_iff_eq]
  rw [if_neg (by omega), if_neg (by omega), if_neg (by omega), if_neg (by omega)]
  by_cases hf0 : b.toNat = 0xf0
  · rw [if_pos hf0, if_pos hf0, if_neg (by omega)]
  · rw [if_neg hf0, if_neg hf0]
    by_cases hf4 : b.toNat = 0xf4
    · rw [if_neg (by omega), if_pos hf4, if_pos hf4]
    · rw [if_pos (by omega), if_neg hf4]

theorem continues_iff (lo hi : ℕ) (b : UInt8) :
    continues lo hi b = true ↔ lo ≤ b.toNat ∧ b.toNat ≤ hi := by
  rw [continues, Bool.and_eq_true, decide_eq_true_eq, decide_eq_true_eq]

/-! ### Reading a character -/

/-- A sequence of two bytes is read as its character. -/
theorem first_two {b c : UInt8} {n : ℕ} (hn : 128 ≤ n ∧ n < 0x800) (hb : b.toNat = n / 64 + 192)
    (hc : c.toNat = n % 64 + 128) (rest : List UInt8) :
    first b (c :: rest) = (Char.ofNat n, 1) := by
  unfold first
  rw [if_neg (by omega), lead?_two (by omega)]
  simp only
  rw [if_pos ((continues_iff _ _ c).mpr (by omega)), low6]
  have hvalue : (b.toNat - 0xc0) * 64 + c.toNat % 64 = n := by omega
  rw [hvalue]

/-- A sequence of three bytes is read as its character, unless its number is that of a surrogate. -/
theorem first_three {b c d : UInt8} {n : ℕ} (hn : 0x800 ≤ n ∧ n < 0x10000)
    (hsurrogate : n < 0xd800 ∨ 0xdfff < n) (hb : b.toNat = n / 4096 + 224)
    (hc : c.toNat = n / 64 % 64 + 128) (hd : d.toNat = n % 64 + 128) (rest : List UInt8) :
    first b (c :: d :: rest) = (Char.ofNat n, 2) := by
  unfold first
  rw [if_neg (by omega), lead?_three (by omega)]
  -- neither an overlong form nor a surrogate, which the bounds of the second byte exclude
  have hrange : continues (if b.toNat = 0xe0 then 0xa0 else 0x80)
      (if b.toNat = 0xed then 0x9f else 0xbf) c = true := by
    rw [continues_iff]
    split_ifs <;> omega
  have hlast : continues 0x80 0xbf d = true := (continues_iff _ _ d).mpr (by omega)
  simp only [hrange, hlast, Bool.and_self, if_true, low6]
  have hvalue : ((b.toNat - 0xe0) * 64 + c.toNat % 64) * 64 + d.toNat % 64 = n := by omega
  rw [hvalue]

/-- A sequence of four bytes is read as its character. -/
theorem first_four {b c d e : UInt8} {n : ℕ} (hn : 0x10000 ≤ n ∧ n < 0x110000)
    (hb : b.toNat = n / 262144 + 240) (hc : c.toNat = n / 4096 % 64 + 128)
    (hd : d.toNat = n / 64 % 64 + 128) (he : e.toNat = n % 64 + 128) (rest : List UInt8) :
    first b (c :: d :: e :: rest) = (Char.ofNat n, 3) := by
  unfold first
  rw [if_neg (by omega), lead?_four (by omega)]
  have hrange : continues (if b.toNat = 0xf0 then 0x90 else 0x80)
      (if b.toNat = 0xf4 then 0x8f else 0xbf) c = true := by
    rw [continues_iff]
    split_ifs <;> omega
  have hthird : continues 0x80 0xbf d = true := (continues_iff _ _ d).mpr (by omega)
  have hlast : continues 0x80 0xbf e = true := (continues_iff _ _ e).mpr (by omega)
  simp only [hrange, hthird, hlast, Bool.and_self, if_true, low6]
  have hvalue : (((b.toNat - 0xf0) * 64 + c.toNat % 64) * 64 + d.toNat % 64) * 64 + e.toNat % 64
      = n := by omega
  rw [hvalue]

/-- The bytes of a character are read as that character, whatever follows. -/
theorem first_utf8EncodeChar (c : Char) (rest : List UInt8) :
    ∃ b tail, String.utf8EncodeChar c = b :: tail ∧
      first b (tail ++ rest) = (c, tail.length) := by
  have hvalid : c.toNat < 0xd800 ∨ 0xdfff < c.toNat ∧ c.toNat < 0x110000 := c.valid
  have hchar : Char.ofNat c.toNat = c := Char.ofNat_toNat c
  have hval : c.val.toNat = c.toNat := rfl
  unfold String.utf8EncodeChar
  show ∃ b tail, (if c.toNat ≤ 0x7f then _ else _) = b :: tail ∧ _
  -- one to four bytes
  split_ifs with h1 h2 h3
  · refine ⟨_, _, rfl, ?_⟩
    have hb : (UInt8.ofNat c.toNat).toNat = c.toNat := toNat_ofNat_of_lt (by omega)
    show first (UInt8.ofNat c.toNat) _ = _
    unfold first
    rw [hb, if_pos (by omega), hchar]
    rfl
  · refine ⟨_, _, rfl, ?_⟩
    have htwo := first_two (n := c.toNat) (by omega)
      (toNat_ofNat_of_lt (n := c.toNat / 64 % 0x20 + 0xc0) (by omega) |>.trans (by omega))
      (toNat_ofNat_of_lt (n := c.toNat % 0x40 + 0x80) (by omega)) rest
    rw [hchar] at htwo
    exact htwo
  · refine ⟨_, _, rfl, ?_⟩
    have hthree := first_three (n := c.toNat) (by omega) (by omega)
      (toNat_ofNat_of_lt (n := c.toNat / 4096 % 0x10 + 0xe0) (by omega) |>.trans (by omega))
      (toNat_ofNat_of_lt (n := c.toNat / 64 % 0x40 + 0x80) (by omega))
      (toNat_ofNat_of_lt (n := c.toNat % 0x40 + 0x80) (by omega)) rest
    rw [hchar] at hthree
    exact hthree
  · refine ⟨_, _, rfl, ?_⟩
    have hfour := first_four (n := c.toNat) (by omega)
      (toNat_ofNat_of_lt (n := c.toNat / 262144 % 0x08 + 0xf0) (by omega) |>.trans (by omega))
      (toNat_ofNat_of_lt (n := c.toNat / 4096 % 0x40 + 0x80) (by omega))
      (toNat_ofNat_of_lt (n := c.toNat / 64 % 0x40 + 0x80) (by omega))
      (toNat_ofNat_of_lt (n := c.toNat % 0x40 + 0x80) (by omega)) rest
    rw [hchar] at hfour
    exact hfour

end Utf8
end Bytes
end Dalvik
