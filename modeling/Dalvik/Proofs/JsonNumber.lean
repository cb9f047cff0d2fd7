import Mathlib
import Dalvik.Json.Literal
import Dalvik.Proofs.JsonString

/-!
# Numerals

An integer is written with a sign, if it is negative, and the decimal digits of its absolute value
without needless zeros. That is a number of JSON (`isNumber_toString`), and it is read back as the
integer (`integer?_toString`).
-/

namespace Dalvik
namespace Json

open Bytes

/-! ## Digits -/

/-- The bytes of decimal digits are digits with their values. -/
theorem hexByte_decimal : ∀ k < 10, Token.isDigit (hexByte k) = true ∧
    (hexByte k).toNat - 0x30 = k ∧ (hexByte k = 0x30 → k = 0) ∧ hexByte k ≠ 0x2d := by
  decide

/-- The last digit of a numeral is the remainder by ten, and the digits before it are the numeral
of the quotient. -/
theorem encode_repr (n : ℕ) :
    Utf8.encode n.repr
      = if n < 10 then [hexByte n] else Utf8.encode (n / 10).repr ++ [hexByte (n % 10)] := by
  have hdigits : ∀ m : ℕ, Utf8.encode m.repr
      = (Nat.toDigits 10 m).flatMap String.utf8EncodeChar := by
    intro m
    rw [Nat.repr_eq_ofList_toDigits, Utf8.encode_ofList]
  rw [hdigits, hdigits, Nat.toDigits_eq_if (by decide)]
  split_ifs with hlt
  · rw [List.flatMap_singleton, (hexByte_spec n (by omega)).1]
  · rw [List.flatMap_append, List.flatMap_singleton, (hexByte_spec (n % 10) (by omega)).1]

/-- A numeral starts with a digit, which is zero only if it is the whole numeral. -/
theorem encode_repr_cons (n : ℕ) :
    ∃ k tail, Utf8.encode n.repr = hexByte k :: tail ∧ k < 10 ∧ (k = 0 → n = 0 ∧ tail = []) ∧
      ∀ b ∈ tail, Token.isDigit b = true := by
  induction n using Nat.strong_induction_on with
  | _ n ih =>
    rw [encode_repr]
    split_ifs with hlt
    · refine ⟨n, [], rfl, hlt, ?_, ?_⟩
      · intro hzero
        exact ⟨hzero, rfl⟩
      · intro b hb
        exact absurd hb List.not_mem_nil
    · obtain ⟨k, tail, htail, hk, hzero, hall⟩ := ih (n / 10) (by omega)
      refine ⟨k, tail ++ [hexByte (n % 10)], ?_, hk, ?_, ?_⟩
      · rw [htail, List.cons_append]
      · -- the quotient of a number of two digits is positive
        intro hk0
        have := (hzero hk0).1
        omega
      · intro b hb
        rcases List.mem_append.mp hb with hb | hb
        · exact hall b hb
        · rw [List.mem_singleton.mp hb]
          exact (hexByte_decimal _ (by omega)).1

/-- A natural number is written with digits only. -/
theorem isDigit_of_mem_repr {n : ℕ} {b : UInt8} (hb : b ∈ Utf8.encode n.repr) :
    Token.isDigit b = true := by
  obtain ⟨k, tail, htail, hk, -, hall⟩ := encode_repr_cons n
  rw [htail] at hb
  rcases List.mem_cons.mp hb with rfl | hb
  · exact (hexByte_decimal k hk).1
  · exact hall b hb

/-! ## Numbers of JSON -/

theorem isNumberFrom_whole (digits : List UInt8) (h : ∀ b ∈ digits, Token.isDigit b = true) :
    Token.isNumberFrom .whole digits = true := by
  induction digits with
  | nil => rfl
  | cons b digits ih =>
    rw [List.forall_mem_cons] at h
    have hnext : Token.NumberPart.next? .whole b = some .whole := by
      show (if Token.isDigit b then some Token.NumberPart.whole else _) = _
      rw [if_pos h.1]
    rw [Token.isNumberFrom, hnext]
    exact ih h.2

/-- A numeral is a number, at the start of a literal and after a sign. -/
theorem isNumberFrom_repr (n : ℕ) {p : Token.NumberPart} (hp : p = .start ∨ p = .minus) :
    Token.isNumberFrom p (Utf8.encode n.repr) = true := by
  obtain ⟨k, tail, htail, hk, hzero, hall⟩ := encode_repr_cons n
  obtain ⟨hdigit, -, hbyte, hminus⟩ := hexByte_decimal k hk
  have hnext : p.next? (hexByte k) = if k = 0 then some .zero else some .whole := by
    have hbyte' : hexByte k = 0x30 ↔ k = 0 := by
      refine ⟨hbyte, ?_⟩
      intro hk0
      rw [hk0]
      rfl
    rcases hp with rfl | rfl <;>
      simp [Token.NumberPart.next?, hdigit, hminus, hbyte']
  rw [htail, Token.isNumberFrom, hnext]
  -- a zero has to be the whole numeral, any other digit can go on
  by_cases hk0 : k = 0
  · rw [if_pos hk0, (hzero hk0).2]
    rfl
  · rw [if_neg hk0]
    exact isNumberFrom_whole tail hall

theorem encode_toString (n : ℤ) :
    Utf8.encode (toString n)
      = if 0 ≤ n then Utf8.encode n.toNat.repr else 0x2d :: Utf8.encode (-n).toNat.repr := by
  have hminus : Utf8.encode "-" = [0x2d] := Utf8.encode_ofList ['-']
  rw [Int.toString_eq_repr, Int.repr_eq_if]
  split_ifs
  · rfl
  · rw [Utf8.encode_append, hminus, List.singleton_append]

/-- What is written for an integer is a number of JSON. -/
theorem isNumber_toString (n : ℤ) : Token.isNumber (Utf8.encode (toString n)) = true := by
  unfold Token.isNumber
  rw [encode_toString]
  split_ifs
  · exact isNumberFrom_repr _ (.inl rfl)
  · exact isNumberFrom_repr _ (.inr rfl)

theorem isNumeric_of_mem_toString {n : ℤ} {b : UInt8} (hb : b ∈ Utf8.encode (toString n)) :
    Token.isNumeric b = true := by
  have hdigit : ∀ m : ℕ, b ∈ Utf8.encode m.repr → Token.isNumeric b = true := by
    intro m hm
    simp [Token.isNumeric, isDigit_of_mem_repr hm]
  rw [encode_toString] at hb
  split_ifs at hb
  · exact hdigit _ hb
  · rcases List.mem_cons.mp hb with rfl | hb
    · rfl
    · exact hdigit _ hb

/-! ## Reading -/

/-- A number is read digit by digit. -/
theorem naturalFrom_append (xs ys : List UInt8) (acc : ℕ) :
    Literal.naturalFrom acc (xs ++ ys)
      = (Literal.naturalFrom acc xs).bind fun m => Literal.naturalFrom m ys := by
  induction xs generalizing acc with
  | nil => rfl
  | cons b xs ih =>
    rw [List.cons_append, Literal.naturalFrom, Literal.naturalFrom]
    split_ifs
    · exact ih _
    · rfl

/-- A natural number is read back from its digits. -/
theorem naturalFrom_repr (n : ℕ) : Literal.naturalFrom 0 (Utf8.encode n.repr) = some n := by
  have hsingle : ∀ m, ∀ k < 10, Literal.naturalFrom m [hexByte k] = some (m * 10 + k) := by
    intro m k hk
    obtain ⟨hdigit, hvalue, -, -⟩ := hexByte_decimal k hk
    rw [Literal.naturalFrom, if_pos hdigit, hvalue, Literal.naturalFrom]
  -- along the quotients: the last digit is read last
  induction n using Nat.strong_induction_on with
  | _ n ih =>
    rw [encode_repr]
    split_ifs with hlt
    · rw [hsingle 0 n hlt, Nat.zero_mul, Nat.zero_add]
    · rw [naturalFrom_append, ih (n / 10) (by omega), Option.bind_some,
        hsingle _ _ (Nat.mod_lt _ (by decide)), Nat.div_add_mod']

/-- What is written for an integer is read as that integer. -/
theorem integer?_toString (n : ℤ) :
    Literal.integer? (Utf8.encode (toString n)) = some n := by
  rw [encode_toString]
  split_ifs with hn
  · obtain ⟨k, tail, htail, hk, -, -⟩ := encode_repr_cons n.toNat
    have hread := naturalFrom_repr n.toNat
    rw [htail] at hread ⊢
    unfold Literal.integer?
    split
    · -- no digit is mistaken for a sign
      rename_i hsign
      exact absurd (List.cons.inj hsign).1 (hexByte_decimal k hk).2.2.2
    · rw [hread]
      show some (n.toNat : ℤ) = some n
      rw [Int.toNat_of_nonneg hn]
  · rw [Literal.integer?, naturalFrom_repr]
    show some (-((-n).toNat : ℤ)) = some n
    rw [Int.toNat_of_nonneg (by omega), Int.neg_neg]

end Json
end Dalvik
