import Mathlib
import Dalvik.Proofs.Forms

/-!
# Numbers read exactly

What the LEB128 readers do at every position of every byte string, said without groups: the number
ends with the first byte without the continuation bit (`EndsAt`), its value is a weighted sum of the
bytes up to there (`unsignedSum`, `signedSum`), and there are two faults, one for bytes that end too
early and one for five bytes that go on (`Exact`). So the shortest form of every number of 32 bits is
read as that number (`exact_leb128`).

The readers take all groups before they make a number of them. The loop that does both at once, in
words of 32 bits, drops the bits that are shifted out, and it fills in a sign only while there is
room for one. It reads the same (`uleb128_eq_ulebLoop`, `sleb128_eq_slebLoop`).
-/

namespace Dalvik.Bytes

/-- The cursor at a position of some bytes. -/
def Cursor.of (data : List UInt8) (pos : ℕ) : Cursor := ⟨pos, data.drop pos⟩

/-! ## Where a number ends -/

/-- Among the first `limit` bytes, byte `n`, counted from one, is the first one without the
continuation bit. -/
structure EndsAt (limit : ℕ) (bytes : List UInt8) (n : ℕ) : Prop where
  pos : 0 < n
  le_limit : n ≤ limit
  le_length : n ≤ bytes.length
  before : ∀ i, i + 1 < n → 128 ≤ (bytes.getD i 0).toNat
  last : (bytes.getD (n - 1) 0).toNat < 128

/-- A number ends with its first byte, or the byte announces another one and the rest ends one byte
earlier. -/
theorem endsAt_cons_iff {limit n : ℕ} {b : UInt8} {bytes : List UInt8} :
    EndsAt (limit + 1) (b :: bytes) n ↔
      b.toNat < 128 ∧ n = 1 ∨ 128 ≤ b.toNat ∧ ∃ k, n = k + 1 ∧ EndsAt limit bytes k := by
  constructor
  · rintro ⟨hpos, hlimit, hlength, hbefore, hlast⟩
    obtain ⟨k, rfl⟩ : ∃ k, n = k + 1 := ⟨n - 1, by omega⟩
    rw [Nat.add_sub_cancel] at hlast
    cases k with
    | zero => exact .inl ⟨hlast, rfl⟩
    | succ k =>
      rw [List.length_cons] at hlength
      refine .inr ⟨hbefore 0 (by omega), k + 1, rfl, by omega, by omega, by omega, ?_, hlast⟩
      intro i hi
      exact hbefore (i + 1) (by omega)
  · rintro (⟨hb, rfl⟩ | ⟨hb, k, rfl, hpos, hlimit, hlength, hbefore, hlast⟩)
    · exact ⟨by omega, by omega, by simp, fun i hi => by omega, hb⟩
    · refine ⟨by omega, by omega, by simpa using hlength, ?_, ?_⟩
      · intro i hi
        cases i with
        | zero => exact hb
        | succ i => exact hbefore i (by omega)
      · obtain ⟨k, rfl⟩ : ∃ j, k = j + 1 := ⟨k - 1, by omega⟩
        exact hlast

/-! ## What the bytes denote -/

/-- The low seven bits of the first `n` bytes, each byte weighted by its place. -/
def unsignedSum (bytes : List UInt8) (n : ℕ) : ℕ :=
  ∑ i ∈ Finset.range n, (bytes.getD i 0).toNat % 128 * 2 ^ (7 * i)

/-- The same sum with bit six of the last byte as a sign. -/
def signedSum (bytes : List UInt8) (n : ℕ) : ℤ :=
  unsignedSum bytes n - if (bytes.getD (n - 1) 0).toNat.testBit 6 then 2 ^ (7 * n) else 0

/-- The first group counts once, and the others seven bits higher. -/
theorem unsignedSum_cons (b : UInt8) (bytes : List UInt8) (n : ℕ) :
    unsignedSum (b :: bytes) (n + 1) = b.toNat % 128 + 128 * unsignedSum bytes n := by
  have hshift : ∀ i, (bytes.getD i 0).toNat % 128 * 2 ^ (7 * (i + 1))
      = 128 * ((bytes.getD i 0).toNat % 128 * 2 ^ (7 * i)) := by
    intro i
    rw [Nat.mul_succ, pow_add]
    ring
  rw [unsignedSum, Finset.sum_range_succ', unsignedSum, Finset.mul_sum, Nat.add_comm]
  simp only [List.getD_cons_zero, List.getD_cons_succ, hshift, Nat.mul_zero, pow_zero, Nat.mul_one]

/-- The groups of a prefix add up to its unsigned sum. -/
theorem groupsValue_take {bytes : List UInt8} {n : ℕ} (h : n ≤ bytes.length) :
    Reader.groupsValue (bytes.take n) = unsignedSum bytes n := by
  induction n generalizing bytes with
  | zero => rfl
  | succ n ih =>
    cases bytes with
    | nil => exact absurd h (Nat.not_succ_le_zero n)
    | cons b bytes =>
      rw [List.take_succ_cons, Reader.groupsValue, ih (by simpa using h), unsignedSum_cons]

/-- Bit six says whether a group of seven bits stands for a negative number. -/
theorem testBit_six (b : UInt8) : b.toNat.testBit 6 = decide (64 ≤ b.toNat % 128) := by
  revert b
  decide +kernel

/-- The groups of a prefix that is not empty add up to its signed sum. -/
theorem signedValue_take {bytes : List UInt8} {n : ℕ} (hpos : 0 < n) (h : n ≤ bytes.length) :
    Reader.signedValue (bytes.take n) = signedSum bytes n := by
  have hlength : (bytes.take n).length = n := List.length_take_of_le h
  have hlast : (bytes.take n).getLast? = some (bytes.getD (n - 1) 0) := by
    rw [List.getLast?_eq_getElem?, hlength, List.getElem?_take_of_lt (by omega),
      List.getD_eq_getElem?_getD, List.getElem?_eq_getElem (by omega)]
    rfl
  have hpow : (Nat.pow 128 n : ℕ) = 2 ^ (7 * n) := (pow_mul 2 7 n).symm
  unfold Reader.signedValue signedSum
  rw [hlast, hlength, groupsValue_take h, testBit_six, hpow]
  simp only [Option.any_some, ge_iff_le, decide_eq_true_eq]
  split_ifs
  · push_cast
    rfl
  · rw [sub_zero]

namespace Reader

/-! ## Reading -/

theorem map_eq_ok_iff {ε α β : Type} {x : Except ε α} {f : α → β} {b : β} :
    x.map f = .ok b ↔ ∃ a, x = .ok a ∧ f a = b := by
  cases x <;> simp [Except.map]

theorem map_eq_error_iff {ε α β : Type} {x : Except ε α} {f : α → β} {e : ε} :
    x.map f = .error e ↔ x = .error e := by
  cases x <;> simp [Except.map]

/-- A byte without the continuation bit is the last group. -/
theorem groups_last {b : UInt8} (hb : b.toNat < 128) (limit pos : ℕ) (bytes : List UInt8) :
    groups (limit + 1) ⟨pos, b :: bytes⟩ = .ok ([b], ⟨pos + 1, bytes⟩) := by
  rw [groups]
  exact if_pos hb

/-- A byte with the continuation bit is followed by the other groups. -/
theorem groups_more {b : UInt8} (hb : 128 ≤ b.toNat) (limit pos : ℕ) (bytes : List UInt8) :
    groups (limit + 1) ⟨pos, b :: bytes⟩
      = (groups limit ⟨pos + 1, bytes⟩).map fun p => (b :: p.1, p.2) := by
  rw [groups]
  dsimp only
  rw [if_neg (Nat.not_lt.mpr hb)]
  rcases groups limit ⟨pos + 1, bytes⟩ with e | ⟨bs, c'⟩ <;> rfl

/-- The reader of groups stops behind the byte that ends the number. -/
theorem groups_eq_ok_iff {limit pos : ℕ} {bytes bs : List UInt8} {c' : Cursor} :
    groups limit ⟨pos, bytes⟩ = .ok (bs, c') ↔
      ∃ n, EndsAt limit bytes n ∧ bs = bytes.take n ∧ c' = ⟨pos + n, bytes.drop n⟩ := by
  induction limit generalizing pos bytes bs c' with
  | zero =>
    refine iff_of_false (fun h => by cases h) ?_
    rintro ⟨n, hends, -⟩
    exact absurd hends.pos (Nat.not_lt.mpr hends.le_limit)
  | succ limit ih =>
    cases bytes with
    | nil =>
      refine iff_of_false (fun h => by cases h) ?_
      rintro ⟨n, hends, -⟩
      exact absurd hends.pos (Nat.not_lt.mpr hends.le_length)
    | cons b bytes =>
      rcases Nat.lt_or_ge b.toNat 128 with hb | hb
      · rw [groups_last hb]
        simp [hb, endsAt_cons_iff, Nat.not_le.mpr hb, eq_comm]
      · rw [groups_more hb, map_eq_ok_iff]
        constructor
        · rintro ⟨⟨tail, c₁⟩, htail, heq⟩
          cases heq
          obtain ⟨k, hends, rfl, rfl⟩ := ih.mp htail
          refine ⟨k + 1, endsAt_cons_iff.mpr (.inr ⟨hb, k, rfl, hends⟩), rfl, ?_⟩
          rw [Nat.add_assoc, Nat.add_comm 1, List.drop_succ_cons]
        · rintro ⟨n, hends, rfl, rfl⟩
          obtain ⟨hlast, -⟩ | ⟨-, k, rfl, hrest⟩ := endsAt_cons_iff.mp hends
          · exact absurd hb (Nat.not_le.mpr hlast)
          · refine ⟨_, ih.mpr ⟨k, hrest, rfl, rfl⟩, ?_⟩
            rw [Nat.add_assoc, Nat.add_comm 1]
            rfl

/-- Bytes that go on are too few, or there are as many as a number may have. -/
theorem groups_eq_error_iff {limit pos : ℕ} {bytes : List UInt8} {fault : ReadFault} :
    groups limit ⟨pos, bytes⟩ = .error fault ↔
      (bytes.length < limit ∧ (∀ b ∈ bytes, 128 ≤ b.toNat) ∧
          fault = .truncated 1 (pos + bytes.length) 0) ∨
        (limit ≤ bytes.length ∧ (∀ b ∈ bytes.take limit, 128 ≤ b.toNat) ∧
          fault = .leb128 (pos + limit)) := by
  induction limit generalizing pos bytes with
  | zero => simp [groups, eq_comm]
  | succ limit ih =>
    cases bytes with
    | nil => simp [groups, eq_comm]
    | cons b bytes =>
      rcases Nat.lt_or_ge b.toNat 128 with hb | hb
      · rw [groups_last hb]
        simp [Nat.not_le.mpr hb]
      · rw [groups_more hb, map_eq_error_iff, ih, List.take_succ_cons, List.forall_mem_cons,
          List.forall_mem_cons, List.length_cons, Nat.add_assoc, Nat.add_assoc, Nat.add_comm 1,
          Nat.add_comm 1]
        simp [hb]

/-- What is made of the groups of a number. -/
theorem groups_bind_apply {α : Type} (f : List UInt8 → α) (c : Cursor) :
    (groups maxGroups >>= fun bs => pure (f bs)) c
      = (groups maxGroups c).map fun p => (f p.1, p.2) := by
  rw [bind_apply]
  rcases groups maxGroups c with e | ⟨bs, c'⟩ <;> rfl

/-- The reader reads numbers of at most five bytes exactly. -/
structure Exact {α : Type} (r : Reader ReadFault α) (Value : List UInt8 → ℕ → α → Prop) : Prop where
  /-- It succeeds if and only if a number ends among the next five bytes. It reads up to there, and
  nothing but the value of the number is its result. -/
  ok_iff : ∀ (data : List UInt8) (pos : ℕ) (v : α) (c' : Cursor),
    r (.of data pos) = .ok (v, c') ↔
      ∃ n, EndsAt 5 (data.drop pos) n ∧ Value (data.drop pos) n v ∧ c' = .of data (pos + n)
  /-- It fails if and only if all of the next bytes, up to five, have the continuation bit: with one
  fault if there are fewer than five, and with the other if there are five. -/
  error_iff : ∀ (data : List UInt8) (pos : ℕ) (fault : ReadFault),
    r (.of data pos) = .error fault ↔
      ((data.drop pos).length < 5 ∧ (∀ b ∈ data.drop pos, 128 ≤ b.toNat) ∧
          fault = .truncated 1 (pos + (data.drop pos).length) 0) ∨
        (5 ≤ (data.drop pos).length ∧ (∀ b ∈ (data.drop pos).take 5, 128 ≤ b.toNat) ∧
          fault = .leb128 (pos + 5))

/-- Numbers with the same remainder have the same balanced remainder. -/
theorem bmod_eq_of_emod_eq {x y : ℤ} {m : ℕ} (h : x % m = y % m) : x.bmod m = y.bmod m := by
  rw [Int.bmod_def, h, ← Int.bmod_def]

/-- A reader that makes a value of the groups of a number. -/
theorem exact_of_groups {α : Type} (f : List UInt8 → α) {Value : List UInt8 → ℕ → α → Prop}
    (hvalue : ∀ bytes n, EndsAt 5 bytes n → ∀ v, v = f (bytes.take n) ↔ Value bytes n v) :
    Exact (groups maxGroups >>= fun bs => pure (f bs)) Value where
  ok_iff := by
    intro data pos v c'
    rw [groups_bind_apply, map_eq_ok_iff]
    constructor
    · rintro ⟨⟨bs, c₁⟩, hgroups, heq⟩
      cases heq
      obtain ⟨n, hends, rfl, rfl⟩ := groups_eq_ok_iff.mp hgroups
      refine ⟨n, hends, (hvalue _ n hends _).mp rfl, ?_⟩
      rw [Cursor.of, List.drop_drop]
    · rintro ⟨n, hends, hv, rfl⟩
      refine ⟨_, groups_eq_ok_iff.mpr ⟨n, hends, rfl, rfl⟩, ?_⟩
      rw [(hvalue _ n hends v).mpr hv, Cursor.of, List.drop_drop]
  error_iff := by
    intro data pos fault
    rw [groups_bind_apply, map_eq_error_iff]
    exact groups_eq_error_iff

/-- The unsigned reader gives the sum of the groups modulo two to the thirty-second. -/
theorem exact_uleb128 :
    Exact uleb128 fun bytes n v => v.toNat ≡ unsignedSum bytes n [MOD 2 ^ 32] := by
  refine exact_of_groups (fun bs => (groupsValue bs).toUInt32) ?_
  intro bytes n hends v
  have hv : v.toNat % 2 ^ 32 = v.toNat := Nat.mod_eq_of_lt v.toNat_lt
  rw [groupsValue_take hends.le_length, ← UInt32.toNat_inj, Nat.toUInt32, UInt32.toNat_ofNat',
    Nat.ModEq, hv]

/-- The signed reader gives the number of thirty-two bits that is congruent to the signed sum. -/
theorem exact_sleb128 :
    Exact sleb128 fun bytes n v =>
      (-2 ^ 31 ≤ v ∧ v < 2 ^ 31) ∧ v ≡ signedSum bytes n [ZMOD 2 ^ 32] := by
  refine exact_of_groups (fun bs => (signedValue bs).bmod 0x100000000) ?_
  intro bytes n hends v
  rw [signedValue_take hends.pos hends.le_length, Int.ModEq]
  constructor
  · rintro rfl
    have hlow := Int.le_bmod (x := signedSum bytes n) (m := 0x100000000) (by decide)
    have hhigh := Int.bmod_lt (x := signedSum bytes n) (m := 0x100000000) (by decide)
    exact ⟨by omega, Int.bmod_emod⟩
  · rintro ⟨hrange, hmod⟩
    have hself : v.bmod 0x100000000 = v := by
      apply Int.bmod_eq_of_le <;> omega
    rw [← hself]
    exact bmod_eq_of_emod_eq hmod

end Reader

/-! ## Shortest forms -/

/-- The bytes are a form, and no form has fewer. -/
def Shortest (Form : List UInt8 → Prop) (bytes : List UInt8) : Prop :=
  Form bytes ∧ ∀ bs, Form bs → bytes.length ≤ bs.length

/-- No form of a number is shorter than its groups. -/
theorem length_ulebOf_le_of_uleb128 {n : ℤ} {bs : List UInt8} (h : Leb128 (fun g => g) n bs)
    (k : ℕ) : (ulebOf k n.toNat).length ≤ bs.length := by
  induction h generalizing k with
  | @last b hb =>
    cases k with
    | zero => exact le_refl 1
    | succ k =>
      rw [ulebOf, if_pos (by omega)]
      exact le_refl 1
  | @more b n bs hb hrest ih =>
    have hbyte := b.toNat_lt
    have hpos : 0 ≤ n := groupsValue_of_uleb128 hrest ▸ Int.natCast_nonneg _
    cases k with
    | zero => exact Nat.succ_pos _
    | succ k =>
      rw [ulebOf]
      split_ifs
      · exact Nat.succ_pos _
      · rw [show ((b.toNat : ℤ) - 128 + 128 * n).toNat / 128 = n.toNat by omega]
        exact Nat.succ_le_succ (ih k)

/-- No form of a signed number is shorter than its groups. -/
theorem length_slebOf_le_of_sleb128 {n : ℤ} {bs : List UInt8} (h : Sleb128 n bs) (k : ℕ) :
    (slebOf k n).length ≤ bs.length := by
  unfold Sleb128 at h
  induction h generalizing k with
  | @last b hb =>
    cases k with
    | zero => exact le_refl 1
    | succ k =>
      rw [slebOf, if_pos (by split_ifs <;> omega)]
      exact le_refl 1
  | @more b n bs hb _ ih =>
    have hbyte := b.toNat_lt
    cases k with
    | zero => exact Nat.succ_pos _
    | succ k =>
      rw [slebOf]
      split_ifs
      · exact Nat.succ_pos _
      · rw [show ((b.toNat : ℤ) - 128 + 128 * n) / 128 = n by omega]
        exact Nat.succ_le_succ (ih k)

/-- The groups of an unsigned word are a form of it, and no form is shorter. -/
theorem shortest_ulebOf (v : UInt32) : Shortest (Uleb128 v.toNat) (ulebOf 4 v.toNat) := by
  have hv := v.toNat_lt
  exact ⟨uleb128_ulebOf (by omega), fun bs h => length_ulebOf_le_of_uleb128 h 4⟩

/-- The groups of a signed word are a form of it, and no form is shorter. -/
theorem shortest_slebOf (v : Int32) : Shortest (Sleb128 v.toInt) (slebOf 4 v.toInt) := by
  have hlow := v.le_toInt
  have hhigh := v.toInt_lt
  exact ⟨sleb128_slebOf (by omega) (by omega), fun bs h => length_slebOf_le_of_sleb128 h 4⟩

/-! ## Words of 32 bits -/

namespace Reader

/-- The loop over the groups of a number: `left` of them can still come, `i` have been taken into the
word. The last byte is told how many bits the word has then. -/
def wordLoop (finish : UInt32 → ℕ → UInt8 → UInt32) : ℕ → ℕ → UInt32 → Reader ReadFault UInt32
  | 0, _, _ => fun c => .error (.leb128 c.pos)
  | left + 1, i, word => fun c =>
    match c.rest with
    | [] => .error (.truncated 1 c.pos 0)
    | b :: rest =>
      let word := word ||| (b &&& 0x7f).toUInt32 <<< (7 * i).toUInt32
      if b &&& 0x80 = 0 then .ok (finish word (7 * (i + 1)) b, ⟨c.pos + 1, rest⟩)
      else wordLoop finish left (i + 1) word ⟨c.pos + 1, rest⟩

/-- The unsigned reader in words. -/
def ulebLoop : Reader ReadFault UInt32 := wordLoop (fun word _ _ => word) 5 0 0

/-- Fills the word up with ones from bit `shift` on, if there is such a bit and bit six of the last
byte is set. -/
def extendSign (word : UInt32) (shift : ℕ) (b : UInt8) : UInt32 :=
  if shift < 32 ∧ b &&& 0x40 ≠ 0 then word ||| 0xffffffff <<< shift.toUInt32 else word

/-- The signed reader in words. -/
def slebLoop : Reader ReadFault ℤ := do
  let word ← wordLoop extendSign 5 0 0
  return word.toInt32.toInt

/-- The word with all groups taken in, `i` of them before these. -/
def joinGroups : ℕ → UInt32 → List UInt8 → UInt32
  | _, word, [] => word
  | i, word, b :: bs => joinGroups (i + 1) (word ||| (b &&& 0x7f).toUInt32 <<< (7 * i).toUInt32) bs

/-- The bits of a byte that the loop looks at. -/
theorem bits_of_byte (b : UInt8) : (b &&& 0x80 = 0 ↔ b.toNat < 128) ∧
    (b &&& 0x7f).toNat = b.toNat % 128 ∧ (b &&& 0x40 ≠ 0 ↔ 64 ≤ b.toNat % 128) := by
  revert b
  decide +kernel

/-- The loop takes the groups that are read all at once. -/
theorem wordLoop_eq_map (finish : UInt32 → ℕ → UInt8 → UInt32) (left i : ℕ) (word : UInt32)
    (c : Cursor) : wordLoop finish left i word c = (groups left c).map fun p =>
      (finish (joinGroups i word p.1) (7 * (i + p.1.length)) (p.1.getLastD 0), p.2) := by
  induction left generalizing i word c with
  | zero => rfl
  | succ left ih =>
    obtain ⟨pos, bytes⟩ := c
    cases bytes with
    | nil => rfl
    | cons b bytes =>
      have hbits := (bits_of_byte b).1
      rw [wordLoop]
      dsimp only
      rcases Nat.lt_or_ge b.toNat 128 with hb | hb
      · rw [if_pos (hbits.mpr hb), groups_last hb]
        rfl
      · rw [if_neg (fun h => absurd (hbits.mp h) (Nat.not_lt.mpr hb)), ih, groups_more hb]
        cases hgroups : groups left ⟨pos + 1, bytes⟩ with
        | error e => rfl
        | ok p =>
          obtain ⟨bs, c'⟩ := p
          obtain ⟨-, -, n, hform⟩ := leb128_of_groups (fun g => g) hgroups
          obtain ⟨d, ds, rfl⟩ := List.exists_cons_of_ne_nil (List.ne_nil_of_length_pos hform.length_pos)
          simp [Except.map, joinGroups, Nat.add_assoc, Nat.add_comm 1]

/-- A group that is shifted behind the bits of a word is added to it, modulo 2^32. -/
theorem toNat_or_group {word : UInt32} {i : ℕ} (hi : i < 5) (hword : word.toNat < 2 ^ (7 * i))
    (b : UInt8) : (word ||| (b &&& 0x7f).toUInt32 <<< (7 * i).toUInt32).toNat
      = (word.toNat + b.toNat % 128 * 2 ^ (7 * i)) % 2 ^ 32 := by
  have hshift : (7 * i).toUInt32.toNat % 32 = 7 * i := by
    rw [Nat.toUInt32, UInt32.toNat_ofNat']
    omega
  have hpos : 0 < 2 ^ (7 * i) := by positivity
  have hsplit : 2 ^ 32 = 2 ^ (7 * i) * 2 ^ (32 - 7 * i) := by
    rw [← pow_add]
    congr 1
    omega
  -- the bits that are shifted out are the multiples of 2^32
  have hgroup : b.toNat % 128 * 2 ^ (7 * i) % 2 ^ 32
      = b.toNat % 128 % 2 ^ (32 - 7 * i) * 2 ^ (7 * i) := by
    rw [hsplit, Nat.mul_comm _ (2 ^ (7 * i)), Nat.mul_mod_mul_left, Nat.mul_comm]
  rw [UInt32.toNat_or, UInt32.toNat_shiftLeft, hshift, UInt8.toNat_toUInt32, (bits_of_byte b).2.1,
    Nat.shiftLeft_eq, hgroup, or_mul_two_pow hword, hsplit, Nat.mod_mul,
    Nat.add_mul_mod_self_right, Nat.mod_eq_of_lt hword, Nat.add_mul_div_right _ _ hpos,
    Nat.div_eq_of_lt hword, Nat.zero_add, Nat.mul_comm]

/-- The word that the loop joins is what came before plus the groups, shifted, in thirty-two
bits. -/
theorem toNat_joinGroups {bs : List UInt8} {i : ℕ} {word : UInt32} (hlen : i + bs.length ≤ 5)
    (hword : word.toNat < 2 ^ (7 * i)) :
    (joinGroups i word bs).toNat = (word.toNat + groupsValue bs * 2 ^ (7 * i)) % 2 ^ 32 := by
  induction bs generalizing i word with
  | nil =>
    rw [joinGroups, groupsValue, Nat.zero_mul, Nat.add_zero, Nat.mod_eq_of_lt word.toNat_lt]
  | cons b bs ih =>
    rw [List.length_cons] at hlen
    have hgroup := toNat_or_group (by omega : i < 5) hword b
    have hpow : 2 ^ (7 * (i + 1)) = 128 * 2 ^ (7 * i) := by
      rw [Nat.mul_succ, pow_add]
      ring
    -- the new group is below the next one, unless the word is full anyway
    have hbelow : word.toNat + b.toNat % 128 * 2 ^ (7 * i) < 2 ^ (7 * (i + 1)) := by
      have hb : b.toNat % 128 ≤ 127 := by omega
      have hle := Nat.mul_le_mul_right (2 ^ (7 * i)) hb
      omega
    have hword' := (hgroup ▸ Nat.mod_le _ _).trans_lt hbelow
    rw [joinGroups, ih (by omega) hword', hgroup, groupsValue, hpow, Nat.mod_add_mod]
    congr 1
    ring

/-- From the start the loop makes the number of the groups, modulo 2^32. -/
theorem toNat_joinGroups_zero {bs : List UInt8} (hlen : bs.length ≤ 5) :
    (joinGroups 0 0 bs).toNat = groupsValue bs % 2 ^ 32 := by
  rw [toNat_joinGroups (by omega) (by decide), UInt32.toNat_zero, Nat.zero_add, Nat.mul_zero,
    pow_zero, Nat.mul_one]

/-- The unsigned reader is the loop that shifts the groups together. -/
theorem uleb128_eq_ulebLoop : uleb128 = ulebLoop := by
  funext c
  rw [ulebLoop, wordLoop_eq_map, uleb128, groups_bind_apply, maxGroups]
  cases hgroups : groups 5 c with
  | error e => rfl
  | ok p =>
    obtain ⟨hlen, -⟩ := leb128_of_groups (fun g => g) hgroups
    have hword : (groupsValue p.1).toUInt32 = joinGroups 0 0 p.1 := by
      rw [← UInt32.toNat_inj, toNat_joinGroups_zero hlen, Nat.toUInt32, UInt32.toNat_ofNat']
    show Except.ok ((groupsValue p.1).toUInt32, p.2) = _
    rw [hword]
    rfl

/-- Groups have seven bits each. -/
theorem groupsValue_lt (bs : List UInt8) : groupsValue bs < 2 ^ (7 * bs.length) := by
  induction bs with
  | nil => decide
  | cons b bs ih =>
    have hb : b.toNat % 128 < 128 := Nat.mod_lt _ (by decide)
    rw [groupsValue, List.length_cons, Nat.mul_succ, pow_add]
    omega

/-- Ones above the bits of a word take the next power of two off it, modulo 2^32. -/
theorem toNat_or_ones {word : UInt32} {shift : ℕ} (hshift : shift < 32)
    (hword : word.toNat < 2 ^ shift) :
    (word ||| 0xffffffff <<< shift.toUInt32).toNat + 2 ^ shift = word.toNat + 2 ^ 32 := by
  have hamount : shift.toUInt32.toNat % 32 = shift := by
    rw [Nat.toUInt32, UInt32.toNat_ofNat']
    omega
  have hpos : 0 < 2 ^ (32 - shift) := by positivity
  have hsplit : 2 ^ 32 = 2 ^ (32 - shift) * 2 ^ shift := by
    rw [← pow_add, Nat.sub_add_cancel hshift.le]
  have hones : 0xffffffff * 2 ^ shift % 2 ^ 32 = (2 ^ (32 - shift) - 1) * 2 ^ shift := by
    have hone : 1 ≤ 2 ^ shift := Nat.one_le_two_pow
    have hle : 2 ^ shift ≤ 2 ^ 32 := Nat.pow_le_pow_right (by decide) hshift.le
    have hmod : 0xffffffff * 2 ^ shift
        = (2 ^ (32 - shift) - 1) * 2 ^ shift + (2 ^ shift - 1) * 2 ^ 32 := by
      rw [Nat.sub_one_mul, ← hsplit, Nat.sub_one_mul]
      omega
    rw [hmod, Nat.add_mul_mod_self_right, Nat.mod_eq_of_lt]
    rw [hsplit]
    exact Nat.mul_lt_mul_of_pos_right (Nat.sub_one_lt hpos.ne') (by positivity)
  have hle : 2 ^ shift ≤ 2 ^ (32 - shift) * 2 ^ shift := Nat.le_mul_of_pos_left _ hpos
  rw [UInt32.toNat_or, UInt32.toNat_shiftLeft, hamount, Nat.shiftLeft_eq]
  show (word.toNat ||| 0xffffffff * 2 ^ shift % 2 ^ 32) + 2 ^ shift = _
  rw [hones, or_mul_two_pow hword, hsplit, Nat.sub_one_mul]
  omega

/-- A word read in two's complement. -/
theorem toInt_toInt32 (word : UInt32) : word.toInt32.toInt = (word.toNat : ℤ).bmod (2 ^ 32) :=
  BitVec.toInt_eq_toNat_bmod word.toBitVec

/-- The sign is the highest bit of the last group. -/
theorem signedValue_eq {bs : List UInt8} (hpos : 0 < bs.length) :
    signedValue bs = groupsValue bs
      - if 64 ≤ (bs.getLastD 0).toNat % 128 then (2 ^ (7 * bs.length) : ℕ) else 0 := by
  obtain ⟨b, bs, rfl⟩ := List.exists_cons_of_ne_nil (List.ne_nil_of_length_pos hpos)
  have hpow : Nat.pow 128 (b :: bs).length = 2 ^ (7 * (b :: bs).length) := (pow_mul 2 7 _).symm
  have hlast : (b :: bs).getLastD 0 = bs.getLast?.getD b := by
    rw [List.getLastD_cons, List.getLastD_eq_getLast?]
  unfold signedValue
  rw [List.getLast?_cons, hlast, hpow]
  simp only [Option.any_some, ge_iff_le, decide_eq_true_eq]
  split_ifs
  · rfl
  · rw [Nat.cast_zero, sub_zero]

/-- The word that the signed reader ends with is the value of the groups. A fifth group leaves no
bits above it, and a sign there is a multiple of 2^32. -/
theorem toInt_extendSign {bs : List UInt8} (hpos : 0 < bs.length) (hlen : bs.length ≤ 5) :
    (extendSign (joinGroups 0 0 bs) (7 * bs.length) (bs.getLastD 0)).toInt32.toInt
      = (signedValue bs).bmod (2 ^ 32) := by
  have hword := toNat_joinGroups_zero hlen
  have hsign := (bits_of_byte (bs.getLastD 0)).2.2
  rw [toInt_toInt32, signedValue_eq hpos]
  apply bmod_eq_of_emod_eq
  by_cases hfour : bs.length ≤ 4
  · have hlt := groupsValue_lt bs
    have hle : 2 ^ (7 * bs.length) ≤ 2 ^ 28 := Nat.pow_le_pow_right (by decide) (by omega)
    have hsmall : (joinGroups 0 0 bs).toNat = groupsValue bs := by omega
    by_cases hneg : 64 ≤ (bs.getLastD 0).toNat % 128
    · have hones := toNat_or_ones (by omega : 7 * bs.length < 32) (hsmall ▸ hlt)
      rw [extendSign, if_pos ⟨by omega, hsign.mpr hneg⟩, if_pos hneg]
      omega
    · rw [extendSign, if_neg (fun h => hneg (hsign.mp h.2)), if_neg hneg, hsmall]
      omega
  · have hfive : 7 * bs.length = 35 := by omega
    rw [extendSign, if_neg (by omega), hfive]
    split_ifs <;> omega

/-- The signed reader is the loop that shifts the groups together and extends the sign. -/
theorem sleb128_eq_slebLoop : sleb128 = slebLoop := by
  funext c
  rw [slebLoop, bind_apply, wordLoop_eq_map, sleb128, groups_bind_apply, maxGroups]
  cases hgroups : groups 5 c with
  | error e => rfl
  | ok p =>
    obtain ⟨hlen, -, n, hform⟩ := leb128_of_groups (fun g => g) hgroups
    have hword := toInt_extendSign hform.length_pos hlen
    rw [← Nat.zero_add p.1.length] at hword
    show Except.ok ((signedValue p.1).bmod (2 ^ 32), p.2) = _
    rw [← hword]
    rfl

/-! ## All byte strings -/

/-- The readers are exact at every position of every byte string, and in words of 32 bits they are
the same readers. Numbers of 32 bits have shortest forms, which are read as these numbers whatever
follows. -/
theorem exact_leb128 :
    Exact uleb128 (fun bytes n v => v.toNat ≡ unsignedSum bytes n [MOD 2 ^ 32]) ∧
      Exact sleb128 (fun bytes n v =>
        (-2 ^ 31 ≤ v ∧ v < 2 ^ 31) ∧ v ≡ signedSum bytes n [ZMOD 2 ^ 32]) ∧
      (uleb128 = ulebLoop ∧ sleb128 = slebLoop) ∧
      (∀ v : UInt32, Shortest (Uleb128 v.toNat) (ulebOf 4 v.toNat) ∧
        ∀ pos, Reads uleb128 pos (ulebOf 4 v.toNat) v) ∧
      ∀ v : Int32, Shortest (Sleb128 v.toInt) (slebOf 4 v.toInt) ∧
        ∀ pos, Reads sleb128 pos (slebOf 4 v.toInt) v.toInt := by
  refine ⟨exact_uleb128, exact_sleb128, ⟨uleb128_eq_ulebLoop, sleb128_eq_slebLoop⟩, ?_, ?_⟩
  · intro v
    exact ⟨shortest_ulebOf v, reads_uleb128 (shortest_ulebOf v).1 (length_ulebOf_le 4 _)⟩
  · intro v
    exact ⟨shortest_slebOf v, reads_sleb128 (shortest_slebOf v).1 (length_slebOf_le 4 _)
      v.le_toInt v.toInt_lt⟩

end Reader
end Dalvik.Bytes
