import Mathlib
import Dalvik.Proofs.BodyVerdict

/-!
# Bytes that a reader takes

`Reads r pos bytes a` says that the reader `r` takes exactly `bytes` at the position `pos`, whatever
follows them, and gives `a`. Readers that are run one after the other take their bytes one after
the other (`Reads.bind`, `ReadsEach.collect`).

LEB128 is given as a grammar, `Uleb128` and `Sleb128`, which says nothing about reading. A number
has several forms, of which `ulebOf` and `slebOf` give the shortest. The readers take every form of
up to five bytes (`reads_uleb128`, `reads_sleb128`), and the shortest form of a number of
thirty-two bits has no more (`length_ulebOf_le`, `length_slebOf_le`).
-/

namespace Dalvik.Bytes

/-! ## Words -/

/-- A number below a power of two has no bit in common with a multiple of that power. -/
theorem or_mul_two_pow {a k : ℕ} (ha : a < 2 ^ k) (b : ℕ) : a ||| b * 2 ^ k = a + b * 2 ^ k := by
  rw [Nat.or_comm, ← Nat.shiftLeft_eq, ← Nat.shiftLeft_add_eq_or_of_lt ha, Nat.add_comm]

/-- The low byte comes first in a number of two bytes. -/
theorem toNat_toUInt16 (a b : UInt8) : (toUInt16 a b).toNat = a.toNat + b.toNat * 2 ^ 8 := by
  have ha : a.toNat < 2 ^ 8 := a.toNat_lt
  have hb : b.toNat < 2 ^ 8 := b.toNat_lt
  have hshift : b.toNat * 2 ^ 8 % 2 ^ 16 = b.toNat * 2 ^ 8 := Nat.mod_eq_of_lt (by omega)
  rw [← or_mul_two_pow ha]
  simp only [toUInt16, UInt16.toNat_or, UInt16.toNat_shiftLeft, UInt8.toNat_toUInt16,
    Nat.shiftLeft_eq]
  exact congrArg _ hshift

/-- The low byte comes first in a number of four bytes. -/
theorem toNat_toUInt32 (a b c d : UInt8) : (toUInt32 a b c d).toNat
    = a.toNat + b.toNat * 2 ^ 8 + c.toNat * 2 ^ 16 + d.toNat * 2 ^ 24 := by
  have ha : a.toNat < 2 ^ 8 := a.toNat_lt
  have hb : b.toNat < 2 ^ 8 := b.toNat_lt
  have hc : c.toNat < 2 ^ 8 := c.toNat_lt
  -- no bit of a byte is shifted out
  have hshift : ∀ (x : UInt8) (k : ℕ), k ≤ 24 → x.toNat * 2 ^ k % 2 ^ 32 = x.toNat * 2 ^ k := by
    intro x k hk
    apply Nat.mod_eq_of_lt
    calc x.toNat * 2 ^ k < 2 ^ 8 * 2 ^ k := Nat.mul_lt_mul_of_pos_right x.toNat_lt (by positivity)
      _ ≤ 2 ^ 8 * 2 ^ 24 := Nat.mul_le_mul_left _ (Nat.pow_le_pow_right (by norm_num) hk)
      _ = 2 ^ 32 := by norm_num
  rw [← or_mul_two_pow (by omega : a.toNat + b.toNat * 2 ^ 8 + c.toNat * 2 ^ 16 < 2 ^ 24),
    ← or_mul_two_pow (by omega : a.toNat + b.toNat * 2 ^ 8 < 2 ^ 16), ← or_mul_two_pow ha,
    ← hshift b 8 (by norm_num), ← hshift c 16 (by norm_num), ← hshift d 24 (by norm_num)]
  simp only [toUInt32, UInt32.toNat_or, UInt32.toNat_shiftLeft, UInt8.toNat_toUInt32,
    Nat.shiftLeft_eq]
  rfl

/-- A number of two bytes is read back from its bytes. -/
theorem toUInt16_ofUInt16 (v : UInt16) : toUInt16 v.toUInt8 (v >>> 8).toUInt8 = v := by
  have hv := v.toNat_lt
  apply UInt16.toNat_inj.mp
  rw [toNat_toUInt16]
  simp only [UInt16.toNat_toUInt8, UInt16.toNat_shiftRight, Nat.shiftRight_eq_div_pow,
    UInt16.toNat_ofNat, Nat.reducePow, Nat.reduceMod]
  omega

/-- A number of four bytes is read back from its bytes. -/
theorem toUInt32_ofUInt32 (v : UInt32) :
    toUInt32 v.toUInt8 (v >>> 8).toUInt8 (v >>> 16).toUInt8 (v >>> 24).toUInt8 = v := by
  have hv := v.toNat_lt
  apply UInt32.toNat_inj.mp
  rw [toNat_toUInt32]
  simp only [UInt32.toNat_toUInt8, UInt32.toNat_shiftRight, Nat.shiftRight_eq_div_pow,
    UInt32.toNat_ofNat, Nat.reducePow, Nat.reduceMod]
  omega

theorem length_ofUnits (units : List UInt16) : (ofUnits units).length = units.length * 2 := by
  induction units with
  | nil => rfl
  | cons u units ih =>
    have hcons : ofUnits (u :: units) = ofUInt16 u ++ ofUnits units := rfl
    have hunit : (ofUInt16 u).length = 2 := rfl
    rw [hcons, List.length_append, ih, hunit, List.length_cons]
    omega

/-! ## Readers in sequence -/

namespace Reader

/-- At `pos` the reader takes exactly these bytes, whatever follows them, and gives `a`. -/
def Reads {ε α : Type} (r : Reader ε α) (pos : ℕ) (bytes : List UInt8) (a : α) : Prop :=
  ∀ rest, r ⟨pos, bytes ++ rest⟩ = .ok (a, ⟨pos + bytes.length, rest⟩)

section

variable {ε δ α β : Type} {pos : ℕ} {bytes front back : List UInt8} {a : α} {b : β}

theorem Reads.pure (a : α) : Reads (pure a : Reader ε α) pos [] a := fun _ => rfl

/-- The second reader takes its bytes where the first one has stopped. -/
theorem Reads.bind {x : Reader ε α} {f : α → Reader ε β} (hx : Reads x pos front a)
    (hf : Reads (f a) (pos + front.length) back b) : Reads (x >>= f) pos (front ++ back) b := by
  intro rest
  have hbind : (x >>= f) ⟨pos, front ++ back ++ rest⟩
      = (x ⟨pos, front ++ back ++ rest⟩ >>= fun p => f p.1 p.2) := rfl
  rw [hbind, List.append_assoc, hx]
  show f a ⟨pos + front.length, back ++ rest⟩ = _
  rw [hf, List.length_append, Nat.add_assoc]

/-- A reader that takes all the bytes, before one that takes none. -/
theorem Reads.bind_nil {x : Reader ε α} {f : α → Reader ε β} (hx : Reads x pos bytes a)
    (hf : Reads (f a) (pos + bytes.length) [] b) : Reads (x >>= f) pos bytes b := by
  have h := hx.bind hf
  rwa [List.append_nil] at h

/-- A look at the position takes no bytes. -/
theorem Reads.get_bind {f : Cursor → Reader ε β}
    (hf : ∀ c : Cursor, c.pos = pos → Reads (f c) pos bytes b) :
    Reads (get >>= f) pos bytes b := by
  intro rest
  exact hf ⟨pos, bytes ++ rest⟩ rfl rest

theorem Reads.lift {x : Except ε α} (hx : x = .ok a) :
    Reads (liftM x : Reader ε α) pos [] a := by
  intro rest
  rw [hx]
  rfl

/-- A reader that succeeds does so with its faults renamed. -/
theorem Reads.mapFault {x : Reader ε α} (hx : Reads x pos bytes a) (f : ε → δ) :
    Reads (mapFault f x) pos bytes a := by
  intro rest
  show (x ⟨pos, bytes ++ rest⟩).mapError f = _
  rw [hx]
  rfl

/-- Bytes that are there are asked for. -/
theorem Reads.need_bind {n : ℕ} {g : ReadFault → ε} {f : Unit → Reader ε β}
    (hn : n ≤ bytes.length) (hf : Reads (f ()) pos bytes b) :
    Reads (Reader.mapFault g (need n) >>= f) pos bytes b := by
  intro rest
  have hthere : n ≤ (bytes ++ rest).length := by
    rw [List.length_append]
    omega
  have hneed : Reader.mapFault g (need n) ⟨pos, bytes ++ rest⟩ = .ok ((), ⟨pos, bytes ++ rest⟩) := by
    show (need n ⟨pos, bytes ++ rest⟩).mapError g = _
    rw [need, if_pos hthere]
    rfl
  have hbind : (Reader.mapFault g (need n) >>= f) ⟨pos, bytes ++ rest⟩
      = (Reader.mapFault g (need n) ⟨pos, bytes ++ rest⟩ >>= fun p => f p.1 p.2) := rfl
  rw [hbind, hneed]
  exact hf rest

/-- The steps of a loop take their bytes one after the other, from `pos` on. -/
inductive ReadsEach (step : ℕ → Reader ε α) : ℕ → ℕ → List (List UInt8) → List α → Prop where
  | nil (i pos : ℕ) : ReadsEach step i pos [] []
  | cons {i pos : ℕ} {bytes : List UInt8} {a : α} {chunks : List (List UInt8)} {values : List α}
      (hfirst : Reads (step i) pos bytes a)
      (hrest : ReadsEach step (i + 1) (pos + bytes.length) chunks values) :
      ReadsEach step i pos (bytes :: chunks) (a :: values)

/-- Steps that do not depend on where they stand. -/
theorem ReadsEach.of_forall₂ {step : ℕ → Reader ε α} {chunks : List (List UInt8)}
    {values : List α} (h : List.Forall₂ (fun bytes a => ∀ i pos, Reads (step i) pos bytes a) chunks values)
    (i pos : ℕ) : ReadsEach step i pos chunks values := by
  induction h generalizing i pos with
  | nil => exact .nil i pos
  | cons hfirst _ ih => exact .cons (hfirst i pos) (ih _ _)

theorem collect_succ (step : ℕ → Reader ε α) (i n : ℕ) (acc : Array α) :
    collect step i (n + 1) acc = step i >>= fun a => collect step (i + 1) n (acc.push a) := by
  funext c
  have hbind : (step i >>= fun a => collect step (i + 1) n (acc.push a)) c
      = (step i c >>= fun p => collect step (i + 1) n (acc.push p.1) p.2) := rfl
  rw [hbind, Reader.collect]
  dsimp only
  rcases step i c with e | ⟨a, c'⟩ <;> rfl

/-- A loop collects the values of its steps. -/
theorem ReadsEach.collect {step : ℕ → Reader ε α} {i pos : ℕ} {chunks : List (List UInt8)}
    {values : List α} (h : ReadsEach step i pos chunks values) (acc : Array α) :
    Reads (collect step i values.length acc) pos chunks.flatten (acc ++ values.toArray) := by
  induction h generalizing acc with
  | nil i pos =>
    rw [Array.append_empty]
    exact fun _ => rfl
  | @cons i pos bytes a chunks values hfirst _ ih =>
    have hpush : acc ++ (a :: values).toArray = acc.push a ++ values.toArray := by
      apply Array.ext'
      simp
    rw [hpush, List.flatten_cons, List.length_cons, collect_succ]
    exact hfirst.bind (ih _)

end

/-- The bytes of a number of two bytes are read as the number. -/
theorem reads_u2 (v : UInt16) (pos : ℕ) : Reads u2 pos (ofUInt16 v) v := by
  intro rest
  show Except.ok (toUInt16 v.toUInt8 (v >>> 8).toUInt8, _) = _
  rw [toUInt16_ofUInt16]
  rfl

/-- The bytes of a number of four bytes are read as the number. -/
theorem reads_u4 (v : UInt32) (pos : ℕ) : Reads u4 pos (ofUInt32 v) v := by
  intro rest
  show Except.ok (toUInt32 v.toUInt8 (v >>> 8).toUInt8 (v >>> 16).toUInt8 (v >>> 24).toUInt8, _) = _
  rw [toUInt32_ofUInt32]
  rfl

/-- Code units are read one by one. -/
theorem reads_units (units : List UInt16) (pos : ℕ) :
    Reads (Reader.collect (fun _ => u2) 0 units.length #[]) pos (ofUnits units) units.toArray := by
  have heach : List.Forall₂ (fun bytes a => ∀ (i pos : ℕ), Reads ((fun _ => u2) i) pos bytes a)
      (units.map ofUInt16) units := by
    rw [List.forall₂_map_left_iff, List.forall₂_same]
    intro u _ _ pos
    exact reads_u2 u pos
  have h := (ReadsEach.of_forall₂ heach 0 pos).collect #[]
  rwa [Array.empty_append, ← List.flatMap_def] at h

end Reader

/-! ## LEB128 -/

/-- The bytes are a form of a number: groups of seven bits, lowest group first, of which all but
the last carry the continuation bit. The last group stands for what `final` makes of it. -/
inductive Leb128 (final : ℕ → ℤ) : ℤ → List UInt8 → Prop where
  | last {b : UInt8} (hb : b.toNat < 128) : Leb128 final (final b.toNat) [b]
  | more {b : UInt8} {n : ℤ} {bs : List UInt8} (hb : 128 ≤ b.toNat) (h : Leb128 final n bs) :
    Leb128 final (b.toNat - 128 + 128 * n) (b :: bs)

/-- The bytes are a form of an unsigned number. -/
def Uleb128 (n : ℕ) (bs : List UInt8) : Prop := Leb128 (fun g => g) n bs

/-- The bytes are a form of a signed number: bit six of the last group is its sign. -/
def Sleb128 (n : ℤ) (bs : List UInt8) : Prop :=
  Leb128 (fun g => if g < 64 then g else (g : ℤ) - 128) n bs

/-- The shortest form of a number below `128 ^ (k + 1)`. -/
def ulebOf : ℕ → ℕ → List UInt8
  | 0, n => [n.toUInt8]
  | k + 1, n =>
    if n < 128 then [n.toUInt8] else (n % 128 + 128).toUInt8 :: ulebOf k (n / 128)

/-- The shortest form of a signed number from `-64 * 128 ^ k` on and below `64 * 128 ^ k`. -/
def slebOf : ℕ → ℤ → List UInt8
  | 0, n => [(n % 128).toNat.toUInt8]
  | k + 1, n =>
    if -64 ≤ n ∧ n < 64 then [(n % 128).toNat.toUInt8]
    else ((n % 128).toNat + 128).toUInt8 :: slebOf k (n / 128)

theorem toNat_toUInt8 {n : ℕ} (h : n < 256) : n.toUInt8.toNat = n := by
  simp [Nat.mod_eq_of_lt h]

/-- The groups of a number are a form of it, if they are enough. -/
theorem uleb128_ulebOf {k n : ℕ} (h : n < 128 ^ (k + 1)) : Uleb128 n (ulebOf k n) := by
  -- one group at a time; what is left of the number is below the next smaller power
  induction k generalizing n with
  | zero =>
    have hbyte := toNat_toUInt8 (by omega : n < 256)
    have hlast := @Leb128.last (fun g => g) n.toUInt8 (by omega)
    rwa [hbyte] at hlast
  | succ k ih =>
    rw [ulebOf]
    split_ifs with hsmall
    · have hbyte := toNat_toUInt8 (by omega : n < 256)
      have hlast := @Leb128.last (fun g => g) n.toUInt8 (by omega)
      rwa [hbyte] at hlast
    · have hbyte := toNat_toUInt8 (by omega : n % 128 + 128 < 256)
      have hrest : n / 128 < 128 ^ (k + 1) := by
        rw [Nat.div_lt_iff_lt_mul (by norm_num), ← pow_succ]
        exact h
      have hmore := Leb128.more (b := (n % 128 + 128).toUInt8) (by omega) (ih hrest)
      have hvalue : (((n % 128 + 128).toUInt8.toNat : ℕ) : ℤ) - 128 + 128 * (n / 128 : ℕ) = n := by
        rw [hbyte]
        omega
      rwa [hvalue] at hmore

/-- A number gets no more groups than it is given room for. -/
theorem length_ulebOf_le (k n : ℕ) : (ulebOf k n).length ≤ k + 1 := by
  induction k generalizing n with
  | zero => exact le_refl 1
  | succ k ih =>
    rw [ulebOf]
    split_ifs
    · simp
    · simpa using ih (n / 128)

/-- The groups of a signed number are a form of it, if they are enough. -/
theorem sleb128_slebOf {k : ℕ} {n : ℤ} (hlow : -64 * 128 ^ k ≤ n) (hhigh : n < 64 * 128 ^ k) :
    Sleb128 n (slebOf k n) := by
  -- a number that fits into the last group is told by the sign bit of that group
  have hlast : ∀ n : ℤ, -64 ≤ n → n < 64 → Sleb128 n [(n % 128).toNat.toUInt8] := by
    intro n hlow hhigh
    have hbyte := toNat_toUInt8 (by omega : (n % 128).toNat < 256)
    have hform := @Leb128.last (fun g => if g < 64 then g else (g : ℤ) - 128)
      (n % 128).toNat.toUInt8 (by omega)
    rw [hbyte] at hform
    split_ifs at hform with hsign
    · rwa [show (((n % 128).toNat : ℕ) : ℤ) = n by omega] at hform
    · rwa [show (((n % 128).toNat : ℕ) : ℤ) - 128 = n by omega] at hform
  induction k generalizing n with
  | zero => exact hlast n (by omega) (by omega)
  | succ k ih =>
    rw [slebOf]
    split_ifs with hsmall
    · exact hlast n hsmall.1 hsmall.2
    · have hbyte := toNat_toUInt8 (by omega : (n % 128).toNat + 128 < 256)
      have hpow : (128 : ℤ) ^ (k + 1) = 128 ^ k * 128 := pow_succ _ _
      have hrest := ih (n := n / 128) (by omega) (by omega)
      have hmore := Leb128.more (b := ((n % 128).toNat + 128).toUInt8) (by omega) hrest
      have hvalue : ((((n % 128).toNat + 128).toUInt8.toNat : ℕ) : ℤ) - 128 + 128 * (n / 128) = n := by
        rw [hbyte]
        omega
      rwa [hvalue] at hmore

/-- A signed number gets no more groups than it is given room for. -/
theorem length_slebOf_le (k : ℕ) (n : ℤ) : (slebOf k n).length ≤ k + 1 := by
  induction k generalizing n with
  | zero => exact le_refl 1
  | succ k ih =>
    rw [slebOf]
    split_ifs
    · simp
    · simpa using ih (n / 128)

namespace Leb128

open Reader

variable {final : ℕ → ℤ} {n : ℤ} {bs : List UInt8}

/-- A form of a number has a byte at least. -/
theorem length_pos (h : Leb128 final n bs) : 0 < bs.length := by
  cases h <;> simp

/-- The groups of a form are read up to the last one. -/
theorem reads_groups (h : Leb128 final n bs) {m : ℕ} (hlen : bs.length ≤ m) (pos : ℕ) :
    Reads (groups m) pos bs bs := by
  induction h generalizing m pos with
  | @last b hb =>
    obtain ⟨m, rfl⟩ : ∃ k, m = k + 1 := ⟨m - 1, by simp at hlen; omega⟩
    intro rest
    show groups (m + 1) ⟨pos, b :: rest⟩ = _
    rw [groups]
    exact if_pos hb
  | @more b n bs hb _ ih =>
    obtain ⟨m, rfl⟩ : ∃ k, m = k + 1 := ⟨m - 1, by simp at hlen; omega⟩
    intro rest
    have hrest := ih (m := m) (by simpa using hlen) (pos + 1) rest
    show groups (m + 1) ⟨pos, b :: (bs ++ rest)⟩ = _
    rw [groups]
    dsimp only
    rw [if_neg (by omega), hrest, List.length_cons, Nat.add_assoc, Nat.add_comm 1]

end Leb128

/-- The groups of a form add up to the number. -/
theorem groupsValue_of_uleb128 {n : ℤ} {bs : List UInt8} (h : Leb128 (fun g => g) n bs) :
    (Reader.groupsValue bs : ℤ) = n := by
  induction h with
  | @last b hb =>
    rw [Reader.groupsValue, Reader.groupsValue]
    omega
  | @more b n bs hb _ ih =>
    have hbyte : b.toNat < 256 := b.toNat_lt
    rw [Reader.groupsValue]
    push_cast
    rw [ih]
    omega

/-- The sign is told by the last group, so the groups in front of it add to the value as they do
to an unsigned one. -/
theorem signedValue_cons {b : UInt8} {bs : List UInt8} (hbs : bs ≠ []) :
    Reader.signedValue (b :: bs) = b.toNat % 128 + 128 * Reader.signedValue bs := by
  obtain ⟨c, cs, rfl⟩ := List.exists_cons_of_ne_nil hbs
  have hlast : (b :: c :: cs).getLast? = (c :: cs).getLast? := List.getLast?_cons_cons
  have hpow : Nat.pow 128 (b :: c :: cs).length = 128 * Nat.pow 128 (c :: cs).length :=
    Nat.pow_succ'
  unfold Reader.signedValue
  dsimp only
  rw [hlast, hpow, Reader.groupsValue]
  split_ifs
  · push_cast
    ring
  · push_cast
    ring

/-- The groups of a form of a signed number add up to the number. -/
theorem signedValue_of_sleb128 {n : ℤ} {bs : List UInt8} (h : Sleb128 n bs) :
    Reader.signedValue bs = n := by
  unfold Sleb128 at h
  induction h with
  | @last b hb =>
    have hmod : b.toNat % 128 = b.toNat := Nat.mod_eq_of_lt hb
    have hgroup : Reader.groupsValue [b] = b.toNat := by
      rw [Reader.groupsValue, Reader.groupsValue, hmod, Nat.mul_zero, Nat.add_zero]
    unfold Reader.signedValue
    simp only [List.getLast?_singleton, Option.any_some, hmod, hgroup]
    by_cases hsign : b.toNat < 64
    · simp [hsign, show ¬ 64 ≤ b.toNat by omega]
    · simp [hsign, show 64 ≤ b.toNat by omega]
  | @more b n bs hb hrest ih =>
    have hbyte : b.toNat < 256 := b.toNat_lt
    have hbs : bs ≠ [] := List.ne_nil_of_length_pos hrest.length_pos
    rw [signedValue_cons hbs, ih]
    omega

namespace Reader

/-- Every form of up to five bytes is read as its number. -/
theorem reads_uleb128 {v : UInt32} {bs : List UInt8} (h : Uleb128 v.toNat bs)
    (hlen : bs.length ≤ 5) (pos : ℕ) : Reads uleb128 pos bs v := by
  have hvalue : groupsValue bs = v.toNat := by
    have := groupsValue_of_uleb128 h
    omega
  refine (h.reads_groups hlen pos).bind_nil ?_
  rw [hvalue, Nat.toUInt32, UInt32.ofNat_toNat]
  exact Reads.pure v

/-- A form of at most five bytes is read as its number. -/
theorem reads_sleb128 {v : ℤ} {bs : List UInt8} (h : Sleb128 v bs) (hlen : bs.length ≤ 5)
    (hlow : -2 ^ 31 ≤ v) (hhigh : v < 2 ^ 31) (pos : ℕ) : Reads sleb128 pos bs v := by
  have hmod : v.bmod 0x100000000 = v := by
    apply Int.bmod_eq_of_le <;> omega
  refine (h.reads_groups hlen pos).bind_nil ?_
  rw [signedValue_of_sleb128 h, hmod]
  exact Reads.pure v

end Reader
end Dalvik.Bytes
