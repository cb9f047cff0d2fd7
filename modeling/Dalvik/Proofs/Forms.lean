import Mathlib
import Dalvik.Proofs.SelfDelimiting

/-!
# Forms that a reader accepts

`Accepts r Form` ties a reader to the byte forms of its values, in both directions: it takes every
form of a value, whatever follows, and where it succeeds it has taken a form of what it gives. Words
have one form each; LEB128 numbers have every form of up to five bytes, of which the number modulo
2^32 is read (`accepts_uleb128`, `accepts_sleb128`).
-/

namespace Dalvik.Bytes

/-- The cursor `c'` is `c` after these bytes. -/
def Cursor.Past (c : Cursor) (bytes : List UInt8) (c' : Cursor) : Prop :=
  c.rest = bytes ++ c'.rest ∧ c'.pos = c.pos + bytes.length

namespace Cursor.Past

variable {c c₁ c' : Cursor} {front back : List UInt8}

theorem nil (c : Cursor) : c.Past [] c := ⟨rfl, rfl⟩

theorem append (hfront : c.Past front c₁) (hback : c₁.Past back c') :
    c.Past (front ++ back) c' := by
  constructor
  · rw [hfront.1, hback.1, List.append_assoc]
  · rw [hback.2, hfront.2, List.length_append, Nat.add_assoc]

end Cursor.Past

/-! ## Words -/

/-- The bytes of a number of two bytes are those it was read from. -/
theorem ofUInt16_toUInt16 (a b : UInt8) : ofUInt16 (toUInt16 a b) = [a, b] := by
  have ha := a.toNat_lt
  have hb := b.toNat_lt
  have hvalue := toNat_toUInt16 a b
  rw [ofUInt16, List.cons.injEq, List.cons.injEq]
  refine ⟨?_, ?_, rfl⟩
  · apply UInt8.toNat_inj.mp
    rw [UInt16.toNat_toUInt8, hvalue]
    omega
  · apply UInt8.toNat_inj.mp
    simp only [UInt16.toNat_toUInt8, UInt16.toNat_shiftRight, Nat.shiftRight_eq_div_pow, hvalue,
      UInt16.toNat_ofNat, Nat.reducePow, Nat.reduceMod]
    omega

/-- The bytes of a number of four bytes are those it was read from. -/
theorem ofUInt32_toUInt32 (a b c d : UInt8) : ofUInt32 (toUInt32 a b c d) = [a, b, c, d] := by
  have ha := a.toNat_lt
  have hb := b.toNat_lt
  have hc := c.toNat_lt
  have hd := d.toNat_lt
  have hvalue := toNat_toUInt32 a b c d
  simp only [ofUInt32, List.cons.injEq, and_true, ← UInt8.toNat_inj, UInt32.toNat_toUInt8,
    UInt32.toNat_shiftRight, Nat.shiftRight_eq_div_pow, hvalue, UInt32.toNat_ofNat, Nat.reducePow,
    Nat.reduceMod]
  omega

/-! ## Readers -/

namespace Reader

variable {ε δ α β : Type}

/-- The reader takes every form of a value, and nothing else. -/
structure Accepts (r : Reader ε α) (Form : α → List UInt8 → Prop) : Prop where
  reads : ∀ {a bytes}, Form a bytes → ∀ pos, Reads r pos bytes a
  form : ∀ {c a c'}, r c = .ok (a, c') → ∃ bytes, Form a bytes ∧ c.Past bytes c'

namespace Accepts

variable {Form : α → List UInt8 → Prop} {x : Reader ε α}

/-- Two readers in sequence have succeeded, so the first one has taken a form of its value. -/
theorem bind_form (hx : Accepts x Form) {f : α → Reader ε β} {c c' : Cursor} {b : β}
    (h : (x >>= f) c = .ok (b, c')) :
    ∃ a front c₁, Form a front ∧ c.Past front c₁ ∧ f a c₁ = .ok (b, c') := by
  obtain ⟨a, c₁, hfirst, hrest⟩ := bind_eq_ok h
  obtain ⟨front, hform, hpast⟩ := hx.form hfirst
  exact ⟨a, front, c₁, hform, hpast, hrest⟩

/-- A reader that has taken all the bytes tells that they are a form. -/
theorem form_of_eq_ok (hx : Accepts x Form) {a : α} {bytes : List UInt8}
    (h : x ⟨0, bytes⟩ = .ok (a, ⟨bytes.length, []⟩)) : Form a bytes := by
  obtain ⟨front, hform, hpast, -⟩ := hx.form h
  rw [List.append_nil] at hpast
  rwa [show bytes = front from hpast]

/-- A reader whose faults are renamed accepts the same bytes. -/
theorem mapFault (hx : Accepts x Form) (g : ε → δ) : Accepts (Reader.mapFault g x) Form where
  reads h pos := (hx.reads h pos).mapFault g
  form h := hx.form (mapFault_eq_ok h)

end Accepts

/-- The steps of a loop that have succeeded have taken a form each. -/
theorem forms_of_collect {Form : α → List UInt8 → Prop} {step : ℕ → Reader ε α}
    (hstep : ∀ i, Accepts (step i) Form) {i n : ℕ} {acc xs : Array α} {c c' : Cursor}
    (h : Reader.collect step i n acc c = .ok (xs, c')) :
    ∃ values chunks, xs = acc ++ values.toArray ∧ values.length = n ∧
      List.Forall₂ Form values chunks ∧ c.Past chunks.flatten c' := by
  induction n generalizing i acc c with
  | zero =>
    cases h
    exact ⟨[], [], by simp, rfl, .nil, .nil _⟩
  | succ n ih =>
    rw [collect_succ] at h
    obtain ⟨a, front, c₁, hform, hpast, hrest⟩ := (hstep i).bind_form h
    obtain ⟨values, chunks, rfl, hlen, hforms, hpast'⟩ := ih hrest
    exact ⟨a :: values, front :: chunks, by simp, by rw [List.length_cons, hlen],
      .cons hform hforms, hpast.append hpast'⟩

/-- A loop takes the forms of its values one behind the other. -/
theorem Accepts.collect {Form : α → List UInt8 → Prop} {step : ℕ → Reader ε α}
    (hstep : ∀ i, Accepts (step i) Form) (i n : ℕ) :
    Accepts (Reader.collect step i n #[]) fun xs bytes => xs.size = n ∧
      ∃ chunks, List.Forall₂ Form xs.toList chunks ∧ bytes = chunks.flatten where
  reads := by
    rintro xs _ ⟨rfl, chunks, hforms, rfl⟩ pos
    have heach :
        List.Forall₂ (fun bytes a => ∀ i pos, Reads (step i) pos bytes a) chunks xs.toList :=
      hforms.flip.imp fun bytes a hform i pos => (hstep i).reads hform pos
    have hread := (ReadsEach.of_forall₂ heach i pos).collect #[]
    rwa [Array.empty_append, Array.toArray_toList, Array.length_toList] at hread
  form := by
    intro c xs c' h
    obtain ⟨values, chunks, rfl, hlen, hforms, hpast⟩ := forms_of_collect hstep h
    refine ⟨chunks.flatten, ⟨?_, chunks, ?_, rfl⟩, hpast⟩
    · rw [Array.empty_append, List.size_toArray, hlen]
    · rwa [Array.empty_append]

/-- A loop over values with one form each. -/
theorem Accepts.collect_flatMap {encode : α → List UInt8} {step : ℕ → Reader ε α}
    (hstep : ∀ i, Accepts (step i) fun a bytes => bytes = encode a) (i n : ℕ) :
    Accepts (Reader.collect step i n #[]) fun xs bytes =>
      xs.size = n ∧ bytes = xs.toList.flatMap encode where
  reads := by
    rintro xs _ ⟨hsize, rfl⟩ pos
    refine (Accepts.collect hstep i n).reads ⟨hsize, xs.toList.map encode, ?_, ?_⟩ pos
    · rw [List.forall₂_map_right_iff, List.forall₂_same]
      exact fun _ _ => rfl
    · rw [List.flatMap_def]
  form := by
    intro c xs c' h
    obtain ⟨_, ⟨hsize, chunks, hforms, rfl⟩, hpast⟩ := (Accepts.collect hstep i n).form h
    have hchunks : chunks = xs.toList.map encode := by
      rw [← List.forall₂_eq_eq_eq, List.forall₂_map_right_iff]
      exact hforms.flip
    refine ⟨_, ⟨hsize, ?_⟩, hpast⟩
    rw [hchunks, List.flatMap_def]

/-- Numbers of two bytes have one form. -/
theorem accepts_u2 : Accepts u2 fun v bytes => bytes = ofUInt16 v where
  reads := by
    rintro v _ rfl pos
    exact reads_u2 v pos
  form := by
    rintro ⟨pos, rest⟩ v c' h
    match rest, h with
    | [], h => cases h
    | [_], h => cases h
    | a :: b :: rest, h =>
      cases h
      exact ⟨[a, b], (ofUInt16_toUInt16 a b).symm, rfl, rfl⟩

/-- Numbers of four bytes have one form. -/
theorem accepts_u4 : Accepts u4 fun v bytes => bytes = ofUInt32 v where
  reads := by
    rintro v _ rfl pos
    exact reads_u4 v pos
  form := by
    rintro ⟨pos, rest⟩ v c' h
    match rest, h with
    | [], h => cases h
    | [_], h => cases h
    | [_, _], h => cases h
    | [_, _, _], h => cases h
    | x :: y :: z :: w :: rest, h =>
      cases h
      exact ⟨[x, y, z, w], (ofUInt32_toUInt32 x y z w).symm, rfl, rfl⟩

/-! ## Numbers -/

/-- The groups that are read end with the first one without the continuation bit, so they are a form
of a number, whatever the last one stands for. -/
theorem leb128_of_groups (final : ℕ → ℤ) {m : ℕ} {c c' : Cursor} {bs : List UInt8}
    (h : groups m c = .ok (bs, c')) :
    bs.length ≤ m ∧ c.Past bs c' ∧ ∃ n, Leb128 final n bs := by
  induction m generalizing c bs with
  | zero => cases h
  | succ m ih =>
    obtain ⟨pos, rest⟩ := c
    cases rest with
    | nil => cases h
    | cons b rest =>
      rw [groups] at h
      dsimp only at h
      split_ifs at h with hb
      · cases h
        exact ⟨by simp, ⟨rfl, rfl⟩, _, .last hb⟩
      · split at h
        · cases h
        · rename_i tail c₁ htail
          cases h
          obtain ⟨hlen, hpast, n, hform⟩ := ih htail
          have hbyte : Cursor.Past ⟨pos, b :: rest⟩ [b] ⟨pos + 1, rest⟩ := ⟨rfl, rfl⟩
          exact ⟨by simpa using hlen, hbyte.append hpast, _, .more (by omega) hform⟩

end Reader

/-- The bytes are a form of up to five bytes of a number that is `v` modulo 2^32. -/
def NumberForm (v : UInt32) (bytes : List UInt8) : Prop :=
  ∃ n : ℕ, Uleb128 n bytes ∧ bytes.length ≤ 5 ∧ v.toNat = n % 2 ^ 32

/-- The bytes are a form of up to five bytes of a number whose low thirty-two bits are `v`, in two's
complement. -/
def SizeForm (v : ℤ) (bytes : List UInt8) : Prop :=
  ∃ n : ℤ, Sleb128 n bytes ∧ bytes.length ≤ 5 ∧ v = n.bmod (2 ^ 32)

theorem SizeForm.length_pos {v : ℤ} {bytes : List UInt8} (h : SizeForm v bytes) :
    0 < bytes.length := by
  obtain ⟨n, hform, -⟩ := h
  exact Leb128.length_pos hform

namespace Reader

/-- The reader of unsigned numbers accepts every form of a number, padded or not. -/
theorem accepts_uleb128 : Accepts uleb128 NumberForm where
  reads := by
    rintro v bytes ⟨n, hform, hlen, hv⟩ pos
    refine (Leb128.reads_groups hform hlen pos).bind_nil ?_
    have hvalue : (groupsValue bytes).toUInt32 = v := by
      have hgroups := groupsValue_of_uleb128 hform
      apply UInt32.toNat_inj.mp
      rw [Nat.toUInt32, UInt32.toNat_ofNat', hv, Int.natCast_inj.mp hgroups]
    rw [hvalue]
    exact Reads.pure v
  form := by
    intro c v c' h
    obtain ⟨bs, c₁, hgroups, hrest⟩ := bind_eq_ok h
    cases hrest
    obtain ⟨hlen, hpast, n, hform⟩ := leb128_of_groups (fun g => g) hgroups
    have hvalue := groupsValue_of_uleb128 hform
    rw [← hvalue] at hform
    refine ⟨bs, ⟨groupsValue bs, hform, hlen, ?_⟩, hpast⟩
    rw [Nat.toUInt32, UInt32.toNat_ofNat']

/-- The reader of sizes accepts every form of a size, padded or not. -/
theorem accepts_sleb128 : Accepts sleb128 SizeForm where
  reads := by
    rintro v bytes ⟨n, hform, hlen, rfl⟩ pos
    refine (Leb128.reads_groups hform hlen pos).bind_nil ?_
    rw [signedValue_of_sleb128 hform]
    exact Reads.pure _
  form := by
    intro c v c' h
    obtain ⟨bs, c₁, hgroups, hrest⟩ := bind_eq_ok h
    cases hrest
    obtain ⟨hlen, hpast, n, hform⟩ :=
      leb128_of_groups (fun g => if g < 64 then g else (g : ℤ) - 128) hgroups
    refine ⟨bs, ⟨n, hform, hlen, ?_⟩, hpast⟩
    rw [signedValue_of_sleb128 hform]
    rfl

/-! ## Faults -/

/-- All faults of the reader are of the given kind. -/
def FaultsIn (kind : ε → Prop) (r : Reader ε α) : Prop := ∀ c e, r c = .error e → kind e

namespace FaultsIn

variable {kind : ε → Prop}

theorem pure (a : α) : FaultsIn kind (pure a : Reader ε α) := by
  intro c e h
  cases h

theorem throw {e : ε} (he : kind e) : FaultsIn kind (throw e : Reader ε α) := by
  intro c e' h
  cases h
  exact he

/-- Two readers in sequence have faults of the kind if each of them has. -/
theorem bind {x : Reader ε α} {f : α → Reader ε β} (hx : FaultsIn kind x)
    (hf : ∀ a, FaultsIn kind (f a)) : FaultsIn kind (x >>= f) := by
  intro c e h
  rw [bind_apply] at h
  cases hrun : x c with
  | error e' =>
    rw [hrun] at h
    cases h
    exact hx c e hrun
  | ok p =>
    rw [hrun] at h
    exact hf p.1 p.2 e h

theorem collect {step : ℕ → Reader ε α} (hstep : ∀ i, FaultsIn kind (step i)) (i n : ℕ)
    (acc : Array α) : FaultsIn kind (Reader.collect step i n acc) := by
  induction n generalizing i acc with
  | zero => exact pure acc
  | succ n ih =>
    rw [collect_succ]
    exact (hstep i).bind fun a => ih (i + 1) (acc.push a)

end FaultsIn

end Reader
end Dalvik.Bytes
