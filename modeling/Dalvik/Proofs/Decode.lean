import Mathlib
import Dalvik.Check.Widths
import Dalvik.Proofs.Layout

/-!
# One step of the decode

A step of the sequential decode finds an instruction at an offset if and only if the units from
there on begin with one: `decode_of_prefix` and `prefix_of_decode`. In between stand the readers
of units and pairs of units, in terms of the numbers that the layout speaks of, and `decode_cases`,
which says everything a successful step tells about the units.
-/

namespace Dalvik
namespace Layout

/-! ## Units -/

theorem getElem?_code {code : Code} {i : ℕ} (h : i < code.size) :
    code[i]? = some (rawAt code i) := by
  rw [rawAt, Array.getElem?_eq_getElem h]
  rfl

theorem rawAt_of_getElem? {code : Code} {i : ℕ} {u : UInt16} (h : code[i]? = some u) :
    rawAt code i = u := by
  rw [rawAt, h]
  rfl

theorem lt_size_of_getElem? {code : Code} {i : ℕ} {u : UInt16} (h : code[i]? = some u) :
    i < code.size := by
  obtain ⟨hi, -⟩ := Array.getElem?_eq_some_iff.mp h
  exact hi

/-- The units from an offset on begin with the unit there. -/
theorem drop_toList {code : Code} {i : ℕ} (h : i < code.size) :
    code.toList.drop i = rawAt code i :: code.toList.drop (i + 1) := by
  have hlen : i < code.toList.length := by rwa [Array.length_toList]
  rw [List.drop_eq_getElem_cons hlen, rawAt, Array.getElem?_eq_getElem h]
  rfl

/-- A unit of a series of units at `off` is a unit of the code. -/
theorem rawAt_of_drop {code : Code} {off k : ℕ} {u : UInt16} {l : List UInt16}
    (h : code.toList.drop off = l) (hu : l[k]? = some u) :
    off + k < code.size ∧ rawAt code (off + k) = u := by
  rw [← h, List.getElem?_drop, Array.getElem?_toList] at hu
  exact ⟨lt_size_of_getElem? hu, rawAt_of_getElem? hu⟩

/-- Two units make a number, the low one first. -/
theorem joinUnits_toNat (low high : UInt16) :
    (joinUnits low high).toNat = low.toNat + 65536 * high.toNat := by
  have hlow := low.toNat_lt
  have hhigh := high.toNat_lt
  have hshift : (16 : UInt32).toNat % 32 = 16 := by rfl
  -- the halves do not overlap, so joining them is adding them
  rw [joinUnits, UInt32.toNat_or, UInt32.toNat_shiftLeft, UInt16.toNat_toUInt32,
    UInt16.toNat_toUInt32, hshift, Nat.shiftLeft_eq, Nat.mod_eq_of_lt (by omega), Nat.or_comm,
    ← Nat.shiftLeft_eq, ← Nat.shiftLeft_add_eq_or_of_lt (by omega), Nat.shiftLeft_eq]
  omega

theorem pair?_eq {code : Code} {i : ℕ} (h : i + 1 < code.size) :
    Code.pair? code i = some (joinUnits (rawAt code i) (rawAt code (i + 1))) := by
  rw [Code.pair?, getElem?_code (show i < code.size by omega), getElem?_code h]

/-- A pair that is cut off by the end of the code is not there. -/
theorem pair?_eq_none {code : Code} {i : ℕ} (h : code.size ≤ i + 1) : Code.pair? code i = none := by
  have hnone : code[i + 1]? = none := Array.getElem?_eq_none h
  rw [Code.pair?, hnone]
  split
  · rename_i hc
    cases hc
  · rfl

/-- The signed value of a word is its balanced remainder. -/
theorem toInt32_eq_bmod (v : UInt32) : v.toInt32.toInt = Int.bmod v.toNat 4294967296 :=
  BitVec.toInt_eq_toNat_bmod v.toBitVec

theorem signedPair?_eq {code : Code} {i : ℕ} (h : i + 1 < code.size) :
    Code.signedPair? code i = some (signedAt code i) := by
  have hvalue : (joinUnits (rawAt code i) (rawAt code (i + 1))).toNat = pairAt code i :=
    joinUnits_toNat _ _
  rw [Code.signedPair?, pair?_eq h, Option.map_some]
  rw [toInt32_eq_bmod, hvalue]
  unfold signedAt
  exact congrArg some rfl

/-! ## Opcodes -/

/-- The assigned opcodes are those with a width. -/
theorem width_ne_zero_iff (op : Opcode) : op.width ≠ 0 ↔ op.isAssigned = true := by
  unfold Opcode.width Opcode.isAssigned
  cases op.format <;> decide

/-- No instruction has more than five units. -/
theorem width_le_five (op : Opcode) : op.width ≤ 5 := by
  unfold Opcode.width
  cases op.format <;> decide

/-- What holds of every row of the table holds of every opcode. -/
theorem forall_info {P : ℕ → OpcodeInfo → Prop} [∀ n i, Decidable (P n i)]
    (h : Opcode.table.zipIdx.all (fun row => decide (P row.2 row.1)) = true) (op : Opcode) :
    P op.value.toNat op.info := by
  have hlt := op.value_lt_size
  -- the row of an opcode stands at the place of its value
  have hmem : (op.info, op.value.toNat) ∈ Opcode.table.zipIdx := by
    rw [List.mem_zipIdx_iff_getElem?]
    simp only [Opcode.info, Opcode.entries]
    rw [List.getElem_toArray, List.getElem?_eq_getElem]
  rw [List.all_eq_true] at h
  exact of_decide_eq_true (h _ hmem)

/-- The branches, and the widths of the instructions that the checks read operands of. -/
theorem transfer_info (op : Opcode) :
    (op.isBranch = true ↔
      (0x28 ≤ op.value.toNat ∧ op.value.toNat ≤ 0x2a) ∨
        (0x32 ≤ op.value.toNat ∧ op.value.toNat ≤ 0x3d)) ∧
    (op.value.toNat = 0x28 → op.width = 1) ∧
    (op.value.toNat = 0x29 ∨ 0x32 ≤ op.value.toNat ∧ op.value.toNat ≤ 0x3d → op.width = 2) ∧
    (op.value.toNat = 0x26 ∨ 0x2a ≤ op.value.toNat ∧ op.value.toNat ≤ 0x2c → op.width = 3) :=
  forall_info (P := fun n i =>
    (i.flow.branches = true ↔ (0x28 ≤ n ∧ n ≤ 0x2a) ∨ (0x32 ≤ n ∧ n ≤ 0x3d)) ∧
    (n = 0x28 → i.format.width = 1) ∧
    (n = 0x29 ∨ 0x32 ≤ n ∧ n ≤ 0x3d → i.format.width = 2) ∧
    (n = 0x26 ∨ 0x2a ≤ n ∧ n ≤ 0x2c → i.format.width = 3)) (by decide +kernel) op

/-- The opcode of a unit is its low byte. -/
theorem value_ofUnit (u : UInt16) : (Opcode.ofUnit u).value.toNat = u.toNat % 256 :=
  UInt16.toNat_toUInt8 u

theorem ofUnit_eq_iff (u : UInt16) (v : UInt8) : Opcode.ofUnit u = ⟨v⟩ ↔ u.toNat % 256 = v.toNat := by
  rw [← value_ofUnit, Opcode.ofUnit, Opcode.mk.injEq, ← UInt8.toNat_inj]

/-! ## Payload tables -/

/-- A unit that announces no payload table is none of the three signatures. -/
theorem ofUnit?_eq_none_iff (u : UInt16) :
    PayloadKind.ofUnit? u = none ↔ u ≠ 0x0100 ∧ u ≠ 0x0200 ∧ u ≠ 0x0300 := by
  simp only [PayloadKind.ofUnit?, PayloadKind.signature]
  by_cases hpacked : u = 0x0100
  · simp [hpacked]
  · by_cases hsparse : u = 0x0200
    · simp [hsparse]
    · by_cases harray : u = 0x0300
      · simp [harray]
      · simp [hpacked, hsparse, harray]

/-- A unit announces a kind of payload table if and only if it is its signature. -/
theorem ofUnit?_eq_some_iff (u : UInt16) (kind : PayloadKind) :
    PayloadKind.ofUnit? u = some kind ↔ u = kind.signature := by
  constructor
  · intro h
    simp only [PayloadKind.ofUnit?] at h
    split_ifs at h with h1 h2 h3 <;> cases h <;> assumption
  · rintro rfl
    cases kind <;> decide

/-- The extent that the header of a table asks for, in terms of the units. -/
def extentAt (code : Code) (kind : PayloadKind) (off : ℕ) : ℕ :=
  match kind with
  | .packedSwitch => 4 + 2 * unitAt code (off + 1)
  | .sparseSwitch => 2 + 4 * unitAt code (off + 1)
  | .arrayData => 4 + (unitAt code (off + 1) * pairAt code (off + 2) + 1) / 2

/-- An extent that is found is that of the layout. -/
theorem payloadExtent?_eq_some {code : Code} {kind : PayloadKind} {off extent : ℕ}
    (h : Code.payloadExtent? code kind off = some extent) : extent = extentAt code kind off := by
  cases kind with
  | packedSwitch =>
    obtain ⟨n, hn, rfl⟩ := Option.map_eq_some_iff.mp h
    rw [extentAt, unitAt, rawAt_of_getElem? hn, packedSwitchExtent, Nat.mul_comm]
  | sparseSwitch =>
    obtain ⟨n, hn, rfl⟩ := Option.map_eq_some_iff.mp h
    rw [extentAt, unitAt, rawAt_of_getElem? hn, sparseSwitchExtent, Nat.mul_comm]
  | arrayData =>
    simp only [Code.payloadExtent?] at h
    split at h
    · rename_i width count hwidth hcount
      cases h
      -- the count of an array table is read only where both of its units are
      by_cases hlt : off + 2 + 1 < code.size
      · rw [pair?_eq hlt] at hcount
        cases hcount
        rw [extentAt, unitAt, rawAt_of_getElem? hwidth, arrayDataExtent, joinUnits_toNat]
        rfl
      · rw [pair?_eq_none (by omega)] at hcount
        cases hcount
    · cases h

/-- Every payload table has two units at least. -/
theorem two_le_extentAt (code : Code) (kind : PayloadKind) (off : ℕ) :
    2 ≤ extentAt code kind off := by
  cases kind <;> simp only [extentAt] <;> omega

/-- The extent of a table inside the code is found. -/
theorem payloadExtent?_eq {code : Code} {kind : PayloadKind} {off : ℕ}
    (h : off + extentAt code kind off ≤ code.size) :
    Code.payloadExtent? code kind off = some (extentAt code kind off) := by
  have htwo := two_le_extentAt code kind off
  have hone : off + 1 < code.size := by omega
  cases kind with
  | packedSwitch =>
    simp only [Code.payloadExtent?, getElem?_code hone, Option.map_some, packedSwitchExtent,
      extentAt, unitAt, Nat.mul_comm]
  | sparseSwitch =>
    simp only [Code.payloadExtent?, getElem?_code hone, Option.map_some, sparseSwitchExtent,
      extentAt, unitAt, Nat.mul_comm]
  | arrayData =>
    have hfour : off + 2 + 1 < code.size := by
      rw [extentAt] at h
      omega
    simp only [Code.payloadExtent?, getElem?_code hone, pair?_eq hfour, arrayDataExtent,
      joinUnits_toNat, extentAt, unitAt, pairAt]

/-! ## One step -/

/-- Where there is no signature, there is no table to measure. -/
theorem measureAt_eq_ok_none {code : Code} {off : ℕ} (h : off < code.size)
    (hkind : PayloadKind.ofUnit? (rawAt code off) = none) :
    Code.measureAt code off = .ok none := by
  simp only [Code.measureAt, getElem?_code h, hkind]

/-- A table inside the code is measured. -/
theorem measureAt_eq_ok_some {code : Code} {off : ℕ} {kind : PayloadKind}
    (hkind : rawAt code off = kind.signature)
    (hext : off + extentAt code kind off ≤ code.size) :
    Code.measureAt code off = .ok (some (extentAt code kind off)) := by
  have htwo := two_le_extentAt code kind off
  have hsome := (ofUnit?_eq_some_iff _ kind).mpr hkind
  simp only [Code.measureAt, getElem?_code (show off < code.size by omega), hsome,
    payloadExtent?_eq hext]
  rw [if_pos (by omega)]

/-- What is no table is an ordinary unit inside the code. -/
theorem measureAt_none {code : Code} {off : ℕ} (h : Code.measureAt code off = .ok none) :
    off < code.size ∧ PayloadKind.ofUnit? (rawAt code off) = none := by
  unfold Code.measureAt at h
  split at h
  · cases h
  · rename_i u hu
    refine ⟨lt_size_of_getElem? hu, ?_⟩
    rw [rawAt_of_getElem? hu]
    split at h
    · assumption
    · split at h
      · cases h
      · split at h <;> cases h

/-- A table that is measured has a signature and lies inside the code. -/
theorem measureAt_some {code : Code} {off extent : ℕ}
    (h : Code.measureAt code off = .ok (some extent)) :
    ∃ kind : PayloadKind, rawAt code off = kind.signature ∧ extent = extentAt code kind off ∧
      off + extent ≤ code.size := by
  unfold Code.measureAt at h
  split at h
  · cases h
  · rename_i u hu
    have hlt := lt_size_of_getElem? hu
    split at h
    · cases h
    · rename_i kind hkind
      split at h
      · cases h
      · rename_i e hext
        split at h
        · rename_i hle
          cases h
          refine ⟨kind, ?_, payloadExtent?_eq_some hext, by omega⟩
          rw [rawAt_of_getElem? hu]
          exact (ofUnit?_eq_some_iff u kind).mp hkind
        · cases h

/-- What a successful step of the decode says about the units. -/
theorem decode_cases {code : Code} {off : ℕ} {ins : Instruction}
    (h : Instruction.decode code off = .ok ins) :
    off + ins.width ≤ code.size ∧
      ((PayloadKind.ofUnit? (rawAt code off) = none ∧
          ins.width = (Opcode.ofUnit (rawAt code off)).width ∧
          ins.allocates = (Opcode.ofUnit (rawAt code off)).isAllocation) ∨
        ∃ kind : PayloadKind, rawAt code off = kind.signature ∧
          ins.width = extentAt code kind off ∧ ins.width ≤ 65535 ∧ ins.allocates = false) := by
  unfold Instruction.decode at h
  split at h
  · cases h
  · rename_i extent hm
    split at h
    · cases h
    · rename_i hmax
      cases h
      -- a payload table: the measure was compared with the code, the width with its field
      obtain ⟨kind, hkind, hext, hsize⟩ := measureAt_some hm
      exact ⟨hsize, Or.inr ⟨kind, hkind, hext, Nat.not_lt.mp hmax, rfl⟩⟩
  · rename_i hm
    -- an ordinary instruction: its opcode is assigned and its units are there
    obtain ⟨hlt, hnone⟩ := measureAt_none hm
    rw [getElem?_code hlt] at h
    simp only at h
    split at h
    · cases h
    · split at h
      · cases h
      · rename_i hle
        cases h
        refine ⟨?_, Or.inl ⟨hnone, rfl, rfl⟩⟩
        show off + (Opcode.ofUnit (rawAt code off)).width ≤ code.size
        omega

/-- A step never leaves the code. -/
theorem decode_le_size {code : Code} {off : ℕ} {ins : Instruction}
    (h : Instruction.decode code off = .ok ins) : off + ins.width ≤ code.size :=
  (decode_cases h).1

/-- A step begins inside the code. -/
theorem decode_lt_size {code : Code} {off : ℕ} {ins : Instruction}
    (h : Instruction.decode code off = .ok ins) : off < code.size := by
  have hle := decode_le_size h
  have hpos := ins.width_pos
  omega

/-- The width of an instruction fits the width field. -/
theorem decode_width_le {code : Code} {off : ℕ} {ins : Instruction}
    (h : Instruction.decode code off = .ok ins) : ins.width ≤ FlagWord.maxWidth := by
  obtain ⟨-, ⟨-, hwidth, -⟩ | ⟨kind, -, -, hmax, -⟩⟩ := decode_cases h
  · have hfive := width_le_five (Opcode.ofUnit (rawAt code off))
    rw [FlagWord.maxWidth]
    omega
  · exact hmax

/-- The decode at a table that cannot be measured. -/
theorem decode_of_measure_error {code : Code} {off : ℕ} {fault : PayloadFault}
    (h : Code.measureAt code off = .error fault) :
    Instruction.decode code off = .error (.payload fault) := by
  unfold Instruction.decode
  -- the match keeps the measure as an equation, and only one case agrees with `h`
  split
  · rename_i h'
    rw [h] at h'
    cases h'
    rfl
  · rename_i h'
    rw [h] at h'
    cases h'
  · rename_i h'
    rw [h] at h'
    cases h'

/-- The decode at a table of known extent. -/
theorem decode_of_measure_some {code : Code} {off extent : ℕ}
    (h : Code.measureAt code off = .ok (some extent)) :
    Instruction.decode code off
      = if FlagWord.maxWidth < extent then .error (.width extent)
        else .ok ⟨extent, false, Code.measureAt_pos h⟩ := by
  unfold Instruction.decode
  split
  · rename_i h'
    rw [h] at h'
    cases h'
  · rename_i h'
    rw [h] at h'
    cases h'
    rfl
  · rename_i h'
    rw [h] at h'
    cases h'

/-- The decode at a unit that starts no table. -/
theorem decode_of_not_payload {code : Code} {off : ℕ} (hlt : off < code.size)
    (hkind : PayloadKind.ofUnit? (rawAt code off) = none) :
    Instruction.decode code off
      = if hw : (Opcode.ofUnit (rawAt code off)).width = 0 then
          .error (.unknownOpcode (Opcode.ofUnit (rawAt code off)))
        else if code.size - off < (Opcode.ofUnit (rawAt code off)).width then
          .error (.instructionEnd (Opcode.ofUnit (rawAt code off))
            (Opcode.ofUnit (rawAt code off)).width (code.size - off))
        else .ok ⟨(Opcode.ofUnit (rawAt code off)).width,
          (Opcode.ofUnit (rawAt code off)).isAllocation, Nat.pos_of_ne_zero hw⟩ := by
  have hm := measureAt_eq_ok_none hlt hkind
  unfold Instruction.decode
  split
  · rename_i hm'
    rw [hm] at hm'
    cases hm'
  · rename_i hm'
    rw [hm] at hm'
    cases hm'
  · rw [getElem?_code hlt]

/-- An assigned opcode whose units are there is decoded. -/
theorem decode_ordinary {code : Code} {off : ℕ} (hlt : off < code.size)
    (hkind : PayloadKind.ofUnit? (rawAt code off) = none)
    (hop : (Opcode.ofUnit (rawAt code off)).isAssigned = true)
    (hsize : off + (Opcode.ofUnit (rawAt code off)).width ≤ code.size) :
    ∃ ins, Instruction.decode code off = .ok ins ∧
      ins.width = (Opcode.ofUnit (rawAt code off)).width := by
  have hne := (width_ne_zero_iff _).mpr hop
  rw [decode_of_not_payload hlt hkind, dif_neg hne, if_neg (by omega)]
  exact ⟨_, rfl, rfl⟩

/-- A payload table inside the code is decoded, unless its extent exceeds the field for widths. -/
theorem decode_table {code : Code} {off : ℕ} {kind : PayloadKind}
    (hkind : rawAt code off = kind.signature)
    (hsize : off + extentAt code kind off ≤ code.size) (hmax : extentAt code kind off ≤ 65535) :
    ∃ ins, Instruction.decode code off = .ok ins ∧ ins.width = extentAt code kind off := by
  rw [decode_of_measure_some (measureAt_eq_ok_some hkind hsize),
    if_neg (by rw [FlagWord.maxWidth]; omega)]
  exact ⟨_, rfl, rfl⟩

/-! ## Steps and instructions -/

/-- An instruction has units. -/
theorem IsInstruction.length_pos {p : List UInt16} (h : IsInstruction p) : 0 < p.length := by
  cases h <;> simp

theorem length_drop_toList (code : Code) (off : ℕ) :
    (code.toList.drop off).length = code.size - off := by
  rw [List.length_drop, Array.length_toList]

/-- Units that begin with an instruction are decoded as that instruction. -/
theorem decode_of_prefix {code : Code} {off : ℕ} {p : List UInt16} (hp : IsInstruction p)
    (hpre : p <+: code.toList.drop off) :
    ∃ ins, Instruction.decode code off = .ok ins ∧ ins.width = p.length := by
  have hsize : off + p.length ≤ code.size := by
    have hle := hpre.length_le
    have hpos := hp.length_pos
    rw [length_drop_toList] at hle
    omega
  obtain ⟨after, hafter⟩ := hpre
  -- the units of the prefix are units of the code
  have hunit : ∀ {k : ℕ} {u : UInt16}, p[k]? = some u → rawAt code (off + k) = u := by
    intro k u hu
    refine (rawAt_of_drop hafter.symm ?_).2
    rw [List.getElem?_append_left (List.getElem?_eq_some_iff.mp hu).1, hu]
  cases hp with
  | ordinary first rest hfirst hop hlen =>
    have hraw : rawAt code off = first := hunit (k := 0) rfl
    rw [List.length_cons] at hsize ⊢
    obtain ⟨ins, hdec, hwidth⟩ := @decode_ordinary code off (by omega)
      (by rw [hraw]; exact (ofUnit?_eq_none_iff first).mpr hfirst) (by rw [hraw]; exact hop)
      (by rw [hraw]; omega)
    exact ⟨ins, hdec, by rw [hwidth, hraw, hlen]⟩
  | packedSwitch n rest hlen hmax =>
    have hext : extentAt code .packedSwitch off = rest.length + 2 := by
      rw [extentAt, unitAt, hunit (k := 1) rfl, hlen]
    simp only [List.length_cons] at hsize ⊢
    rw [← hext]
    exact @decode_table _ _ .packedSwitch (hunit (k := 0) rfl) (by omega) (by omega)
  | sparseSwitch n rest hlen hmax =>
    have hext : extentAt code .sparseSwitch off = rest.length + 2 := by
      rw [extentAt, unitAt, hunit (k := 1) rfl, hlen]
    simp only [List.length_cons] at hsize ⊢
    rw [← hext]
    exact @decode_table _ _ .sparseSwitch (hunit (k := 0) rfl) (by omega) (by omega)
  | arrayData width low high rest hlen hmax =>
    have hext : extentAt code .arrayData off = rest.length + 4 := by
      rw [extentAt, pairAt, unitAt, unitAt, unitAt, hunit (k := 1) rfl, hunit (k := 2) rfl,
        show off + 2 + 1 = off + 3 from rfl, hunit (k := 3) rfl, hlen]
    simp only [List.length_cons] at hsize ⊢
    rw [← hext]
    exact @decode_table _ _ .arrayData (hunit (k := 0) rfl) (by omega) (by omega)

/-- What is decoded at `off` is an instruction with which the units from `off` on begin. -/
theorem prefix_of_decode {code : Code} {off : ℕ} {ins : Instruction}
    (h : Instruction.decode code off = .ok ins) :
    ∃ p, IsInstruction p ∧ p <+: code.toList.drop off ∧ p.length = ins.width := by
  have hsize := decode_le_size h
  have hpos := ins.width_pos
  have hlength : ((code.toList.drop off).take ins.width).length = ins.width := by
    rw [List.length_take, length_drop_toList]
    omega
  refine ⟨(code.toList.drop off).take ins.width, ?_, List.take_prefix _ _, hlength⟩
  -- the shape of the taken units: as many explicit units as the header has
  obtain ⟨-, ⟨hkind, hwidth, -⟩ | ⟨kind, hkind, hext, hmax, -⟩⟩ := decode_cases h
  · obtain ⟨n, hn⟩ : ∃ n, ins.width = n + 1 := ⟨ins.width - 1, by omega⟩
    rw [hn, drop_toList (by omega), List.take_succ_cons] at hlength ⊢
    refine .ordinary _ _ ((ofUnit?_eq_none_iff _).mp hkind) ?_ ?_
    · exact (width_ne_zero_iff _).mp (by omega)
    · rw [List.length_cons] at hlength
      omega
  · have htwo := two_le_extentAt code kind off
    obtain ⟨n, hn⟩ : ∃ n, ins.width = n + 2 := ⟨ins.width - 2, by omega⟩
    rw [hn, drop_toList (by omega), drop_toList (i := off + 1) (by omega), List.take_succ_cons,
      List.take_succ_cons, hkind] at hlength ⊢
    simp only [List.length_cons] at hlength
    cases kind with
    | packedSwitch => exact .packedSwitch _ _ (by rw [hlength, ← hn, hext]; rfl) (by omega)
    | sparseSwitch => exact .sparseSwitch _ _ (by rw [hlength, ← hn, hext]; rfl) (by omega)
    | arrayData =>
      rw [extentAt] at hext
      -- the header of array data has two units more
      obtain ⟨k, hk⟩ : ∃ k, n = k + 2 := ⟨n - 2, by omega⟩
      rw [hk, drop_toList (i := off + 1 + 1) (by omega),
        drop_toList (i := off + 1 + 1 + 1) (by omega), List.take_succ_cons,
        List.take_succ_cons] at hlength ⊢
      simp only [List.length_cons] at hlength
      refine .arrayData _ _ _ _ ?_ (by omega)
      show _ = 4 + (unitAt code (off + 1) * pairAt code (off + 2) + 1) / 2
      omega

end Layout
end Dalvik
