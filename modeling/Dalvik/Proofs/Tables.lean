import Mathlib
import Dalvik.Proofs.Checks

/-!
# Checks of switch and array tables

A table check passes if and only if the instruction refers to a payload table that lies inside the
code at an even offset and whose extent the flag table records (`TableAt`), and for a switch, if
the keys ascend and all cases go to opcodes of the flag table. The reads of the checks stay inside
the code, because the extent of the table was compared with its size before.
-/

namespace Dalvik
namespace Check

open Layout

/-! ## References -/

/-- An instruction whose units are there refers to the address at its signed offset. -/
theorem tableRef_eq {code : Code} {o : ℕ} (h : o + 3 ≤ code.size) :
    tableRef code o = .ok (some (o + signedAt code (o + 1))) := by
  rw [tableRef, if_neg (by omega), signedPair_eq (by omega), Except.map]

/-- A whole instruction refers to the address that the layout speaks of. -/
theorem tableRef_eq_some {code : Code} {o : ℕ} (h : o + 3 ≤ code.size) :
    ∃ a, tableRef code o = .ok (some a) ∧ ∀ s : ℕ, a = s ↔ RefersTo code o s :=
  ⟨_, tableRef_eq h, fun _ => eq_comm⟩

/-- Reading a reference never halts. -/
theorem exists_tableRef (code : Code) (o : ℕ) : ∃ r, tableRef code o = .ok r := by
  by_cases h : o + 3 ≤ code.size
  · exact ⟨_, tableRef_eq h⟩
  · exact ⟨none, by rw [tableRef, if_pos (by omega)]⟩

/-- A payload table of the given kind lies at the even offset `s`, and the flag table has its
extent. -/
structure TableAt (code : Code) (t : FlagTable) (kind : PayloadKind) (s : ℕ) : Prop where
  even : s % 2 = 0
  signature : rawAt code s = kind.signature
  inside : s + extentAt code kind s ≤ code.size
  recorded : (t.wordAt s).width = extentAt code kind s

/-! ## Array data -/

/-- The extent that the check computes is that of the layout. -/
theorem arrayDataExtent_eq (code : Code) (s : ℕ) :
    arrayDataExtent (rawAt code (s + 1)).toNat
        (joinUnits (rawAt code (s + 2)) (rawAt code (s + 3))).toNat
      = extentAt code .arrayData s := by
  rw [joinUnits_toNat]
  rfl

/-- The last two tests of a table check compare its extent with the code and with the table. -/
theorem recorded_iff {code : Code} {t : FlagTable} {kind : PayloadKind} {s : ℕ} :
    (¬ code.size < s + extentAt code kind s ∧
      ¬ ((t.wordAt s).width = 0 ∨ (t.wordAt s).width ≠ extentAt code kind s)) ↔
    s + extentAt code kind s ≤ code.size ∧ (t.wordAt s).width = extentAt code kind s := by
  have htwo := two_le_extentAt code kind s
  omega

/-- The table check where the header of a table has room. -/
theorem arrayTable_natCast_iff {m : Method} {t : FlagTable} {s : ℕ} (hsize : t.size = m.code.size)
    (off : ℤ) (hroom : s + 4 ≤ m.code.size) :
    arrayTable m t off s = .ok () ↔ TableAt m.code t .arrayData s := by
  unfold arrayTable
  simp only [guard_bind_eq_ok_iff, Int.toNat_natCast]
  -- with room for the header, all units that the check looks at exist
  rw [unit_eq (by omega), unit_eq (by omega), unit_eq (by omega), unit_eq (by omega),
    word_eq (by omega)]
  simp only [ok_bind, guard_bind_eq_ok_iff, guard_eq_ok_iff, arrayDataExtent_eq]
  constructor
  · intro h
    rcases h with ⟨-, heven, hsign, hinside, hrecorded, -⟩
    obtain ⟨hinside, hrecorded⟩ := recorded_iff.mp ⟨hinside, hrecorded⟩
    exact ⟨not_not.mp heven, not_not.mp hsign, hinside, hrecorded⟩
  · intro h
    rcases h with ⟨heven, hsign, hinside, hrecorded⟩
    obtain ⟨hinside, hrecorded⟩ := recorded_iff.mpr ⟨hinside, hrecorded⟩
    exact ⟨by omega, not_not.mpr heven, not_not.mpr hsign, hinside, hrecorded, rfl⟩

/-- The check of an array table passes if and only if the address is that of such a table. -/
theorem arrayTable_eq_ok_iff {m : Method} {t : FlagTable} (hsize : t.size = m.code.size)
    (off a : ℤ) :
    arrayTable m t off a = .ok () ↔ ∃ s : ℕ, a = s ∧ TableAt m.code t .arrayData s := by
  constructor
  · intro h
    have hstart := h
    -- the first test makes room for the header
    unfold arrayTable at hstart
    simp only [guard_bind_eq_ok_iff] at hstart
    have hroom := hstart.1
    obtain ⟨s, rfl⟩ := Int.eq_ofNat_of_zero_le (show 0 ≤ a by omega)
    exact ⟨s, rfl, (arrayTable_natCast_iff hsize off (by omega)).mp h⟩
  · intro htableAt
    rcases htableAt with ⟨s, rfl, htable⟩
    have hinside := htable.inside
    rw [extentAt] at hinside
    exact (arrayTable_natCast_iff hsize off (by omega)).mpr htable

/-- The kinds of faults of an array-data table. -/
def arrayKinds : List FaultKind :=
  [.arrayStart, .arrayUnaligned, .arraySignature, .arrayEnd, .arrayTable]

/-- A table check that fails has a cause of its own family. -/
theorem confined_arrayTable {m : Method} {t : FlagTable} (hsize : t.size = m.code.size)
    (off a : ℤ) : Confined off arrayKinds (arrayTable m t off a) := by
  unfold arrayTable
  refine Confined.guard (by simp [arrayKinds, Cause.kind]) fun hstart => ?_
  push Not at hstart
  refine Confined.guard (by simp [arrayKinds, Cause.kind]) fun _ => ?_
  rw [unit_eq (by omega), ok_bind]
  refine Confined.guard (by simp [arrayKinds, Cause.kind]) fun _ => ?_
  rw [unit_eq (by omega), ok_bind, unit_eq (by omega), ok_bind, unit_eq (by omega), ok_bind]
  refine Confined.guard (by simp [arrayKinds, Cause.kind]) fun _ => ?_
  rw [word_eq (by omega), ok_bind]
  exact Confined.ite (fun _ => Confined.refuseAt (by simp [arrayKinds, Cause.kind]))
    fun _ => Confined.ok ()

/-- The check of array data halts with a cause or not at all. -/
theorem refuses_arrayData (m : Method) (t : FlagTable) (off : Int) :
    Refuses (arrayData m t off) := by
  refine (refuses_covered m t).bind fun _ hcovered => ?_
  have hsize := (covered_eq_ok_iff m t).mp hcovered
  refine (refuses_instructionAt t _ off).bind fun _ hop => ?_
  obtain ⟨o, rfl, hlt, -⟩ := exists_of_isOpcode ((instructionAt_eq_ok_iff t _ off).mp hop)
  rw [Int.toNat_natCast, unit_eq (by omega), ok_bind]
  refine Refuses.guard fun _ => ?_
  obtain ⟨r, hr⟩ := exists_tableRef m.code o
  rw [hr, ok_bind]
  cases r with
  | none => exact Refuses.refuseAt _ _
  | some a => exact (confined_arrayTable hsize _ a).refuses

/-- The check of a whole fill-array instruction passes if and only if it refers to a table. -/
theorem arrayData_eq_ok_iff {m : Method} {t : FlagTable} {o : ℕ} (hsize : t.size = m.code.size)
    (hop : t.isOpcode o = true) (hfill : opcodeAt m.code o = 0x26) (hwhole : o + 3 ≤ m.code.size) :
    arrayData m t o = .ok () ↔ ∃ s, RefersTo m.code o s ∧ TableAt m.code t .arrayData s := by
  have hopcode : Opcode.ofUnit (rawAt m.code o) = .fillArrayData := (ofUnit_eq_iff _ _).mpr hfill
  unfold arrayData
  rw [(covered_eq_ok_iff m t).mpr hsize, ok_bind, (instructionAt_eq_ok_iff t _ o).mpr hop, ok_bind,
    Int.toNat_natCast, unit_eq (by omega), ok_bind]
  simp only [guard_bind_eq_ok_iff]
  obtain ⟨a, ha, hrefers⟩ := tableRef_eq_some hwhole
  rw [ha, ok_bind, arrayTable_eq_ok_iff hsize]
  constructor
  · intro h
    rcases h with ⟨-, s, hs, htable⟩
    exact ⟨s, (hrefers s).mp hs, htable⟩
  · intro h
    rcases h with ⟨s, hs, htable⟩
    exact ⟨not_not.mpr hopcode, s, (hrefers s).mpr hs, htable⟩

/-- The check of a whole fill-array instruction fails where it stands, for its table. -/
theorem confined_arrayData {m : Method} {t : FlagTable} {o : ℕ} (hsize : t.size = m.code.size)
    (hop : t.isOpcode o = true) (hfill : opcodeAt m.code o = 0x26) (hwhole : o + 3 ≤ m.code.size) :
    Confined o arrayKinds (arrayData m t o) := by
  have hopcode : Opcode.ofUnit (rawAt m.code o) = .fillArrayData := (ofUnit_eq_iff _ _).mpr hfill
  unfold arrayData
  rw [(covered_eq_ok_iff m t).mpr hsize, ok_bind, (instructionAt_eq_ok_iff t _ o).mpr hop, ok_bind,
    Int.toNat_natCast, unit_eq (by omega), ok_bind]
  obtain ⟨a, ha, -⟩ := tableRef_eq_some hwhole
  simp only
  rw [if_neg (not_not.mpr hopcode), ha, ok_bind]
  exact confined_arrayTable hsize _ a

/-! ## Switch tables -/

/-- The numbers of a shape fit the extents of its kind of table. -/
structure SwitchShape.Fits (shape : SwitchShape) : Prop where
  two_le_header : 2 ≤ shape.header
  header_le : ∀ n, shape.header ≤ shape.extent n
  extent_eq : ∀ code s, shape.extent (unitAt code (s + 1)) = extentAt code shape.kind s
  targets_le : ∀ n, shape.targets n + 2 * n ≤ shape.extent n
  keys_eq : shape.kind = .sparseSwitch → shape.header = 2
  keys_le : shape.kind = .sparseSwitch → ∀ n, 2 + 2 * n ≤ shape.extent n

theorem packedShape_fits : packedShape.Fits where
  two_le_header := by decide
  header_le n := Nat.le_add_right 4 (n * 2)
  extent_eq code s := by
    show 4 + unitAt code (s + 1) * 2 = 4 + 2 * unitAt code (s + 1)
    omega
  targets_le n := by
    show 4 + 2 * n ≤ 4 + n * 2
    omega
  keys_eq h := absurd h (by decide)
  keys_le h := absurd h (by decide)

theorem sparseShape_fits : sparseShape.Fits where
  two_le_header := by decide
  header_le n := Nat.le_add_right 2 (n * 4)
  extent_eq code s := by
    show 2 + unitAt code (s + 1) * 4 = 2 + 4 * unitAt code (s + 1)
    omega
  targets_le n := by
    show 2 + n * 2 + 2 * n ≤ 2 + n * 4
    omega
  keys_eq _ := rfl
  keys_le _ n := by
    show 2 + 2 * n ≤ 2 + n * 4
    omega

/-- A switch instruction is a packed or a sparse switch. -/
theorem switchShape?_cases {op : Opcode} {shape : SwitchShape} (h : switchShape? op = some shape) :
    (op = .packedSwitch ∧ shape = packedShape) ∨ (op = .sparseSwitch ∧ shape = sparseShape) := by
  unfold switchShape? at h
  split_ifs at h with hpacked hsparse
  · cases h
    exact .inl ⟨hpacked, rfl⟩
  · cases h
    exact .inr ⟨hsparse, rfl⟩

/-- Whatever the switch, the numbers of its table fit. -/
theorem switchShape?_fits {op : Opcode} {shape : SwitchShape} (h : switchShape? op = some shape) :
    shape.Fits := by
  obtain ⟨-, rfl⟩ | ⟨-, rfl⟩ := switchShape?_cases h
  · exact packedShape_fits
  · exact sparseShape_fits

/-- A switch table lies inside the code. -/
theorem TableAt.inside_extent {code : Code} {t : FlagTable} {shape : SwitchShape} {s : ℕ}
    (h : TableAt code t shape.kind s) (hshape : shape.Fits) :
    s + shape.extent (unitAt code (s + 1)) ≤ code.size := by
  rw [hshape.extent_eq]
  exact h.inside

/-- The table check where the header of a table has room. -/
theorem switchTable_natCast_iff {m : Method} {t : FlagTable} {shape : SwitchShape} {s : ℕ}
    (hsize : t.size = m.code.size) (hshape : shape.Fits) (off : ℤ)
    (hroom : s + shape.header ≤ m.code.size) (found : ℕ × ℕ) :
    switchTable m t off shape s = .ok found ↔
      TableAt m.code t shape.kind s ∧ (s, unitAt m.code (s + 1)) = found := by
  have htwo := hshape.two_le_header
  unfold switchTable
  simp only [guard_bind_eq_ok_iff, Int.toNat_natCast]
  -- the signature and the number of cases stand in every header
  rw [unit_eq (by omega), unit_eq (by omega), word_eq (by omega)]
  have hextent : shape.extent (rawAt m.code (s + 1)).toNat = extentAt m.code shape.kind s :=
    hshape.extent_eq m.code s
  simp only [ok_bind, guard_bind_eq_ok_iff, hextent]
  constructor
  · intro h
    rcases h with ⟨-, heven, hsign, hinside, hrecorded, hfound⟩
    obtain ⟨hinside, hrecorded⟩ := recorded_iff.mp ⟨hinside, hrecorded⟩
    exact ⟨⟨not_not.mp heven, not_not.mp hsign, hinside, hrecorded⟩, Except.ok.inj hfound⟩
  · intro h
    rcases h with ⟨⟨heven, hsign, hinside, hrecorded⟩, rfl⟩
    obtain ⟨hinside, hrecorded⟩ := recorded_iff.mpr ⟨hinside, hrecorded⟩
    exact ⟨by omega, not_not.mpr heven, not_not.mpr hsign, hinside, hrecorded, rfl⟩

/-- The checks on a table as a whole pass if and only if the address is that of such a table. -/
theorem switchTable_eq_ok_iff {m : Method} {t : FlagTable} {shape : SwitchShape}
    (hsize : t.size = m.code.size) (hshape : shape.Fits) (off a : ℤ) (found : ℕ × ℕ) :
    switchTable m t off shape a = .ok found ↔
      ∃ s : ℕ, a = s ∧ TableAt m.code t shape.kind s ∧ (s, unitAt m.code (s + 1)) = found := by
  constructor
  · intro h
    have hstart := h
    -- the first test makes room for the header
    unfold switchTable at hstart
    simp only [guard_bind_eq_ok_iff] at hstart
    have hroom := hstart.1
    obtain ⟨s, rfl⟩ := Int.eq_ofNat_of_zero_le (show 0 ≤ a by omega)
    exact ⟨s, rfl, (switchTable_natCast_iff hsize hshape off (by omega) found).mp h⟩
  · intro htableAt
    rcases htableAt with ⟨s, rfl, htable, hfound⟩
    have hinside := htable.inside_extent hshape
    have hheader := hshape.header_le (unitAt m.code (s + 1))
    exact (switchTable_natCast_iff hsize hshape off (by omega) found).mpr ⟨htable, hfound⟩

/-- The kinds of faults of a switch: those of its table, its keys and its cases. -/
def switchKinds : List FaultKind :=
  [.switchStart, .switchUnaligned, .switchSignature, .switchEnd, .switchKeys, .switchTarget,
    .switchTable, .switchOverflow]

/-- The checks on a table as a whole fail where the switch stands, and with their own kinds. -/
theorem confined_switchTable {m : Method} {t : FlagTable} {shape : SwitchShape}
    (hsize : t.size = m.code.size) (hshape : shape.Fits) (off a : ℤ) :
    Confined off switchKinds (switchTable m t off shape a) := by
  have htwo := hshape.two_le_header
  unfold switchTable
  refine Confined.guard (by simp [switchKinds, Cause.kind]) fun hstart => ?_
  push Not at hstart
  refine Confined.guard (by simp [switchKinds, Cause.kind]) fun _ => ?_
  rw [unit_eq (by omega), ok_bind]
  refine Confined.guard (by simp [switchKinds, Cause.kind]) fun _ => ?_
  rw [unit_eq (by omega), ok_bind]
  refine Confined.guard (by simp [switchKinds, Cause.kind]) fun _ => ?_
  rw [word_eq (by omega), ok_bind]
  exact Confined.guard (by simp [switchKinds, Cause.kind]) fun _ => Confined.ok _

/-! ## Keys -/

/-- Values ascend if the first one is below all others and these ascend. -/
theorem ascend_succ_iff {key : ℕ → ℤ} {n : ℕ} :
    (∀ k l, k < l → l < n + 1 → key k < key l) ↔
      (∀ k < n, key 0 < key (k + 1)) ∧
        ∀ k l, k < l → l < n → key (k + 1) < key (l + 1) := by
  constructor
  · intro h
    exact ⟨fun k hk => h 0 (k + 1) (by omega) (by omega),
      fun k l hkl hl => h (k + 1) (l + 1) (by omega) (by omega)⟩
  · rintro ⟨hfirst, hrest⟩ (_ | k) (_ | l) hkl hl
    · omega
    · exact hfirst l (by omega)
    · omega
    · exact hrest k l (by omega) (by omega)

/-- The keys of a table, from the unit `i` on. -/
def keyFrom (code : Code) (i k : ℕ) : ℤ := signedAt code (i + 2 * k)

theorem keyFrom_zero (code : Code) (i : ℕ) : keyFrom code i 0 = signedAt code i := by
  unfold keyFrom
  exact congrArg _ rfl

theorem keyFrom_succ (code : Code) (i k : ℕ) : keyFrom code i (k + 1) = keyFrom code (i + 2) k := by
  rw [keyFrom, keyFrom, show i + 2 * (k + 1) = i + 2 + 2 * k by omega]

/-- The loop passes if and only if the keys are above the last one and ascend. -/
theorem ascendingKeys_eq_ok_iff {code : Code} {i n : ℕ} (off last : ℤ)
    (hroom : i + 2 * n ≤ code.size) :
    ascendingKeys code off i last n = .ok () ↔
      (∀ k < n, last < keyFrom code i k) ∧
        ∀ k l, k < l → l < n → keyFrom code i k < keyFrom code i l := by
  induction n generalizing i last with
  | zero => exact ⟨fun _ => ⟨by omega, by omega⟩, fun _ => rfl⟩
  | succ n ih =>
    rw [ascendingKeys, signedPair_eq (by omega)]
    simp only
    rw [guard_eq_ok_iff, ih _ (by omega), not_le, ← keyFrom_zero, ascend_succ_iff]
    simp only [keyFrom_succ]
    constructor
    · intro h
      rcases h with ⟨hlast, hrest⟩
      -- each key is compared with the one before only; below that one is `last`
      refine ⟨?_, hrest⟩
      rintro (_ | k) hk
      · exact hlast
      · rw [keyFrom_succ]
        exact hlast.trans (hrest.1 k (by omega))
    · intro h
      rcases h with ⟨hlast, hrest⟩
      exact ⟨hlast 0 (by omega), hrest⟩

/-- The check of the keys passes if and only if they ascend. -/
theorem sparseKeys_eq_ok_iff {code : Code} {start n : ℕ} (off : ℤ)
    (hroom : start + 2 * n ≤ code.size) :
    sparseKeys code off start n = .ok () ↔
      ∀ k l, k < l → l < n → keyFrom code start k < keyFrom code start l := by
  match n with
  | 0 => exact ⟨fun _ => by omega, fun _ => rfl⟩
  | 1 => exact ⟨fun _ => by omega, fun _ => rfl⟩
  | n + 2 =>
    -- with two keys or more, the first is what the others are compared with
    have hsplit := @ascend_succ_iff (keyFrom code start) (n + 1)
    simp only [keyFrom_succ] at hsplit
    rw [sparseKeys, signedPair_eq (by omega)]
    · simp only
      rw [ascendingKeys_eq_ok_iff off _ (by omega), ← keyFrom_zero]
      exact hsplit.symm
    · omega

/-- The kinds of faults of the entries of a switch table: those of its keys and of its cases. -/
def entryKinds : List FaultKind := [.switchKeys, .switchTarget, .switchOverflow]

/-- The loop over the keys fails where the switch stands. -/
theorem confined_ascendingKeys {code : Code} {i n : ℕ} (off last : ℤ)
    (hroom : i + 2 * n ≤ code.size) : Confined off entryKinds (ascendingKeys code off i last n) := by
  induction n generalizing i last with
  | zero => exact Confined.ok ()
  | succ n ih =>
    rw [ascendingKeys, signedPair_eq (by omega)]
    exact Confined.ite (fun _ => Confined.refuseAt (by simp [entryKinds, Cause.kind]))
      fun _ => ih _ (by omega)

/-- The check of the keys fails where the switch stands. -/
theorem confined_sparseKeys {code : Code} {start n : ℕ} (off : ℤ)
    (hroom : start + 2 * n ≤ code.size) :
    Confined off entryKinds (sparseKeys code off start n) := by
  match n with
  | 0 => exact Confined.ok ()
  | 1 => exact Confined.ok ()
  | n + 2 =>
    rw [sparseKeys, signedPair_eq (by omega)]
    · exact confined_ascendingKeys off _ (by omega)
    · omega

/-! ## Cases -/

/-- The check of a case passes if and only if the case lands on an opcode. -/
theorem caseTarget_eq_ok_iff {m : Method} {t : FlagTable} {i : ℕ} (hsize : t.size = m.code.size)
    (off : ℤ) (index target : ℕ) (hroom : i + 2 ≤ m.code.size) :
    caseTarget m t off index i = .ok target ↔ Lands t (off + signedAt m.code i) target := by
  rw [caseTarget, signedPair_eq (by omega), ok_bind]
  exact landing_eq_ok_iff hsize _ _ _ _ _

/-- The check of a case fails where the switch stands. -/
theorem confined_caseTarget {m : Method} {t : FlagTable} {i : ℕ} (off : ℤ) (index : ℕ)
    (hroom : i + 2 ≤ m.code.size) : Confined off entryKinds (caseTarget m t off index i) := by
  rw [caseTarget, signedPair_eq (by omega), ok_bind]
  refine Confined.ite (fun _ => Confined.refuseAt (by simp [entryKinds, Cause.kind])) fun _ => ?_
  exact Confined.ite (fun _ => Confined.refuseAt (by simp [entryKinds, Cause.kind]))
    fun _ => Confined.ok _

/-- The addresses of `n` cases whose offsets stand from the unit `i` on. -/
def caseAddresses (code : Code) (off : ℤ) (i n : ℕ) : List ℕ :=
  (List.range n).map fun k => (off + keyFrom code i k).toNat

theorem caseAddresses_succ (code : Code) (off : ℤ) (i n : ℕ) :
    caseAddresses code off i (n + 1)
      = (off + keyFrom code i 0).toNat :: caseAddresses code off (i + 2) n := by
  rw [caseAddresses, List.range_succ_eq_map, List.map_cons, List.map_map, caseAddresses]
  simp only [Function.comp_def, Nat.succ_eq_add_one, keyFrom_succ]

/-- All cases pass if and only if each of them does. -/
theorem caseTargets_eq_ok_iff {m : Method} {t : FlagTable} {i n : ℕ} (hsize : t.size = m.code.size)
    (off : ℤ) (index : ℕ) (acc out : Array ℕ) (hroom : i + 2 * n ≤ m.code.size) :
    caseTargets m t off index i n acc = .ok out ↔
      (∀ k < n, ∃ target, Lands t (off + keyFrom m.code i k) target) ∧
        out.toList = acc.toList ++ caseAddresses m.code off i n := by
  induction n generalizing i index acc with
  | zero =>
    rw [caseTargets, Except.ok.injEq, caseAddresses, List.range_zero, List.map_nil, List.append_nil,
      Array.toList_inj]
    exact ⟨fun h => ⟨by omega, h.symm⟩, fun h => h.2.symm⟩
  | succ n ih =>
    have hcase : ∀ target, caseTarget m t off index i = .ok target ↔
        Lands t (off + keyFrom m.code i 0) target := by
      intro target
      rw [keyFrom_zero]
      exact caseTarget_eq_ok_iff hsize off index target (by omega)
    rw [caseTargets]
    constructor
    · intro h
      -- the first case has passed, and the others by induction
      cases hfirst : caseTarget m t off index i with
      | error e =>
        rw [hfirst] at h
        cases h
      | ok target =>
        rw [hfirst] at h
        have hlands := (hcase target).mp hfirst
        obtain ⟨hrest, hout⟩ := (ih _ _ (by omega)).mp h
        constructor
        · rintro (_ | k) hk
          · exact ⟨target, hlands⟩
          · rw [keyFrom_succ]
            exact hrest k (by omega)
        · rw [hout, caseAddresses_succ, ← hlands.eq, Int.toNat_natCast, Array.toList_push,
            List.append_assoc, List.singleton_append]
    · intro hlanding
      rcases hlanding with ⟨hall, hout⟩
      obtain ⟨target, hlands⟩ := hall 0 (by omega)
      rw [(hcase target).mpr hlands]
      simp only
      rw [ih _ _ (by omega)]
      constructor
      · intro k hk
        rw [← keyFrom_succ]
        exact hall (k + 1) (by omega)
      · rw [hout, caseAddresses_succ, ← hlands.eq, Int.toNat_natCast, Array.toList_push,
          List.append_assoc, List.singleton_append]

/-- The loop over the cases fails where the switch stands. -/
theorem confined_caseTargets {m : Method} {t : FlagTable} {i n : ℕ} (off : ℤ) (index : ℕ)
    (acc : Array ℕ) (hroom : i + 2 * n ≤ m.code.size) :
    Confined off entryKinds (caseTargets m t off index i n acc) := by
  induction n generalizing i index acc with
  | zero => exact Confined.ok acc
  | succ n ih =>
    rw [caseTargets]
    cases hfirst : caseTarget m t off index i with
    | error e =>
      intro h hc
      cases hc
      exact confined_caseTarget off index (by omega) e hfirst
    | ok target => exact ih _ _ (by omega)

/-! ## Switches -/

/-- Once its table is found, a switch fails for its keys or cases only. -/
theorem confined_entries {m : Method} {t : FlagTable} {shape : SwitchShape} {s : ℕ}
    (htable : TableAt m.code t shape.kind s) (hfits : shape.Fits) (off : ℤ) :
    Confined off entryKinds (do
      if shape.kind = .sparseSwitch then
        sparseKeys m.code off (s + shape.header) (unitAt m.code (s + 1))
      let targets ← caseTargets m t off 0 (s + shape.targets (unitAt m.code (s + 1)))
        (unitAt m.code (s + 1)) #[]
      return targets.toList) := by
  -- the table lies inside the code, and with it its keys and cases
  have hinside := htable.inside_extent hfits
  have htargets := hfits.targets_le (unitAt m.code (s + 1))
  have hcases : Confined off entryKinds
      (caseTargets m t off 0 (s + shape.targets (unitAt m.code (s + 1)))
        (unitAt m.code (s + 1)) #[]) := confined_caseTargets _ _ _ (by omega)
  refine Confined.ite (fun hsparse => ?_) fun _ => hcases.bind fun _ _ => Confined.ok _
  have hkeys := hfits.keys_eq hsparse
  have hle := hfits.keys_le hsparse (unitAt m.code (s + 1))
  refine (confined_sparseKeys _ (by omega)).bind fun _ _ => ?_
  exact hcases.bind fun _ _ => Confined.ok _

/-- Once the address of its table is known, a switch fails for its table, keys or cases only. -/
theorem confined_tableCases {m : Method} {t : FlagTable} {shape : SwitchShape}
    (hsize : t.size = m.code.size) (hfits : shape.Fits) (off a : ℤ) :
    Confined off switchKinds (do
      let (start, entries) ← switchTable m t off shape a
      if shape.kind = .sparseSwitch then
        sparseKeys m.code off (start + shape.header) entries
      let targets ← caseTargets m t off 0 (start + shape.targets entries) entries #[]
      return targets.toList) := by
  refine (confined_switchTable hsize hfits _ a).bind fun found hfound => ?_
  obtain ⟨s, -, htable, rfl⟩ := (switchTable_eq_ok_iff hsize hfits _ a found).mp hfound
  exact (confined_entries htable hfits off).mono (by decide)

/-- The check of a switch halts with a cause or not at all. -/
theorem refuses_switchTargets (m : Method) (t : FlagTable) (off : Int) :
    Refuses (switchTargets m t off) := by
  refine (refuses_covered m t).bind fun _ hcovered => ?_
  have hsize := (covered_eq_ok_iff m t).mp hcovered
  refine (refuses_instructionAt t _ off).bind fun _ hop => ?_
  obtain ⟨o, rfl, hlt, -⟩ := exists_of_isOpcode ((instructionAt_eq_ok_iff t _ off).mp hop)
  obtain ⟨r, hr⟩ := exists_tableRef m.code o
  rw [Int.toNat_natCast, unit_eq (by omega), ok_bind]
  simp only [hr, ok_bind]
  split
  · exact Refuses.refuseAt _ _
  · rename_i shape hshape
    cases r with
    | none => exact Refuses.refuseAt _ _
    | some a => exact (confined_tableCases hsize (switchShape?_fits hshape) _ a).refuses

/-- The check of a whole switch fails where it stands, for its table, keys or cases. -/
theorem confined_switchTargets {m : Method} {t : FlagTable} {o : ℕ} {shape : SwitchShape}
    (hsize : t.size = m.code.size) (hop : t.isOpcode o = true)
    (hshape : switchShape? (Opcode.ofUnit (rawAt m.code o)) = some shape)
    (hwhole : o + 3 ≤ m.code.size) : Confined o switchKinds (switchTargets m t o) := by
  obtain ⟨a, ha, -⟩ := tableRef_eq_some hwhole
  rw [switchTargets, (covered_eq_ok_iff m t).mpr hsize, ok_bind,
    (instructionAt_eq_ok_iff t _ o).mpr hop, ok_bind, Int.toNat_natCast, unit_eq (by omega),
    ok_bind]
  simp only [hshape, ha, ok_bind]
  exact confined_tableCases hsize (switchShape?_fits hshape) _ a

/-- The keys of a sparse-switch table pass if and only if they ascend. -/
theorem TableAt.keys_iff {code : Code} {t : FlagTable} {shape : SwitchShape} {s : ℕ}
    (h : TableAt code t shape.kind s) (hshape : shape.Fits) (hsparse : shape.kind = .sparseSwitch)
    (off : ℤ) :
    sparseKeys code off (s + shape.header) (unitAt code (s + 1)) = .ok () ↔ KeysAscend code s := by
  have hinside := h.inside_extent hshape
  have hle := hshape.keys_le hsparse (unitAt code (s + 1))
  rw [hshape.keys_eq hsparse]
  exact sparseKeys_eq_ok_iff off (by omega)

/-- The cases of a table pass if and only if all of them go to opcodes. -/
theorem TableAt.cases_iff {m : Method} {t : FlagTable} {shape : SwitchShape} {s : ℕ}
    (h : TableAt m.code t shape.kind s) (hshape : shape.Fits) (hsize : t.size = m.code.size)
    (off : ℤ) (targets : List ℕ) :
    (∃ out, caseTargets m t off 0 (s + shape.targets (unitAt m.code (s + 1)))
        (unitAt m.code (s + 1)) #[] = .ok out ∧ out.toList = targets) ↔
      (∀ k < unitAt m.code (s + 1), ∃ target,
        Lands t (off + keyFrom m.code (s + shape.targets (unitAt m.code (s + 1))) k) target) ∧
      targets = caseAddresses m.code off (s + shape.targets (unitAt m.code (s + 1)))
        (unitAt m.code (s + 1)) := by
  have hinside := h.inside_extent hshape
  have hle := hshape.targets_le (unitAt m.code (s + 1))
  have hall := fun out => caseTargets_eq_ok_iff hsize off 0 #[] out
    (show s + shape.targets (unitAt m.code (s + 1)) + 2 * unitAt m.code (s + 1) ≤ m.code.size by omega)
  constructor
  · intro hpassed
    rcases hpassed with ⟨out, hout, rfl⟩
    exact (hall out).mp hout
  · intro hall
    rcases hall with ⟨hlands, rfl⟩
    exact ⟨_, (hall ⟨_⟩).mpr ⟨hlands, rfl⟩, rfl⟩

/-- The check of a whole switch passes if and only if it refers to a table with ascending keys
whose cases all go to opcodes. -/
theorem switchTargets_eq_ok_iff {m : Method} {t : FlagTable} {o : ℕ} {shape : SwitchShape}
    {targets : List ℕ} (hsize : t.size = m.code.size) (hop : t.isOpcode o = true)
    (hshape : switchShape? (Opcode.ofUnit (rawAt m.code o)) = some shape)
    (hwhole : o + 3 ≤ m.code.size) :
    switchTargets m t o = .ok targets ↔
      ∃ s, RefersTo m.code o s ∧ TableAt m.code t shape.kind s ∧
        (shape.kind = .sparseSwitch → KeysAscend m.code s) ∧
        (∀ k < unitAt m.code (s + 1), ∃ target,
          Lands t (o + keyFrom m.code (s + shape.targets (unitAt m.code (s + 1))) k) target) ∧
        targets = caseAddresses m.code o (s + shape.targets (unitAt m.code (s + 1)))
          (unitAt m.code (s + 1)) := by
  have hfits := switchShape?_fits hshape
  obtain ⟨a, ha, hrefers⟩ := tableRef_eq_some hwhole
  rw [switchTargets, (covered_eq_ok_iff m t).mpr hsize, ok_bind,
    (instructionAt_eq_ok_iff t _ o).mpr hop, ok_bind, Int.toNat_natCast, unit_eq (by omega),
    ok_bind]
  simp only [hshape, ha, ok_bind, bind_eq_ok, switchTable_eq_ok_iff hsize hfits]
  constructor
  · intro hpassed
    rcases hpassed with ⟨-, ⟨s, has, htable, rfl⟩, h⟩
    refine ⟨s, (hrefers s).mp has, htable, ?_⟩
    split at h
    -- only the keys of a sparse switch are looked at
    · rename_i hsparse
      obtain ⟨⟨⟩, hkeys, hcases⟩ := bind_eq_ok.mp h
      obtain ⟨out, hout, htargets⟩ := bind_eq_ok.mp hcases
      exact ⟨fun _ => (htable.keys_iff hfits hsparse o).mp hkeys,
        (htable.cases_iff hfits hsize o targets).mp ⟨out, hout, Except.ok.inj htargets⟩⟩
    · rename_i hpacked
      obtain ⟨out, hout, htargets⟩ := bind_eq_ok.mp h
      exact ⟨fun hsparse => absurd hsparse hpacked,
        (htable.cases_iff hfits hsize o targets).mp ⟨out, hout, Except.ok.inj htargets⟩⟩
  · intro hlegal
    rcases hlegal with ⟨s, hs, htable, hkeys, hcases⟩
    obtain ⟨out, hout, htargets⟩ := (htable.cases_iff hfits hsize o targets).mpr hcases
    refine ⟨_, ⟨s, (hrefers s).mpr hs, htable, rfl⟩, ?_⟩
    simp only [hout, ok_bind, htargets]
    split
    · rename_i hsparse
      rw [(htable.keys_iff hfits hsparse o).mpr (hkeys hsparse), ok_bind]
      rfl
    · rfl

/-! ## Cases in the terms of the layout -/

/-- An instruction refers to one table. -/
theorem RefersTo.unique {code : Code} {o s s' : ℕ} (h : RefersTo code o s)
    (h' : RefersTo code o s') : s = s' :=
  Int.natCast_inj.mp (h.trans h'.symm)

/-- There are two opcodes for switches. -/
theorem isSwitch_iff (code : Code) (o : ℕ) :
    (Opcode.ofUnit (rawAt code o)).isSwitch = true ↔
      opcodeAt code o = 0x2b ∨ opcodeAt code o = 0x2c := by
  have hpacked : Opcode.ofUnit (rawAt code o) = .packedSwitch ↔ opcodeAt code o = 0x2b :=
    ofUnit_eq_iff _ _
  have hsparse : Opcode.ofUnit (rawAt code o) = .sparseSwitch ↔ opcodeAt code o = 0x2c :=
    ofUnit_eq_iff _ _
  rw [Opcode.isSwitch, Bool.or_eq_true, beq_iff_eq, beq_iff_eq, hpacked, hsparse]

theorem switchShape?_of_packed {code : Code} {o : ℕ} (h : opcodeAt code o = 0x2b) :
    switchShape? (Opcode.ofUnit (rawAt code o)) = some packedShape := by
  have hop : Opcode.ofUnit (rawAt code o) = .packedSwitch := (ofUnit_eq_iff _ _).mpr h
  rw [hop]
  rfl

theorem switchShape?_of_sparse {code : Code} {o : ℕ} (h : opcodeAt code o = 0x2c) :
    switchShape? (Opcode.ofUnit (rawAt code o)) = some sparseShape := by
  have hop : Opcode.ofUnit (rawAt code o) = .sparseSwitch := (ofUnit_eq_iff _ _).mpr h
  rw [hop]
  rfl

/-- The cases of a switch stand where its shape says. -/
theorem caseOffset_iff {code : Code} {o : ℕ} {shape : SwitchShape}
    (hshape : switchShape? (Opcode.ofUnit (rawAt code o)) = some shape) (rel : ℤ) :
    CaseOffset code o rel ↔ ∃ s k, RefersTo code o s ∧ k < unitAt code (s + 1) ∧
      rel = keyFrom code (s + shape.targets (unitAt code (s + 1))) k := by
  -- the cases of a sparse switch come after its keys
  have hindex : ∀ s k n, s + (2 + n * 2) + 2 * k = s + 2 + 2 * n + 2 * k := by
    intro s k n
    omega
  constructor
  · intro hcase
    rcases hcase with ⟨h, href, hi⟩ | ⟨h, href, hi⟩
    · rw [switchShape?_of_packed h] at hshape
      cases hshape
      exact ⟨_, _, href, hi, rfl⟩
    · rw [switchShape?_of_sparse h] at hshape
      cases hshape
      exact ⟨_, _, href, hi, congrArg _ (hindex _ _ _).symm⟩
  · intro hlisted
    rcases hlisted with ⟨s, k, href, hk, rfl⟩
    obtain ⟨hop, rfl⟩ | ⟨hop, rfl⟩ := switchShape?_cases hshape
    · exact .packed ((ofUnit_eq_iff _ _).mp hop) href hk
    · have hcase := CaseOffset.sparse ((ofUnit_eq_iff _ _).mp hop) href hk
      rw [← hindex] at hcase
      exact hcase

/-- A switch passes if and only if its table does and every case goes to an opcode. -/
theorem exists_switchTargets_iff {m : Method} {t : FlagTable} {o : ℕ} {shape : SwitchShape}
    (hsize : t.size = m.code.size) (hop : t.isOpcode o = true)
    (hshape : switchShape? (Opcode.ofUnit (rawAt m.code o)) = some shape)
    (hwhole : o + 3 ≤ m.code.size) :
    (∃ targets, switchTargets m t o = .ok targets) ↔
      (∃ s, RefersTo m.code o s ∧ TableAt m.code t shape.kind s ∧
        (shape.kind = .sparseSwitch → KeysAscend m.code s)) ∧
      ∀ rel, CaseOffset m.code o rel → ∃ target, Lands t (o + rel) target := by
  simp only [switchTargets_eq_ok_iff hsize hop hshape hwhole, caseOffset_iff hshape]
  constructor
  · intro h
    rcases h with ⟨targets, s, href, htable, hkeys, hcases, -⟩
    refine ⟨⟨s, href, htable, hkeys⟩, ?_⟩
    intro rel h
    rcases h with ⟨s', k, href', hk, rfl⟩
    -- the table that a case belongs to is the one that was checked
    cases RefersTo.unique href href'
    exact hcases k hk
  · intro h
    rcases h with ⟨⟨s, href, htable, hkeys⟩, hcases⟩
    exact ⟨_, s, href, htable, hkeys, fun k hk => hcases _ ⟨s, k, href, hk, rfl⟩, rfl⟩

/-- The targets of a switch are the addresses of its cases. -/
theorem mem_switchTargets_iff {m : Method} {t : FlagTable} {o : ℕ} {shape : SwitchShape}
    {targets : List ℕ} (hsize : t.size = m.code.size) (hop : t.isOpcode o = true)
    (hshape : switchShape? (Opcode.ofUnit (rawAt m.code o)) = some shape)
    (hwhole : o + 3 ≤ m.code.size) (h : switchTargets m t o = .ok targets) (a : ℕ) :
    a ∈ targets ↔ ∃ rel, CaseOffset m.code o rel ∧ Lands t (o + rel) a := by
  obtain ⟨s, href, htable, hkeys, hcases, rfl⟩ :=
    (switchTargets_eq_ok_iff hsize hop hshape hwhole).mp h
  rw [caseAddresses, List.mem_map]
  constructor
  · intro hlisted
    rcases hlisted with ⟨k, hk, rfl⟩
    obtain ⟨target, hlands⟩ := hcases k (List.mem_range.mp hk)
    refine ⟨_, (caseOffset_iff hshape _).mpr ⟨s, k, href, List.mem_range.mp hk, rfl⟩, ?_⟩
    rwa [← hlands.eq, Int.toNat_natCast, hlands.eq]
  · intro hlanding
    rcases hlanding with ⟨rel, hrel, hlands⟩
    obtain ⟨s', k, href', hk, rfl⟩ := (caseOffset_iff hshape rel).mp hrel
    cases RefersTo.unique href href'
    exact ⟨k, List.mem_range.mpr hk, by rw [← hlands.eq, Int.toNat_natCast]⟩

/-! ## Tables with the same widths -/

section

variable {m : Method} {t t' : FlagTable}

/-- Only the widths matter to the check of an array table. -/
theorem arrayTable_eq_of_sameWidths (hw : t.SameWidths t') (off a : ℤ) :
    arrayTable m t off a = arrayTable m t' off a := by
  unfold arrayTable
  rcases word_cases_of_sameWidths hw a.toNat with ⟨w, w', h, h', heq⟩ | ⟨e, h, h'⟩
  · simp only [h, h', ok_bind, heq]
  · simp only [h, h']

/-- Only the widths matter to the check of array data. -/
theorem arrayData_eq_of_sameWidths (hw : t.SameWidths t') (off : ℤ) :
    arrayData m t off = arrayData m t' off := by
  simp only [arrayData, covered_eq_of_sameWidths hw, instructionAt_eq_of_sameWidths hw,
    arrayTable_eq_of_sameWidths hw]

/-- Only the widths matter to the check of a switch table. -/
theorem switchTable_eq_of_sameWidths (hw : t.SameWidths t') (off : ℤ) (shape : SwitchShape)
    (a : ℤ) : switchTable m t off shape a = switchTable m t' off shape a := by
  unfold switchTable
  rcases word_cases_of_sameWidths hw a.toNat with ⟨w, w', h, h', heq⟩ | ⟨e, h, h'⟩
  · simp only [h, h', ok_bind, heq]
  · simp only [h, h']

/-- Only the widths matter to the check of the cases. -/
theorem caseTargets_eq_of_sameWidths (hw : t.SameWidths t') (off : ℤ) (index i n : ℕ)
    (acc : Array ℕ) : caseTargets m t off index i n acc = caseTargets m t' off index i n acc := by
  induction n generalizing index i acc with
  | zero => rfl
  | succ n ih => simp only [caseTargets, caseTarget, hw.isOpcode_eq, ih]

/-- Only the widths matter to the check of a switch. -/
theorem switchTargets_eq_of_sameWidths (hw : t.SameWidths t') (off : ℤ) :
    switchTargets m t off = switchTargets m t' off := by
  simp only [switchTargets, covered_eq_of_sameWidths hw, instructionAt_eq_of_sameWidths hw,
    switchTable_eq_of_sameWidths hw, caseTargets_eq_of_sameWidths hw]

end

end Check
end Dalvik
