import Mathlib
import Dalvik.Proofs.Rescan
import Dalvik.Proofs.TransferMarks

/-!
# Extents of payload tables

The extent of a payload table is computed where the table is measured, where a switch refers to it
and where a fill-array instruction does, and it is compared with a width field of sixteen bits. All
of these agree.

* `WordExtent`: the extents in words of 64 bits are the exact ones, for all values of the fields;
* `Measured`: what measuring says about every unit of a code;
* `ExtentsAgree`: after a scan, the checks find the extents that were measured and recorded, so a
  reference to a payload table is refused for its extent only if no instruction starts there.
-/

namespace Dalvik

open Layout Check

/-! ## Words -/

namespace WordExtent

/-- The extent of a packed-switch table, in words. -/
def packedSwitch (entries : UInt16) : UInt64 := 4 + entries.toUInt64 * 2

/-- The extent of a sparse-switch table, in words. -/
def sparseSwitch (entries : UInt16) : UInt64 := 2 + entries.toUInt64 * 4

/-- The extent of an array-data table, in words. -/
def arrayData (elementWidth : UInt16) (count : UInt32) : UInt64 :=
  4 + (elementWidth.toUInt64 * count.toUInt64 + 1) / 2

/-- The extent of a packed switch does not wrap. -/
theorem toNat_packedSwitch (entries : UInt16) :
    (packedSwitch entries).toNat = packedSwitchExtent entries.toNat := by
  have hlt := entries.toNat_lt
  simp only [packedSwitch, packedSwitchExtent, UInt64.toNat_add, UInt64.toNat_mul,
    UInt16.toNat_toUInt64, UInt64.reduceToNat]
  omega

/-- The extent of a sparse switch does not wrap. -/
theorem toNat_sparseSwitch (entries : UInt16) :
    (sparseSwitch entries).toNat = sparseSwitchExtent entries.toNat := by
  have hlt := entries.toNat_lt
  simp only [sparseSwitch, sparseSwitchExtent, UInt64.toNat_add, UInt64.toNat_mul,
    UInt16.toNat_toUInt64, UInt64.reduceToNat]
  omega

/-- The bytes of an array are counted in 48 bits. -/
theorem mul_toNat_lt (elementWidth : UInt16) (count : UInt32) :
    elementWidth.toNat * count.toNat < 2 ^ 48 := by
  calc elementWidth.toNat * count.toNat
      < 2 ^ 16 * 2 ^ 32 := Nat.mul_lt_mul'' elementWidth.toNat_lt count.toNat_lt
    _ = 2 ^ 48 := by norm_num

/-- The extent of array data does not wrap, however many elements there are. -/
theorem toNat_arrayData (elementWidth : UInt16) (count : UInt32) :
    (arrayData elementWidth count).toNat
      = arrayDataExtent elementWidth.toNat count.toNat := by
  have hlt := mul_toNat_lt elementWidth count
  simp only [arrayData, arrayDataExtent, UInt64.toNat_add, UInt64.toNat_mul, UInt64.toNat_div,
    UInt16.toNat_toUInt64, UInt32.toNat_toUInt64, UInt64.reduceToNat]
  omega

example : (arrayData 65535 4294967295).toNat = 140735340838917 := by decide

end WordExtent

/-! ## Measuring -/

/-- The unit that was measured starts a payload table, whether or not the table is whole. -/
def Code.reportsTable : Except PayloadFault (Option ℕ) → Bool
  | .ok extent => extent.isSome
  | .error fault => fault.atTable

/-- What measuring says about the unit at `off`. -/
structure Measured (code : Code) (off : ℕ) : Prop where
  /-- A table is reported at the three signatures. -/
  table_iff : Code.reportsTable (Code.measure code off) = true ↔
    unitAt code off = 0x0100 ∨ unitAt code off = 0x0200 ∨ unitAt code off = 0x0300
  /-- It has the extent that its header asks for, if all of it lies inside the code. -/
  ok_iff : ∀ w, Code.measure code off = .ok (some w) ↔
    ∃ kind : PayloadKind, rawAt code off = kind.signature ∧
      off + headerUnits kind ≤ code.size ∧ w = extentAt code kind off ∧ off + w ≤ code.size
  /-- A table that passes the end of the code is refused. -/
  overrun : Code.reportsTable (Code.measure code off) = true →
    (∀ w, Code.measure code off ≠ .ok (some w)) →
    ∃ fault, Code.measure code off = .error fault ∧ fault.kind = .payloadOverrun
  /-- Any other unit is left to the decode of ordinary instructions. -/
  ordinary : Code.reportsTable (Code.measure code off) = false → Code.measure code off = .ok none

theorem exists_signature_iff (code : Code) (off : ℕ) :
    (∃ kind : PayloadKind, rawAt code off = kind.signature) ↔
      unitAt code off = 0x0100 ∨ unitAt code off = 0x0200 ∨ unitAt code off = 0x0300 := by
  have hunit : ∀ u : UInt16, rawAt code off = u ↔ unitAt code off = u.toNat :=
    fun u => UInt16.toNat_inj.symm
  constructor
  · rintro ⟨kind, hkind⟩
    have hkind := (hunit _).mp hkind
    cases kind with
    | packedSwitch => exact .inl hkind
    | sparseSwitch => exact .inr (.inl hkind)
    | arrayData => exact .inr (.inr hkind)
  · rintro (h | h | h)
    · exact ⟨.packedSwitch, (hunit _).mpr h⟩
    · exact ⟨.sparseSwitch, (hunit _).mpr h⟩
    · exact ⟨.arrayData, (hunit _).mpr h⟩

theorem measured_of_not_payload {code : Code} {off : ℕ} (hlt : off < code.size)
    (hkind : PayloadKind.ofUnit? (rawAt code off) = none) : Measured code off := by
  have hm : Code.measure code off = .ok none := measureAt_eq_ok_none hlt hkind
  have hno : ¬ ∃ kind : PayloadKind, rawAt code off = kind.signature := by
    rintro ⟨kind, hsign⟩
    rw [(ofUnit?_eq_some_iff _ kind).mpr hsign] at hkind
    cases hkind
  rw [exists_signature_iff] at hno
  constructor
  · rw [hm]
    exact ⟨fun h => absurd h (by decide), fun h => absurd h hno⟩
  · intro w
    rw [hm]
    refine ⟨fun h => absurd h (by rintro ⟨⟩), ?_⟩
    rintro ⟨kind, hsign, -⟩
    exact absurd ((exists_signature_iff code off).mp ⟨kind, hsign⟩) hno
  · intro h
    rw [hm] at h
    cases h
  · exact fun _ => hm

theorem measured_of_signature {code : Code} {off : ℕ} {kind : PayloadKind}
    (hkind : rawAt code off = kind.signature) : Measured code off := by
  have hsign := (exists_signature_iff code off).mp ⟨kind, hkind⟩
  have hheader := headerUnits_le_extentAt code kind off
  -- no unit is the signature of two kinds
  have hunique : ∀ kind' : PayloadKind, rawAt code off = kind'.signature → kind' = kind := by
    intro kind' hkind'
    have hsome := (ofUnit?_eq_some_iff _ kind').mpr hkind'
    rw [(ofUnit?_eq_some_iff _ kind).mpr hkind] at hsome
    exact (Option.some.inj hsome).symm
  by_cases hinside : off + extentAt code kind off ≤ code.size
  · have hm : Code.measure code off = .ok (some (extentAt code kind off)) :=
      measureAt_eq_ok_some hkind hinside
    constructor
    · rw [hm]
      exact ⟨fun _ => hsign, fun _ => rfl⟩
    · intro w
      rw [hm]
      constructor
      · intro h
        cases h
        exact ⟨kind, hkind, by omega, rfl, hinside⟩
      · rintro ⟨kind', hkind', -, rfl, -⟩
        rw [hunique kind' hkind']
    · exact fun _ hno => absurd hm (hno _)
    · intro h
      rw [hm] at h
      cases h
  · obtain ⟨fault, hm, hoverrun, hat⟩ := measureAt_overrun hkind (Nat.not_le.mp hinside)
    change Code.measure code off = .error fault at hm
    constructor
    · rw [hm]
      exact ⟨fun _ => hsign, fun _ => hat⟩
    · intro w
      rw [hm]
      refine ⟨fun h => absurd h (by rintro ⟨⟩), ?_⟩
      rintro ⟨kind', hkind', -, rfl, hle⟩
      rw [hunique kind' hkind'] at hle
      exact absurd hle hinside
    · exact fun _ _ => ⟨fault, hm, hoverrun⟩
    · intro h
      rw [hm] at h
      change fault.atTable = false at h
      rw [hat] at h
      cases h

/-- At every offset of the code the measurement agrees with the layout. -/
theorem measured {code : Code} {off : ℕ} (hlt : off < code.size) : Measured code off := by
  cases hkind : PayloadKind.ofUnit? (rawAt code off) with
  | none => exact measured_of_not_payload hlt hkind
  | some kind => exact measured_of_signature ((ofUnit?_eq_some_iff _ kind).mp hkind)

/-! ## Tables that the scan has found -/

section

variable {m : Method} {t : FlagTable} {k : FaultKind} {offset : Option ℤ}

/-- A scan that succeeds has recorded the widths of the code. -/
theorem recorded_of_widths_ok {n : ℕ} (h : (Check.widths m t).1 = .ok n) :
    Recorded m.code (Check.widths m t).2 := by
  by_cases hrefused : m.code.size = 0 ∨ t.size ≠ m.code.size
  · obtain ⟨cause, hwidths⟩ := widths_refused hrefused
    rw [hwidths] at h
    cases h
  · push Not at hrefused
    exact recorded_widths hrefused.1 hrefused.2

/-- A table at an instruction start has the extent that was measured, and that is recorded. -/
theorem Layout.Recorded.extent_eq (hrec : Recorded m.code t) {kind : PayloadKind} {s : ℕ}
    (hs : IsStart m.code s) (hkind : rawAt m.code s = kind.signature) :
    Code.measure m.code s = .ok (some (extentAt m.code kind s)) ∧
      (t.wordAt s).width = extentAt m.code kind s := by
  have hmem := (isStart_iff m.code s).mp hs
  have hwidth := startWidth_eq_extentAt hmem hkind
  have hinside := add_startWidth_le hmem
  rw [hwidth] at hinside
  exact ⟨measureAt_eq_ok_some hkind hinside, by rw [hrec.width_eq, hwidth]⟩

/-- A table at an even instruction start is one that the checks find. -/
theorem Layout.Recorded.tableAt (hrec : Recorded m.code t) {kind : PayloadKind} {s : ℕ}
    (heven : s % 2 = 0) (hs : IsStart m.code s) (hkind : rawAt m.code s = kind.signature) :
    TableAt m.code t kind s :=
  (hrec.tableAt_iff kind s).mpr ⟨heven, hs, by rw [unitAt, hkind]⟩

/-! ### Refusals for the extent -/

/-- The tests of the place and the signature of a table come before all others, so a table that is
refused for another reason has passed them. -/
theorem failsWith_afterSignature {β : Type} {off a : ℤ} {header : ℕ} {signature : UInt16}
    {outside unaligned : Cause} {unsigned : UInt16 → Cause} {rest : Check β}
    (h : FailsWith (do
      if a < 0 ∨ (m.code.size : ℤ) < a + header then refuseAt off outside
      if a.toNat % 2 ≠ 0 then refuseAt off unaligned
      let found ← unit m.code a.toNat
      if found ≠ signature then refuseAt off (unsigned found)
      rest) k offset)
    (hheader : 0 < header) (houtside : outside.kind ≠ k) (hunaligned : unaligned.kind ≠ k)
    (hunsigned : ∀ u, (unsigned u).kind ≠ k) :
    ∃ s : ℕ, a = s ∧ s % 2 = 0 ∧ rawAt m.code s = signature := by
  rcases failsWith_guard_iff.mp h with ⟨-, -, hkind⟩ | ⟨hstart, h⟩
  · exact absurd hkind houtside
  obtain ⟨s, rfl⟩ := Int.eq_ofNat_of_zero_le (show 0 ≤ a by omega)
  rw [Int.toNat_natCast] at h
  rcases failsWith_guard_iff.mp h with ⟨-, -, hkind⟩ | ⟨heven, h⟩
  · exact absurd hkind hunaligned
  rw [unit_eq (by omega), ok_bind] at h
  rcases failsWith_guard_iff.mp h with ⟨-, -, hkind⟩ | ⟨hsign, -⟩
  · exact absurd hkind (hunsigned _)
  exact ⟨s, rfl, not_not.mp heven, not_not.mp hsign⟩

/-- A switch table is refused for its extent only if it is none that the checks find, although its
place and its signature are good. -/
theorem failsWith_switchTable {shape : SwitchShape} {off a : ℤ} (hsize : t.size = m.code.size)
    (hfits : shape.Fits) (hk : k ∈ [FaultKind.switchEnd, .switchTable])
    (h : FailsWith (switchTable m t off shape a) k offset) :
    ∃ s : ℕ, a = s ∧ s % 2 = 0 ∧ rawAt m.code s = shape.kind.signature ∧
      ¬ TableAt m.code t shape.kind s := by
  have htwo := hfits.two_le_header
  have hapart : ∀ k ∈ [FaultKind.switchEnd, .switchTable], FaultKind.switchStart ≠ k ∧
      FaultKind.switchUnaligned ≠ k ∧ FaultKind.switchSignature ≠ k := by decide
  obtain ⟨hstart, hunaligned, hsignature⟩ := hapart k hk
  obtain ⟨s, rfl, heven, hsign⟩ :=
    failsWith_afterSignature h (by omega) hstart hunaligned fun _ => hsignature
  refine ⟨s, rfl, heven, hsign, fun htable => ?_⟩
  rw [(switchTable_eq_ok_iff hsize hfits off s _).mpr ⟨s, rfl, htable, rfl⟩] at h
  exact not_failsWith_ok _ h

/-- The same holds of an array-data table. -/
theorem failsWith_arrayTable {off a : ℤ} (hsize : t.size = m.code.size)
    (hk : k ∈ [FaultKind.arrayEnd, .arrayTable])
    (h : FailsWith (arrayTable m t off a) k offset) :
    ∃ s : ℕ, a = s ∧ s % 2 = 0 ∧ rawAt m.code s = PayloadKind.arrayData.signature ∧
      ¬ TableAt m.code t .arrayData s := by
  have hapart : ∀ k ∈ [FaultKind.arrayEnd, .arrayTable], FaultKind.arrayStart ≠ k ∧
      FaultKind.arrayUnaligned ≠ k ∧ FaultKind.arraySignature ≠ k := by decide
  obtain ⟨hstart, hunaligned, hsignature⟩ := hapart k hk
  obtain ⟨s, rfl, heven, hsign⟩ :=
    failsWith_afterSignature h (by decide) hstart hunaligned fun _ => hsignature
  refine ⟨s, rfl, heven, hsign, fun htable => ?_⟩
  rw [(arrayTable_eq_ok_iff hsize off s).mpr ⟨s, rfl, htable⟩] at h
  exact not_failsWith_ok _ h

/-- Marking adds no fault to those of the targets. -/
theorem failsWith_switchTargets_of_switch {off : ℤ}
    (h : FailsWith (Check.switch m off t).1 k offset) :
    FailsWith (switchTargets m t off) k offset := by
  cases htargets : switchTargets m t off with
  | error halt =>
    rw [switch_of_error htargets] at h
    obtain ⟨cause, hcause, hkind⟩ := h
    cases hcause
    exact ⟨cause, rfl, hkind⟩
  | ok targets =>
    rw [switch_of_ok htargets] at h
    exact absurd h (not_failsWith_ok ())

/-- A switch that refers to a table of its kind fails for its entries only. -/
theorem confined_switchTargets_of_tableAt {o s : ℕ} {shape : SwitchShape}
    (hsize : t.size = m.code.size) (hop : t.isOpcode o = true)
    (hshape : switchShape? (Opcode.ofUnit (rawAt m.code o)) = some shape)
    (hwhole : o + 3 ≤ m.code.size) (href : RefersTo m.code o s)
    (htable : TableAt m.code t shape.kind s) : Confined o entryKinds (switchTargets m t o) := by
  have hfits := switchShape?_fits hshape
  obtain ⟨a, ha, hrefers⟩ := tableRef_eq_some hwhole
  have hfound : switchTable m t o shape a = .ok (s, unitAt m.code (s + 1)) :=
    (switchTable_eq_ok_iff hsize hfits _ _ _).mpr ⟨s, (hrefers s).mpr href, htable, rfl⟩
  rw [switchTargets, (covered_eq_ok_iff m t).mpr hsize, ok_bind,
    (instructionAt_eq_ok_iff t _ o).mpr hop, ok_bind, Int.toNat_natCast, unit_eq (by omega),
    ok_bind]
  simp only [hshape, ha, ok_bind, hfound]
  exact confined_entries htable hfits o

theorem holdsSwitch_of_switchShape? {code : Code} {o : ℕ} {shape : SwitchShape}
    (hshape : switchShape? (Opcode.ofUnit (rawAt code o)) = some shape) : HoldsSwitch code o := by
  obtain ⟨hcode, -⟩ | ⟨hcode, -⟩ := switchShape?_cases hshape
  · exact .inl ((ofUnit_eq_iff _ _).mp hcode)
  · exact .inr ((ofUnit_eq_iff _ _).mp hcode)

/-- On a table with the widths of the code, a switch is refused for the extent of its table only if
no instruction starts there. -/
theorem Layout.Recorded.notStart_of_switch (hrec : Recorded m.code t) {off : ℤ}
    (hk : k ∈ [FaultKind.switchEnd, .switchTable])
    (h : FailsWith (Check.switch m off t).1 k offset) :
    ∃ o s : ℕ, off = o ∧ offset = some off ∧ RefersTo m.code o s ∧ ¬ IsStart m.code s := by
  have h := failsWith_switchTargets_of_switch h
  have hsize := hrec.size_eq
  -- what is no switch at an instruction is refused for another reason
  rw [switchTargets, (covered_eq_ok_iff m t).mpr hsize, ok_bind] at h
  by_cases hop : t.isOpcode off = true
  · obtain ⟨o, rfl, hlt, -⟩ := exists_of_isOpcode hop
    have ho := (isStart_iff m.code o).mp ((hrec.isOpcode_iff o).mp hop)
    rw [(instructionAt_eq_ok_iff t _ _).mpr hop, ok_bind, Int.toNat_natCast, unit_eq (by omega),
      ok_bind] at h
    simp only at h
    split at h
    · obtain ⟨-, rfl⟩ := failsWith_refused_iff.mp h
      simp [Cause.kind] at hk
    · rename_i shape hshape
      have hfits := switchShape?_fits hshape
      have hwhole := add_three_le ho (.inr (holdsSwitch_of_switchShape? hshape))
      rw [tableRef_eq hwhole, ok_bind] at h
      simp only at h
      rcases failsWith_bind_iff.mp h with h | ⟨found, hfound, h⟩
      · obtain ⟨s, hs, heven, hsign, hno⟩ := failsWith_switchTable hsize hfits hk h
        obtain ⟨hoffset, -⟩ := (confined_switchTable hsize hfits _ _).of_failsWith h
        exact ⟨o, s, rfl, hoffset, hs.symm, fun hstart => hno (hrec.tableAt heven hstart hsign)⟩
      -- the entries of a table have faults of their own
      · obtain ⟨s, -, htable, rfl⟩ := (switchTable_eq_ok_iff hsize hfits _ _ found).mp hfound
        obtain ⟨-, hentry⟩ := (confined_entries htable hfits o).of_failsWith h
        have hapart : ∀ k ∈ [FaultKind.switchEnd, .switchTable], k ∉ entryKinds := by decide
        exact absurd hentry (hapart k hk)
  · rw [instructionAt, if_neg hop] at h
    obtain ⟨-, rfl⟩ := failsWith_refused_iff.mp h
    simp [Cause.kind] at hk

/-- The same holds of a fill-array instruction. -/
theorem Layout.Recorded.notStart_of_arrayData (hrec : Recorded m.code t) {off : ℤ}
    (hk : k ∈ [FaultKind.arrayEnd, .arrayTable])
    (h : FailsWith (Check.arrayData m t off) k offset) :
    ∃ o s : ℕ, off = o ∧ offset = some off ∧ RefersTo m.code o s ∧ ¬ IsStart m.code s := by
  have hsize := hrec.size_eq
  rw [arrayData, (covered_eq_ok_iff m t).mpr hsize, ok_bind] at h
  by_cases hop : t.isOpcode off = true
  · obtain ⟨o, rfl, hlt, -⟩ := exists_of_isOpcode hop
    have ho := (isStart_iff m.code o).mp ((hrec.isOpcode_iff o).mp hop)
    rw [(instructionAt_eq_ok_iff t _ _).mpr hop, ok_bind, Int.toNat_natCast, unit_eq (by omega),
      ok_bind] at h
    rcases failsWith_guard_iff.mp h with ⟨-, -, rfl⟩ | ⟨hfill, h⟩
    · simp [Cause.kind] at hk
    have hcode : opcodeAt m.code o = 0x26 := (ofUnit_eq_iff _ _).mp (not_not.mp hfill)
    rw [tableRef_eq (add_three_le ho (.inl hcode)), ok_bind] at h
    obtain ⟨s, hs, heven, hsign, hno⟩ := failsWith_arrayTable hsize hk h
    obtain ⟨hoffset, -⟩ := (confined_arrayTable hsize _ _).of_failsWith h
    exact ⟨o, s, rfl, hoffset, hs.symm, fun hstart => hno (hrec.tableAt heven hstart hsign)⟩
  · rw [instructionAt, if_neg hop] at h
    obtain ⟨-, rfl⟩ := failsWith_refused_iff.mp h
    simp [Cause.kind] at hk

end

/-! ## All extents -/

/-- What the checks say about payload tables on a table `t` with the widths of the code. -/
structure ExtentsAgree (m : Method) (t : FlagTable) : Prop where
  /-- A switch that refers to a table of its kind finds the extent that was measured and recorded,
  and can fail for its entries only. -/
  switches : ∀ (o s : ℕ) (shape : SwitchShape), IsStart m.code o →
    switchShape? (Opcode.ofUnit (rawAt m.code o)) = some shape → RefersTo m.code o s →
    s % 2 = 0 → IsStart m.code s → rawAt m.code s = shape.kind.signature →
    ∃ w, shape.extent (unitAt m.code (s + 1)) = w ∧ Code.measure m.code s = .ok (some w) ∧
      (t.wordAt s).width = w ∧
      ∀ k offset, FailsWith ((Pass.switch m o).run t).result k offset → k ∈ entryKinds
  /-- A fill-array instruction does so too, and passes. -/
  arrays : ∀ o s : ℕ, IsStart m.code o → opcodeAt m.code o = 0x26 → RefersTo m.code o s →
    s % 2 = 0 → IsStart m.code s → rawAt m.code s = PayloadKind.arrayData.signature →
    ∃ w, arrayDataExtent (unitAt m.code (s + 1))
        (joinUnits (rawAt m.code (s + 2)) (rawAt m.code (s + 3))).toNat = w ∧
      Code.measure m.code s = .ok (some w) ∧ (t.wordAt s).width = w ∧
      ((Pass.arrayData m o).run t).result = .ok ()
  /-- A switch is refused for the extent of its table only if no instruction starts there. -/
  switchFaults : ∀ (off : ℤ) (k : FaultKind) (offset : Option ℤ),
    k ∈ [FaultKind.switchEnd, .switchTable] →
    FailsWith ((Pass.switch m off).run t).result k offset →
    ∃ o s : ℕ, off = o ∧ offset = some off ∧ RefersTo m.code o s ∧ ¬ IsStart m.code s
  /-- So is a fill-array instruction. -/
  arrayFaults : ∀ (off : ℤ) (k : FaultKind) (offset : Option ℤ),
    k ∈ [FaultKind.arrayEnd, .arrayTable] →
    FailsWith ((Pass.arrayData m off).run t).result k offset →
    ∃ o s : ℕ, off = o ∧ offset = some off ∧ RefersTo m.code o s ∧ ¬ IsStart m.code s

/-- The extents of the payload tables of a method. -/
structure PayloadsAgree (m : Method) : Prop where
  /-- No fields of a header make a word of 64 bits wrap. -/
  packedWords : ∀ entries : UInt16,
    (WordExtent.packedSwitch entries).toNat = packedSwitchExtent entries.toNat
  sparseWords : ∀ entries : UInt16,
    (WordExtent.sparseSwitch entries).toNat = sparseSwitchExtent entries.toNat
  arrayWords : ∀ (elementWidth : UInt16) (count : UInt32),
    (WordExtent.arrayData elementWidth count).toNat
      = arrayDataExtent elementWidth.toNat count.toNat
  /-- Every unit of the code is measured as what it is. -/
  measured : ∀ off < m.code.size, Measured m.code off
  /-- After a scan that succeeds, and after any marks that follow it, the checks agree with it. -/
  scanned : ∀ (t t' : FlagTable) (n : ℕ), ((Pass.widths m).run t).result = .ok n →
    ((Pass.widths m).run t).table.SameWidths t' → ExtentsAgree m t'

/-- After a scan, the extent that is computed again is the one that was recorded. -/
theorem extentsAgree_of_recorded {m : Method} {t : FlagTable} (hrec : Recorded m.code t) :
    ExtentsAgree m t := by
  constructor
  · intro o s shape ho hshape href heven hs hsign
    obtain ⟨hmeasure, hwidth⟩ := hrec.extent_eq hs hsign
    have hop := (hrec.isOpcode_iff o).mpr ho
    have hwhole := add_three_le ((isStart_iff m.code o).mp ho)
      (.inr (holdsSwitch_of_switchShape? hshape))
    have hentries := confined_switchTargets_of_tableAt hrec.size_eq hop hshape hwhole href
      (hrec.tableAt heven hs hsign)
    exact ⟨_, (switchShape?_fits hshape).extent_eq m.code s, hmeasure, hwidth,
      fun k offset h => (hentries.of_failsWith (failsWith_switchTargets_of_switch h)).2⟩
  · intro o s ho hcode href heven hs hsign
    obtain ⟨hmeasure, hwidth⟩ := hrec.extent_eq hs hsign
    have hop := (hrec.isOpcode_iff o).mpr ho
    have hwhole := add_three_le ((isStart_iff m.code o).mp ho) (.inl hcode)
    refine ⟨_, arrayDataExtent_eq m.code s, hmeasure, hwidth, ?_⟩
    exact (arrayData_eq_ok_iff hrec.size_eq hop hcode hwhole).mpr
      ⟨s, href, hrec.tableAt heven hs hsign⟩
  · exact fun off k offset hk h => hrec.notStart_of_switch hk h
  · exact fun off k offset hk h => hrec.notStart_of_arrayData hk h

/-- Wherever the extent of a payload table is computed, it comes out the same. -/
theorem payloadsAgree (m : Method) : PayloadsAgree m where
  packedWords := WordExtent.toNat_packedSwitch
  sparseWords := WordExtent.toNat_sparseSwitch
  arrayWords := WordExtent.toNat_arrayData
  measured _ hlt := Dalvik.measured hlt
  scanned t t' n hok hw := by
    rw [Pass.result_widths] at hok
    rw [Pass.table_widths] at hw
    exact extentsAgree_of_recorded ((recorded_of_widths_ok hok).of_sameWidths hw)

end Dalvik
