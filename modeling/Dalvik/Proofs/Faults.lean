import Mathlib
import Dalvik.Proofs.Passes

/-!
# Faults of the code and of the exception table

What can be wrong with a method before its instructions are looked at one by one, said in the terms
of the layout: the sequential decode reaches a unit that it cannot decode (`StreamFault`), a try
block does not cover whole instructions, or a handler starts at none (`TableFault`). The scan and
the check of the try blocks fail with a kind at an offset if and only if the method has that fault
there: `failsWith_widths_iff` and `failsWith_tries_iff`.
-/

namespace Dalvik

/-! ## Undecodable units -/

namespace Layout

/-- Whole instructions fill the units of the code below `f`. -/
def Reaches (code : Code) (f : ℕ) : Prop :=
  ∃ front : List (List UInt16), front.flatten <+: code.toList ∧
    (∀ q ∈ front, IsInstruction q) ∧ front.flatten.length = f

/-- The units of a payload table from which its extent is computed. -/
def headerUnits : PayloadKind → ℕ
  | .packedSwitch => 2
  | .sparseSwitch => 2
  | .arrayData => 4

/-- Why no instruction can be decoded at `f`. -/
inductive Undecodable (code : Code) (f : ℕ) : FaultKind → Prop where
  /-- The low byte is no opcode. -/
  | opcode (hop : (Opcode.ofUnit (rawAt code f)).isAssigned = false) :
      Undecodable code f .unknownOpcode
  /-- The header of a payload table passes the end of the code. -/
  | header {kind : PayloadKind} (hkind : rawAt code f = kind.signature)
      (hend : code.size < f + headerUnits kind) : Undecodable code f .payloadOverrun
  /-- The header is there, but the table passes the end of the code. -/
  | body {kind : PayloadKind} (hkind : rawAt code f = kind.signature)
      (hheader : f + headerUnits kind ≤ code.size)
      (hend : code.size < f + extentAt code kind f) : Undecodable code f .payloadOverrun
  /-- An ordinary instruction passes the end of the code. -/
  | cut (hlt : f < code.size) (hkind : isPayloadUnit (rawAt code f) = false)
      (hop : (Opcode.ofUnit (rawAt code f)).isAssigned = true)
      (hend : code.size < f + (Opcode.ofUnit (rawAt code f)).width) :
      Undecodable code f .codeEndMismatch
  /-- A payload table fits the code, but not the width field. -/
  | wide {kind : PayloadKind} (hkind : rawAt code f = kind.signature)
      (hfits : f + extentAt code kind f ≤ code.size)
      (hwide : 65535 < extentAt code kind f) : Undecodable code f .insaneWidth

variable {code : Code} {f : ℕ} {k : FaultKind}

/-- A table is no shorter than its header. -/
theorem headerUnits_le_extentAt (code : Code) (kind : PayloadKind) (f : ℕ) :
    headerUnits kind ≤ extentAt code kind f := by
  cases kind <;> simp only [headerUnits, extentAt] <;> omega

/-- A unit outside the code reads as zero, which starts an instruction of one unit. -/
theorem rawAt_eq_zero (h : code.size ≤ f) : rawAt code f = 0 := by
  rw [rawAt, Array.getElem?_eq_none h]
  rfl

theorem lt_size_of_signature {kind : PayloadKind} (h : rawAt code f = kind.signature) :
    f < code.size := by
  by_contra hge
  rw [rawAt_eq_zero (by omega)] at h
  cases kind <;> cases h

/-- Only an offset inside the code can be undecodable. -/
theorem Undecodable.lt_size (h : Undecodable code f k) : f < code.size := by
  cases h with
  | opcode hop =>
    by_contra hge
    rw [rawAt_eq_zero (by omega)] at hop
    revert hop
    decide
  | header hkind hend => exact lt_size_of_signature hkind
  | body hkind hheader hend => exact lt_size_of_signature hkind
  | cut hlt hkind hop hend => exact hlt
  | wide hkind hfits hwide => exact lt_size_of_signature hkind

/-- The low byte of a signature is the opcode of an instruction. -/
theorem isAssigned_signature (kind : PayloadKind) :
    (Opcode.ofUnit kind.signature).isAssigned = true := by
  cases kind <;> decide

/-- A table that passes the end of the code cannot be measured. -/
theorem measureAt_overrun {kind : PayloadKind} (hkind : rawAt code f = kind.signature)
    (hend : code.size < f + extentAt code kind f) :
    ∃ fault, Code.measureAt code f = .error fault ∧ fault.kind = .payloadOverrun ∧
      fault.atTable = true := by
  have hlt := lt_size_of_signature hkind
  have hsome := (ofUnit?_eq_some_iff _ kind).mpr hkind
  simp only [Code.measureAt, getElem?_code hlt, hsome]
  cases hext : Code.payloadExtent? code kind f with
  | none => exact ⟨.header kind f, rfl, rfl, rfl⟩
  | some extent =>
    rw [payloadExtent?_eq_some hext]
    simp only
    rw [if_neg (by omega)]
    exact ⟨_, rfl, rfl, rfl⟩

/-- A table that reaches beyond the code is an overrun. -/
theorem decode_overrun {kind : PayloadKind} (hkind : rawAt code f = kind.signature)
    (hend : code.size < f + extentAt code kind f) :
    ∃ cause, Instruction.decode code f = .error cause ∧ cause.kind = .payloadOverrun := by
  obtain ⟨fault, hfault, hoverrun, -⟩ := measureAt_overrun hkind hend
  exact ⟨.payload fault, decode_of_measure_error hfault, hoverrun⟩

/-- A table that fits the code but not the width field. -/
theorem decode_wide {kind : PayloadKind} (hkind : rawAt code f = kind.signature)
    (hfits : f + extentAt code kind f ≤ code.size) (hwide : 65535 < extentAt code kind f) :
    Instruction.decode code f = .error (.width (extentAt code kind f)) := by
  rw [decode_of_measure_some (measureAt_eq_ok_some hkind hfits),
    if_pos (by rw [FlagWord.maxWidth]; omega)]

/-- An undecodable unit is refused for its kind. -/
theorem Undecodable.decode (h : Undecodable code f k) :
    ∃ cause, Instruction.decode code f = .error cause ∧ cause.kind = k := by
  have hlt := h.lt_size
  cases h with
  | opcode hop =>
    have hkind : PayloadKind.ofUnit? (rawAt code f) = none := by
      cases hsome : PayloadKind.ofUnit? (rawAt code f) with
      | none => rfl
      | some kind =>
        rw [(ofUnit?_eq_some_iff _ kind).mp hsome, isAssigned_signature] at hop
        cases hop
    have hwidth : (Opcode.ofUnit (rawAt code f)).width = 0 := by
      by_contra hne
      rw [(width_ne_zero_iff _).mp hne] at hop
      cases hop
    rw [decode_of_not_payload hlt hkind, dif_pos hwidth]
    exact ⟨_, rfl, rfl⟩
  | @header kind hkind hend =>
    have hle := headerUnits_le_extentAt code kind f
    exact decode_overrun hkind (by omega)
  | body hkind hheader hend => exact decode_overrun hkind hend
  | cut _ hkind hop hend =>
    rw [decode_of_not_payload hlt (by simpa [isPayloadUnit] using hkind),
      dif_neg ((width_ne_zero_iff _).mpr hop), if_pos (by omega)]
    exact ⟨_, rfl, rfl⟩
  | wide hkind hfits hwide => exact ⟨_, decode_wide hkind hfits hwide, rfl⟩

/-- A unit of the code is decoded, or there is a reason why not. -/
theorem decode_or_undecodable (hlt : f < code.size) :
    (∃ ins, Instruction.decode code f = .ok ins) ∨ ∃ k, Undecodable code f k := by
  cases hkind : PayloadKind.ofUnit? (rawAt code f) with
  | none =>
    by_cases hop : (Opcode.ofUnit (rawAt code f)).isAssigned = true
    · by_cases hsize : f + (Opcode.ofUnit (rawAt code f)).width ≤ code.size
      · obtain ⟨ins, hins, -⟩ := decode_ordinary hlt hkind hop hsize
        exact .inl ⟨ins, hins⟩
      · exact .inr ⟨_, .cut hlt (by simp [isPayloadUnit, hkind]) hop (by omega)⟩
    · exact .inr ⟨_, .opcode (by simpa using hop)⟩
  | some kind =>
    have hsign := (ofUnit?_eq_some_iff _ kind).mp hkind
    by_cases hheader : f + headerUnits kind ≤ code.size
    · by_cases hsize : f + extentAt code kind f ≤ code.size
      · by_cases hmax : extentAt code kind f ≤ 65535
        · obtain ⟨ins, hins, -⟩ := decode_table hsign hsize hmax
          exact .inl ⟨ins, hins⟩
        · exact .inr ⟨_, .wide hsign hsize (by omega)⟩
      · exact .inr ⟨_, .body hsign hheader (by omega)⟩
    · exact .inr ⟨_, .header hsign (by omega)⟩

/-- Whatever stops the decode is one of the listed reasons. -/
theorem undecodable_of_decode {cause : Cause} (hlt : f < code.size)
    (h : Instruction.decode code f = .error cause) : Undecodable code f cause.kind := by
  rcases decode_or_undecodable hlt with ⟨ins, hins⟩ | ⟨k, hk⟩
  · rw [h] at hins
    cases hins
  · obtain ⟨cause', hcause', hkind⟩ := hk.decode
    rw [h] at hcause'
    cases hcause'
    rwa [hkind]

/-! ## Where the decode stops -/

/-- Instructions in front do not change where the decode stops. -/
theorem stopFrom_eq_stopFrom_add {off : ℕ} {front : List (List UInt16)}
    (hpre : front.flatten <+: code.toList.drop off) (hall : ∀ q ∈ front, IsInstruction q) :
    stopFrom code off = stopFrom code (off + front.flatten.length) := by
  induction front generalizing off with
  | nil => rfl
  | cons q front ih =>
    rw [List.forall_mem_cons] at hall
    rw [List.flatten_cons, append_prefix_iff, List.drop_drop] at hpre
    obtain ⟨ins, hdec, hwidth⟩ := decode_of_prefix hall.1 hpre.1
    rw [stopFrom_ok hdec, hwidth, ih hpre.2 hall.2, List.flatten_cons, List.length_append,
      Nat.add_assoc]

/-- Whole instructions fill the units up to where the decode stops. -/
theorem exists_front_stopFrom (code : Code) (off : ℕ) :
    ∃ front : List (List UInt16), front.flatten <+: code.toList.drop off ∧
      (∀ q ∈ front, IsInstruction q) ∧ off + front.flatten.length = stopFrom code off := by
  induction off using decode_induction code with
  | stop off cause hdec =>
    rw [stopFrom_error hdec]
    exact ⟨[], List.nil_prefix, by simp, rfl⟩
  | step off ins hdec ih =>
    obtain ⟨p, hp, hpre, hlen⟩ := prefix_of_decode hdec
    obtain ⟨front, hfront, hall, hstop⟩ := ih
    refine ⟨p :: front, ?_, List.forall_mem_cons.mpr ⟨hp, hall⟩, ?_⟩
    · rw [List.flatten_cons, append_prefix_iff, List.drop_drop, hlen]
      exact ⟨hpre, hfront⟩
    · rw [stopFrom_ok hdec, ← hstop, List.flatten_cons, List.length_append]
      omega

/-- The decode stops inside the code or at its end. -/
theorem stopFrom_le_size (code : Code) : stopFrom code 0 ≤ code.size := by
  obtain ⟨front, hpre, -, hlen⟩ := exists_front_stopFrom code 0
  have hle := hpre.length_le
  rw [length_drop_toList] at hle
  omega

/-- The one undecodable unit that whole instructions reach is where the decode stops. -/
theorem reaches_iff {cause : Cause} (hdec : Instruction.decode code f = .error cause) :
    Reaches code f ↔ stopFrom code 0 = f := by
  constructor
  · intro hreach
    rcases hreach with ⟨front, hpre, hall, rfl⟩
    have hstop := @stopFrom_eq_stopFrom_add code 0 front (by rwa [List.drop_zero]) hall
    rw [hstop, Nat.zero_add, stopFrom_error hdec]
  · rintro rfl
    obtain ⟨front, hpre, hall, hlen⟩ := exists_front_stopFrom code 0
    rw [List.drop_zero] at hpre
    exact ⟨front, hpre, hall, by omega⟩

/-- A table with the widths of the code has no opcode where no instruction starts. -/
theorem Recorded.not_isOpcode_iff {t : FlagTable} (h : Recorded code t) (o : ℕ) :
    (!t.isOpcode o) = true ↔ ¬ IsStart code o := by
  rw [Bool.not_eq_true', ← Bool.not_eq_true, h.isOpcode_iff]

end Layout

/-! ## Failures with a kind -/

namespace Check

open Layout Pass

/-- The check fails with a cause of kind `k`, at an offset or without one. -/
def FailsWith {α : Type} (c : Check α) (k : FaultKind) (offset : Option ℤ) : Prop :=
  ∃ cause, c = .error (.refused offset cause) ∧ cause.kind = k

section

variable {α β : Type} {k : FaultKind} {offset : Option ℤ}

theorem not_failsWith_ok (a : α) : ¬ FailsWith (.ok a : Check α) k offset := by
  intro h
  obtain ⟨cause, hcause, -⟩ := h
  cases hcause

/-- A refusal fails at its own place with its own kind. -/
theorem failsWith_refused_iff {place : Option ℤ} {cause : Cause} :
    FailsWith (.error (.refused place cause) : Check α) k offset ↔ place = offset ∧ cause.kind = k := by
  constructor
  · intro h
    rcases h with ⟨cause', hcause', hkind⟩
    cases hcause'
    exact ⟨rfl, hkind⟩
  · intro h
    rcases h with ⟨rfl, hkind⟩
    exact ⟨cause, rfl, hkind⟩

/-- A sequence fails in its first check, or in the second one after the first has passed. -/
theorem failsWith_bind_iff {x : Check α} {f : α → Check β} :
    FailsWith (x >>= f) k offset ↔
      FailsWith x k offset ∨ ∃ a, x = .ok a ∧ FailsWith (f a) k offset := by
  cases x with
  | error h =>
    constructor
    · intro hfails
      rcases hfails with ⟨cause, hcause, hkind⟩
      cases hcause
      exact .inl ⟨cause, rfl, hkind⟩
    · intro hfails
      rcases hfails with ⟨cause, hcause, hkind⟩ | ⟨a, ha, -⟩
      · cases hcause
        exact ⟨cause, rfl, hkind⟩
      · cases ha
  | ok a =>
    constructor
    · exact fun hfails => .inr ⟨a, rfl, hfails⟩
    · intro hfails
      rcases hfails with hfails | ⟨a', ha, hfails⟩
      · exact absurd hfails (not_failsWith_ok a)
      · cases ha
        exact hfails

/-- A condition that is refused before the rest of a sequence. -/
theorem failsWith_guard_iff {c : Prop} [Decidable c] {off : ℤ} {cause : Cause}
    {f : Unit → Check β} :
    FailsWith (if c then (refuseAt off cause : Check Unit) >>= f else f ()) k offset ↔
      (c ∧ some off = offset ∧ cause.kind = k) ∨ ¬ c ∧ FailsWith (f ()) k offset := by
  by_cases hc : c
  · rw [if_pos hc]
    exact failsWith_refused_iff.trans ⟨fun h => .inl ⟨hc, h⟩, fun h => h.elim And.right
      fun h => absurd hc h.1⟩
  · rw [if_neg hc]
    exact ⟨fun h => .inr ⟨hc, h⟩, fun h => h.elim (fun h => absurd h.1 hc) And.right⟩

/-- A sequence of passes fails in the first of them that does. -/
theorem failsWith_andThen_iff {x : Check α × FlagTable} {f : α → FlagTable → Check β × FlagTable} :
    FailsWith (andThen x f).1 k offset ↔
      FailsWith x.1 k offset ∨ ∃ a, x.1 = .ok a ∧ FailsWith (f a x.2).1 k offset := by
  have hbind : (andThen x f).1 = (x.1 >>= fun a => (f a x.2).1) := by
    rcases x with ⟨_ | _, t⟩ <;> rfl
  rw [hbind, failsWith_bind_iff]

/-- A confined check fails at its offset with one of its kinds. -/
theorem Confined.of_failsWith {c : Check α} {off : ℤ} {kinds : List FaultKind}
    (hc : Confined off kinds c) (h : FailsWith c k offset) : offset = some off ∧ k ∈ kinds := by
  obtain ⟨cause, hcause, rfl⟩ := h
  obtain ⟨cause', heq, hmem⟩ := hc _ hcause
  cases heq
  exact ⟨rfl, hmem⟩

end

/-! ## The scan -/

/-- The code is empty, or the sequential decode reaches a unit that it cannot decode. -/
inductive StreamFault (code : Code) : FaultKind → Option ℤ → Prop where
  | empty (h : code.size = 0) : StreamFault code .emptyCode none
  | stuck {f : ℕ} {k : FaultKind} (hreach : Reaches code f) (hstop : Undecodable code f k) :
      StreamFault code k (some f)

/-- The code of a stream fault is not tiled. -/
theorem StreamFault.not_tiled {code : Code} {k : FaultKind} {offset : Option ℤ}
    (h : StreamFault code k offset) : ¬ Tiled code := by
  rw [tiled_iff]
  intro htiled
  cases h with
  | empty hsize => exact htiled.1 hsize
  | stuck hreach hstop =>
    obtain ⟨cause, hdec, -⟩ := hstop.decode
    have hlt := hstop.lt_size
    rw [(reaches_iff hdec).mp hreach] at htiled
    omega

/-- The faults of the scan are those of a malformed stream. -/
theorem StreamFault.category {code : Code} {k : FaultKind} {offset : Option ℤ}
    (h : StreamFault code k offset) : k.category = .malformedStream := by
  cases h with
  | empty => rfl
  | stuck _ hstop => cases hstop <;> rfl

/-- The scan fails exactly with the faults of the stream. -/
theorem failsWith_widths_iff (m : Method) (k : FaultKind) (offset : Option ℤ) :
    FailsWith (widths m (.blank m.code.size)).1 k offset ↔ StreamFault m.code k offset := by
  have hsize : (FlagTable.blank m.code.size).size = m.code.size := FlagTable.size_blank _
  have hreset : (FlagTable.blank m.code.size).reset.size = m.code.size := by
    rwa [FlagTable.size_reset]
  by_cases htiled : Tiled m.code
  · obtain ⟨t, hwidths, -⟩ := widths_tiled htiled
    rw [hwidths]
    exact ⟨fun h => absurd h (not_failsWith_ok _), fun h => absurd htiled h.not_tiled⟩
  · by_cases hne : m.code.size = 0
    · have hempty : widths m (.blank m.code.size) = (refuse .noCode, .blank m.code.size) := by
        rw [widths, if_pos (by rw [Array.isEmpty_iff_size_eq_zero, hne])]
      rw [hempty]
      constructor
      · intro h
        obtain ⟨rfl, rfl⟩ := failsWith_refused_iff.mp h
        exact .empty hne
      · intro h
        cases h with
        | empty => exact failsWith_refused_iff.mpr ⟨rfl, rfl⟩
        | stuck hreach hstop =>
          have := hstop.lt_size
          omega
    · have hstop : stopFrom m.code 0 ≠ m.code.size := fun hstop =>
        htiled ((tiled_iff m.code).mpr ⟨hne, hstop⟩)
      obtain ⟨cause, hdec, herror⟩ := @scanFrom_error m.code 0 0 _ hreset (Nat.zero_le _) hstop
      rw [widths_eq hne hsize, herror]
      constructor
      · intro h
        obtain ⟨rfl, rfl⟩ := failsWith_refused_iff.mp h
        have hle := stopFrom_le_size m.code
        exact .stuck ((reaches_iff hdec).mpr rfl) (undecodable_of_decode (by omega) hdec)
      · intro h
        cases h with
        | empty hsize => exact absurd hsize hne
        | stuck hreach hstop =>
          obtain ⟨cause', hdec', hkind⟩ := hstop.decode
          have hf := (reaches_iff hdec').mp hreach
          subst hf
          rw [hdec] at hdec'
          cases hdec'
          exact failsWith_refused_iff.mpr ⟨rfl, hkind⟩

/-! ## Try blocks and handlers -/

/-- The block covers whole instructions, and at least one. -/
def WholeTry (code : Code) (b : TryBlock) : Prop :=
  0 < b.count.toNat ∧ IsStart code b.start.toNat ∧ (IsStart code b.stop ∨ b.stop = code.size)

/-- What is wrong with a try block: its bounds come first, then its start, then its end. -/
inductive TryFault (code : Code) (b : TryBlock) : FaultKind → Option ℤ → Prop where
  | bounds (h : b.count.toNat = 0 ∨ code.size < b.stop) : TryFault code b .tryBounds none
  | start (hbounds : 0 < b.count.toNat ∧ b.stop ≤ code.size)
      (h : ¬ IsStart code b.start.toNat) : TryFault code b .tryStart (some b.start.toNat)
  | stop (hbounds : 0 < b.count.toNat ∧ b.stop ≤ code.size)
      (hstart : IsStart code b.start.toNat) (hend : b.stop ≠ code.size)
      (h : ¬ IsStart code b.stop) : TryFault code b .tryEnd (some b.stop)

/-- The fault of the first block in the list that is not whole. -/
inductive FirstTryFault (code : Code) : List TryBlock → FaultKind → Option ℤ → Prop where
  | head {b : TryBlock} {rest : List TryBlock} {k : FaultKind} {offset : Option ℤ}
      (h : TryFault code b k offset) : FirstTryFault code (b :: rest) k offset
  | tail {b : TryBlock} {rest : List TryBlock} {k : FaultKind} {offset : Option ℤ}
      (hwhole : WholeTry code b) (h : FirstTryFault code rest k offset) :
      FirstTryFault code (b :: rest) k offset

/-- What is wrong with the exception table: a try block, or else a handler. -/
inductive TableFault (m : Method) : FaultKind → Option ℤ → Prop where
  | tryBlock {k : FaultKind} {offset : Option ℤ} (h : FirstTryFault m.code m.tries k offset) :
      TableFault m k offset
  | handler (htries : ∀ b ∈ m.tries, WholeTry m.code b)
      (h : ∃ hs ∈ m.allHandlers, ∃ h ∈ hs, ¬ IsStart m.code h.addr.toNat) :
      TableFault m .handlerAddress none

section

variable {m : Method} {t : FlagTable} {k : FaultKind} {offset : Option ℤ}

/-- A block with a fault is not whole. -/
theorem TryFault.not_whole {code : Code} {b : TryBlock} (h : TryFault code b k offset) :
    ¬ WholeTry code b := by
  intro hwhole
  obtain ⟨hcount, hstart, hstop⟩ := hwhole
  cases h with
  | bounds hbounds =>
    have hle : b.stop ≤ code.size := by
      rcases hstop with hstop | hstop
      · exact (lt_size_of_mem_startsFrom ((isStart_iff _ _).mp hstop)).le
      · exact hstop.le
    omega
  | start _ hno => exact hno hstart
  | stop _ _ hne hno => exact hstop.elim hno hne

/-- The faults of blocks belong to the exception regions. -/
theorem FirstTryFault.category {code : Code} {blocks : List TryBlock}
    (h : FirstTryFault code blocks k offset) : k.category = .exceptionRegion := by
  induction h with
  | head h => cases h <;> rfl
  | tail _ _ ih => exact ih

/-- A fault of a block is not one of a handler. -/
theorem FirstTryFault.kind_ne {code : Code} {blocks : List TryBlock}
    (h : FirstTryFault code blocks k offset) : k ≠ .handlerAddress := by
  induction h with
  | head h => cases h <;> decide
  | tail _ _ ih => exact ih

/-- The faults of the exception table belong to the exception regions. -/
theorem TableFault.category (h : TableFault m k offset) : k.category = .exceptionRegion := by
  cases h with
  | tryBlock h => exact h.category
  | handler => rfl

/-- The bounds of a block fail exactly with the faults of the block. -/
theorem failsWith_tryBounds_iff (hrec : Recorded m.code t) (index : ℕ) (b : TryBlock) :
    FailsWith (tryBounds m t index b) k offset ↔ TryFault m.code b k offset := by
  have hstop : b.stop = b.start.toNat + b.count.toNat := rfl
  unfold tryBounds
  simp only
  split_ifs with hbounds hstart hend
  · constructor
    · intro h
      obtain ⟨rfl, rfl⟩ := failsWith_refused_iff.mp h
      exact .bounds (by omega)
    · intro h
      cases h with
      | bounds => exact failsWith_refused_iff.mpr ⟨rfl, rfl⟩
      | start hin => omega
      | stop hin => omega
  · rw [hrec.not_isOpcode_iff] at hstart
    constructor
    · intro h
      obtain ⟨rfl, rfl⟩ := failsWith_refused_iff.mp h
      exact .start (by omega) hstart
    · intro h
      cases h with
      | bounds hout => omega
      | start => exact failsWith_refused_iff.mpr ⟨rfl, rfl⟩
      | stop _ hs => exact absurd hs hstart
  · rw [hrec.not_isOpcode_iff] at hstart hend
    constructor
    · intro h
      obtain ⟨rfl, rfl⟩ := failsWith_refused_iff.mp h
      exact .stop (by omega) (not_not.mp hstart) hend.1 hend.2
    · intro h
      cases h with
      | bounds hout => omega
      | start _ hs => exact absurd hs hstart
      | stop => exact failsWith_refused_iff.mpr ⟨rfl, rfl⟩
  · rw [hrec.not_isOpcode_iff] at hstart hend
    refine ⟨fun h => absurd h (not_failsWith_ok ()), fun h => ?_⟩
    cases h with
    | bounds hout => omega
    | start _ hs => exact absurd hs hstart
    | stop _ _ hne hs => exact absurd ⟨hne, hs⟩ hend

/-- The blocks are judged in order, and the first bad one decides. -/
theorem failsWith_markTries_iff (hrec : Recorded m.code t) (index : ℕ) (blocks : List TryBlock) :
    FailsWith (markTries m index blocks t).1 k offset ↔ FirstTryFault m.code blocks k offset := by
  induction blocks generalizing index t with
  | nil => exact ⟨fun h => absurd h (not_failsWith_ok ()), fun h => by cases h⟩
  | cons b rest ih =>
    by_cases hgood : GoodTry t b
    · have hwhole : WholeTry m.code b := (hrec.goodTry_iff b).mp hgood
      have hmarked := FlagTable.SameWidths.markRange t .inTry b.start.toNat b.count.toNat
      rw [markTries_good hrec.size_eq hgood, ih (hrec.of_sameWidths hmarked)]
      constructor
      · exact .tail hwhole
      · intro h
        cases h with
        | head h => exact absurd hwhole h.not_whole
        | tail _ h => exact h
    · have hfirst : (markTries m index (b :: rest) t).1 = tryBounds m t index b := by
        cases hbounds : tryBounds m t index b with
        | error h => rw [markTries, hbounds]
        | ok u => exact absurd ((tryBounds_eq_ok_iff hrec.size_eq index b).mp hbounds) hgood
      rw [hfirst, failsWith_tryBounds_iff hrec]
      constructor
      · exact .head
      · intro h
        cases h with
        | head h => exact h
        | tail hwhole _ => exact absurd ((hrec.goodTry_iff b).mpr hwhole) hgood

/-- A list of handlers fails if and only if a handler is no instruction start. -/
theorem failsWith_handlers_iff (hrec : Recorded m.code t) (hs : List CatchHandler) :
    FailsWith (handlers m t hs) k offset ↔
      (∃ h ∈ hs, ¬ IsStart m.code h.addr.toNat) ∧ none = offset ∧ FaultKind.handlerAddress = k := by
  induction hs with
  | nil => exact ⟨fun h => absurd h (not_failsWith_ok ()), fun h => by simp at h⟩
  | cons h rest ih =>
    rw [handlers]
    by_cases hstart : IsStart m.code h.addr.toNat
    · rw [(handler_eq_ok_iff hrec.size_eq h).mpr ((hrec.isOpcode_iff _).mpr hstart)]
      simp only
      rw [ih]
      simp [hstart]
    · have hbad : handler m t h = refuse (.handlerAddress h.addr.toNat) := by
        rw [handler, if_pos]
        exact .inr ((hrec.not_isOpcode_iff _).mpr hstart)
      rw [hbad]
      exact failsWith_refused_iff.trans ⟨fun hk => ⟨⟨h, List.mem_cons_self, hstart⟩, hk⟩, And.right⟩

/-- The pass over the try blocks fails exactly with the faults of the exception table. -/
theorem failsWith_tries_iff (hrec : Recorded m.code t) :
    FailsWith (tries m t).1 k offset ↔ TableFault m k offset := by
  obtain ⟨-, hok, front, -, -, htable, -⟩ := markTries_spec hrec.size_eq 0 m.tries
  have hrec' : Recorded m.code (markTries m 0 m.tries t).2 := by
    rw [htable]
    exact hrec.of_sameWidths (FlagTable.SameWidths.markBlocks t front)
  rw [tries_eq hrec.size_eq]
  simp only
  rw [failsWith_bind_iff, failsWith_markTries_iff hrec]
  simp only [hok, hrec.goodTry_iff, failsWith_handlers_iff hrec']
  constructor
  · intro h
    rcases h with h | ⟨⟨⟩, htries, ⟨h, hmem, hno⟩, rfl, rfl⟩
    · exact .tryBlock h
    · obtain ⟨hs, hhs, hh⟩ := List.mem_flatten.mp hmem
      exact .handler htries ⟨hs, hhs, h, hh, hno⟩
  · intro h
    cases h with
    | tryBlock h => exact .inl h
    | handler htries h =>
      obtain ⟨hs, hhs, h, hh, hno⟩ := h
      exact .inr ⟨(), htries, ⟨h, List.mem_flatten.mpr ⟨hs, hhs, hh⟩, hno⟩, rfl, rfl⟩

end

end Check
end Dalvik
