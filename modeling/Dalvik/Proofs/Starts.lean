import Mathlib
import Dalvik.Proofs.Decode

/-!
# The decode in sequence

Steps in sequence give the starts of the instructions (`startsFrom`) and the offset at which the
decode comes to its end (`stopFrom`). These are the starts and the tiling that the layout speaks
of: `isStart_iff` and `tiled_iff`. All statements are by induction along the decode,
`decode_induction`.
-/

namespace Dalvik
namespace Layout

/-! ## Steps in sequence -/

/-- The offsets at which a sequential decode from `off` on finds instructions. -/
def startsFrom (code : Code) (off : ℕ) : List ℕ :=
  match h : Instruction.decode code off with
  | .error _ => []
  | .ok ins =>
    have := decode_lt_size h
    have := ins.width_pos
    off :: startsFrom code (off + ins.width)
termination_by code.size - off

/-- The offset at which a sequential decode from `off` on ends. -/
def stopFrom (code : Code) (off : ℕ) : ℕ :=
  match h : Instruction.decode code off with
  | .error _ => off
  | .ok ins =>
    have := decode_lt_size h
    have := ins.width_pos
    stopFrom code (off + ins.width)
termination_by code.size - off

theorem startsFrom_error {code : Code} {off : ℕ} {cause : Cause}
    (h : Instruction.decode code off = .error cause) : startsFrom code off = [] := by
  rw [startsFrom]
  split
  · rfl
  · rename_i hok
    rw [h] at hok
    cases hok

/-- A step that succeeds is a start, and the others lie behind it. -/
theorem startsFrom_ok {code : Code} {off : ℕ} {ins : Instruction}
    (h : Instruction.decode code off = .ok ins) :
    startsFrom code off = off :: startsFrom code (off + ins.width) := by
  rw [startsFrom]
  split
  · rename_i herr
    rw [h] at herr
    cases herr
  · rename_i ins' hok
    rw [h] at hok
    cases hok
    rfl

theorem stopFrom_error {code : Code} {off : ℕ} {cause : Cause}
    (h : Instruction.decode code off = .error cause) : stopFrom code off = off := by
  rw [stopFrom]
  split
  · rfl
  · rename_i hok
    rw [h] at hok
    cases hok

/-- A step that succeeds moves the stop on. -/
theorem stopFrom_ok {code : Code} {off : ℕ} {ins : Instruction}
    (h : Instruction.decode code off = .ok ins) :
    stopFrom code off = stopFrom code (off + ins.width) := by
  rw [stopFrom]
  split
  · rename_i herr
    rw [h] at herr
    cases herr
  · rename_i ins' hok
    rw [h] at hok
    cases hok
    rfl

/-- Induction along the decode: it has come to an end at `off`, or it takes a step. -/
theorem decode_induction (code : Code) {motive : ℕ → Prop}
    (stop : ∀ off cause, Instruction.decode code off = .error cause → motive off)
    (step : ∀ off ins, Instruction.decode code off = .ok ins →
      motive (off + ins.width) → motive off) (off : ℕ) : motive off := by
  induction hn : code.size - off using Nat.strong_induction_on generalizing off with
  | _ n ih =>
    cases hdec : Instruction.decode code off with
    | error cause => exact stop off cause hdec
    | ok ins =>
      have hlt := decode_lt_size hdec
      have hpos := ins.width_pos
      -- an instruction has a width, so fewer units are left
      exact step off ins hdec (ih (code.size - (off + ins.width)) (by omega) _ rfl)

theorem le_of_mem_startsFrom {code : Code} {off o : ℕ} (h : o ∈ startsFrom code off) :
    off ≤ o := by
  induction off using decode_induction code with
  | stop off cause hdec =>
    rw [startsFrom_error hdec] at h
    cases h
  | step off ins hdec ih =>
    rw [startsFrom_ok hdec, List.mem_cons] at h
    rcases h with rfl | h
    · exact le_refl _
    · have := ih h
      omega

/-- An instruction is decoded at every start. -/
theorem decode_of_mem_startsFrom {code : Code} {off o : ℕ} (h : o ∈ startsFrom code off) :
    ∃ ins, Instruction.decode code o = .ok ins := by
  induction off using decode_induction code with
  | stop off cause hdec =>
    rw [startsFrom_error hdec] at h
    cases h
  | step off ins hdec ih =>
    rw [startsFrom_ok hdec, List.mem_cons] at h
    rcases h with rfl | h
    · exact ⟨ins, hdec⟩
    · exact ih h

/-- No start lies strictly inside the instruction at another start. -/
theorem add_width_le_of_mem_startsFrom {code : Code} {off o o' : ℕ} {ins : Instruction}
    (ho : o ∈ startsFrom code off) (ho' : o' ∈ startsFrom code off) (hlt : o < o')
    (hins : Instruction.decode code o = .ok ins) : o + ins.width ≤ o' := by
  induction off using decode_induction code with
  | stop off cause hdec =>
    rw [startsFrom_error hdec] at ho
    cases ho
  | step off first hdec ih =>
    rw [startsFrom_ok hdec, List.mem_cons] at ho ho'
    rcases ho' with rfl | ho'
    · -- nothing comes before the first start
      rcases ho with rfl | ho
      · omega
      · have := le_of_mem_startsFrom ho
        omega
    · rcases ho with rfl | ho
      · rw [hdec] at hins
        cases hins
        exact le_of_mem_startsFrom ho'
      · exact ih ho ho'

/-- The starts ascend. -/
theorem startsFrom_pairwise (code : Code) (off : ℕ) :
    (startsFrom code off).Pairwise (· < ·) := by
  induction off using decode_induction code with
  | stop off cause hdec =>
    rw [startsFrom_error hdec]
    exact List.Pairwise.nil
  | step off ins hdec ih =>
    rw [startsFrom_ok hdec, List.pairwise_cons]
    refine ⟨fun o ho => ?_, ih⟩
    have hle := le_of_mem_startsFrom ho
    have hpos := ins.width_pos
    omega

/-! ## The starts and the tiling of the layout -/

theorem append_prefix_iff {α : Type} (front p l : List α) :
    front ++ p <+: l ↔ front <+: l ∧ p <+: l.drop front.length := by
  constructor
  · intro hprefix
    rcases hprefix with ⟨rest, rfl⟩
    rw [List.append_assoc, List.drop_left]
    exact ⟨List.prefix_append _ _, List.prefix_append _ _⟩
  · intro hsplit
    rcases hsplit with ⟨⟨rest, rfl⟩, h⟩
    rw [List.drop_left] at h
    exact (List.prefix_append_right_inj front).mpr h

/-- The starts from `off` on, in the terms of the layout. -/
theorem mem_startsFrom_iff (code : Code) (off o : ℕ) :
    o ∈ startsFrom code off ↔
      ∃ (front : List (List UInt16)) (p : List UInt16),
        front.flatten ++ p <+: code.toList.drop off ∧ (∀ q ∈ front, IsInstruction q) ∧
          IsInstruction p ∧ off + front.flatten.length = o := by
  constructor
  · intro h
    -- along the decode: each instruction in front of `o` is one step
    induction off using decode_induction code with
    | stop off cause hdec =>
      rw [startsFrom_error hdec] at h
      cases h
    | step off ins hdec ih =>
      obtain ⟨q, hq, hpre, hlen⟩ := prefix_of_decode hdec
      rw [startsFrom_ok hdec, List.mem_cons] at h
      rcases h with rfl | h
      · exact ⟨[], q, hpre, by simp, hq, rfl⟩
      · obtain ⟨front, p, hfront, hall, hp, ho⟩ := ih h
        refine ⟨q :: front, p, ?_, ?_, hp, ?_⟩
        · rw [List.flatten_cons, List.append_assoc, append_prefix_iff, List.drop_drop, hlen]
          exact ⟨hpre, hfront⟩
        · intro q' hq'
          rcases List.mem_cons.mp hq' with rfl | hq'
          · exact hq
          · exact hall q' hq'
        · rw [List.flatten_cons, List.length_append]
          omega
  · intro hfront
    rcases hfront with ⟨front, p, hpre, hall, hp, ho⟩
    -- along the instructions in front: each of them is decoded
    induction front generalizing off with
    | nil =>
      obtain ⟨ins, hdec, -⟩ := decode_of_prefix hp hpre
      rw [startsFrom_ok hdec, ← ho]
      exact List.mem_cons_self
    | cons q front ih =>
      rw [List.flatten_cons, List.append_assoc, append_prefix_iff, List.drop_drop] at hpre
      obtain ⟨ins, hdec, hwidth⟩ := decode_of_prefix (hall q List.mem_cons_self) hpre.1
      rw [startsFrom_ok hdec, hwidth]
      refine List.mem_cons_of_mem _ (ih _ hpre.2 ?_ ?_)
      · intro q' hq'
        exact hall q' (List.mem_cons_of_mem q hq')
      · rw [List.flatten_cons, List.length_append] at ho
        omega

/-- The instruction starts of the layout are those of the decode. -/
theorem isStart_iff (code : Code) (o : ℕ) : IsStart code o ↔ o ∈ startsFrom code 0 := by
  rw [mem_startsFrom_iff, List.drop_zero]
  constructor
  · intro h
    rcases h with ⟨p, front, hpre, hall, hp, ho⟩
    exact ⟨front, p, hpre, hall, hp, by omega⟩
  · intro h
    rcases h with ⟨front, p, hpre, hall, hp, ho⟩
    exact ⟨p, front, hpre, hall, hp, by omega⟩

/-- The units of the instruction at a start are as many as the decode finds there. -/
theorem InstructionAt.decode {code : Code} {o : ℕ} {p : List UInt16} (h : InstructionAt code o p) :
    p <+: code.toList.drop o ∧ ∃ ins, Instruction.decode code o = .ok ins ∧ ins.width = p.length := by
  obtain ⟨front, hpre, -, hp, rfl⟩ := h
  have hdrop := ((append_prefix_iff _ _ _).mp hpre).2
  exact ⟨hdrop, decode_of_prefix hp hdrop⟩

/-- The whole rest of the code is a concatenation of instructions if and only if the decode ends
at the end of the code. -/
theorem exists_parts_iff {code : Code} {off : ℕ} (hoff : off ≤ code.size) :
    (∃ parts : List (List UInt16), code.toList.drop off = parts.flatten ∧
        ∀ p ∈ parts, IsInstruction p) ↔ stopFrom code off = code.size := by
  constructor
  · intro h
    rcases h with ⟨parts, hparts, hall⟩
    induction parts generalizing off with
    | nil =>
      have hlen := length_drop_toList code off
      rw [hparts, List.flatten_nil, List.length_nil] at hlen
      -- no units are left, so no step can be taken
      cases hdec : Instruction.decode code off with
      | error cause =>
        rw [stopFrom_error hdec]
        omega
      | ok ins =>
        have := decode_lt_size hdec
        omega
    | cons p parts ih =>
      rw [List.flatten_cons] at hparts
      obtain ⟨ins, hdec, hwidth⟩ := decode_of_prefix (hall p List.mem_cons_self)
        (by rw [hparts]; exact List.prefix_append _ _)
      have hle := decode_le_size hdec
      rw [stopFrom_ok hdec]
      refine ih hle ?_ fun q hq => hall q (List.mem_cons_of_mem p hq)
      rw [← List.drop_drop, hparts, hwidth, List.drop_left]
  · intro hstop
    induction off using decode_induction code with
    | stop off cause hdec =>
      -- nothing is left, and the empty series has no instruction
      rw [stopFrom_error hdec] at hstop
      refine ⟨[], ?_, by simp⟩
      rw [hstop, ← Array.length_toList, List.drop_length, List.flatten_nil]
    | step off ins hdec ih =>
      rw [stopFrom_ok hdec] at hstop
      obtain ⟨parts, hparts, hall⟩ := ih (decode_le_size hdec) hstop
      obtain ⟨p, hp, ⟨rest, hrest⟩, hlen⟩ := prefix_of_decode hdec
      refine ⟨p :: parts, ?_, ?_⟩
      · rw [← List.drop_drop, ← hrest, ← hlen, List.drop_left] at hparts
        rw [List.flatten_cons, ← hparts, hrest]
      · intro q hq
        rcases List.mem_cons.mp hq with rfl | hq
        · exact hp
        · exact hall q hq

/-- A code is tiled if and only if it has units and the decode comes to its end. -/
theorem tiled_iff (code : Code) : Tiled code ↔ code.size ≠ 0 ∧ stopFrom code 0 = code.size := by
  rw [← exists_parts_iff (Nat.zero_le _), List.drop_zero]
  constructor
  · intro h
    rcases h with ⟨parts, hne, hparts, hall⟩
    refine ⟨?_, parts, hparts, hall⟩
    -- a part has units, and so has the code
    obtain ⟨p, rest, rfl⟩ := List.exists_cons_of_ne_nil hne
    have hpos := (hall p List.mem_cons_self).length_pos
    rw [← Array.length_toList, hparts, List.flatten_cons, List.length_append]
    omega
  · intro h
    rcases h with ⟨hsize, parts, hparts, hall⟩
    refine ⟨parts, ?_, hparts, hall⟩
    rintro rfl
    rw [← Array.length_toList, hparts] at hsize
    exact hsize rfl

/-! ## Widths -/

/-- The width of the instruction that starts at `o`, zero if none does. -/
def startWidth (code : Code) (o : ℕ) : ℕ :=
  if o ∈ startsFrom code 0 then
    match Instruction.decode code o with
    | .ok ins => ins.width
    | .error _ => 0
  else 0

theorem startWidth_eq {code : Code} {o : ℕ} {ins : Instruction} (ho : o ∈ startsFrom code 0)
    (hins : Instruction.decode code o = .ok ins) : startWidth code o = ins.width := by
  rw [startWidth, if_pos ho, hins]

/-- The starts are the offsets with a width. -/
theorem startWidth_pos_iff (code : Code) (o : ℕ) :
    0 < startWidth code o ↔ o ∈ startsFrom code 0 := by
  constructor
  · intro h
    by_contra hno
    rw [startWidth, if_neg hno] at h
    exact absurd h (lt_irrefl 0)
  · intro h
    obtain ⟨ins, hins⟩ := decode_of_mem_startsFrom h
    rw [startWidth_eq h hins]
    exact ins.width_pos

theorem startWidth_of_instructionAt {code : Code} {o : ℕ} {p : List UInt16}
    (h : InstructionAt code o p) : startWidth code o = p.length := by
  obtain ⟨-, ins, hins, hwidth⟩ := h.decode
  rw [startWidth_eq ((isStart_iff code o).mp ⟨p, h⟩) hins, hwidth]

/-- An instruction ends inside the code. -/
theorem add_startWidth_le {code : Code} {o : ℕ} (h : o ∈ startsFrom code 0) :
    o + startWidth code o ≤ code.size := by
  obtain ⟨ins, hins⟩ := decode_of_mem_startsFrom h
  rw [startWidth_eq h hins]
  exact decode_le_size hins

/-- An instruction ends before the next one starts. -/
theorem add_startWidth_le_of_lt {code : Code} {o o' : ℕ} (ho : o ∈ startsFrom code 0)
    (ho' : o' ∈ startsFrom code 0) (hlt : o < o') : o + startWidth code o ≤ o' := by
  obtain ⟨ins, hins⟩ := decode_of_mem_startsFrom ho
  rw [startWidth_eq ho hins]
  exact add_width_le_of_mem_startsFrom ho ho' hlt hins

/-- An instruction at a payload signature is a table, and its width is the table's extent. -/
theorem startWidth_eq_extentAt {code : Code} {o : ℕ} {kind : PayloadKind}
    (ho : o ∈ startsFrom code 0) (hkind : rawAt code o = kind.signature) :
    startWidth code o = extentAt code kind o := by
  obtain ⟨ins, hins⟩ := decode_of_mem_startsFrom ho
  rw [startWidth_eq ho hins]
  have hsome := (ofUnit?_eq_some_iff _ kind).mpr hkind
  -- the signature tells the kind of the table
  obtain ⟨-, ⟨hnone, -⟩ | ⟨kind', hkind', hext, -⟩⟩ := decode_cases hins
  · rw [hsome] at hnone
    cases hnone
  · have hsome' := (ofUnit?_eq_some_iff _ kind').mpr hkind'
    rw [hsome] at hsome'
    cases hsome'
    exact hext

end Layout
end Dalvik
