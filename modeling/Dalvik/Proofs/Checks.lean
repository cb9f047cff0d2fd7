import Mathlib
import Dalvik.Check.Branch
import Dalvik.Check.Tables
import Dalvik.Check.Tries
import Dalvik.Proofs.Scan

/-!
# Checks in general

How a check is opened step by step (`bind_eq_ok`), what its elementary reads give inside the code
and the table, and `Refuses`: a check that fails does so with a cause, never by looking at a unit
that does not exist. `Confined` says in addition where it fails and with which kinds of causes.
-/

namespace Dalvik
namespace Check

/-- A sequence of checks passes if each of them does. -/
theorem bind_eq_ok {α β : Type} {x : Check α} {f : α → Check β} {b : β} :
    (x >>= f) = .ok b ↔ ∃ a, x = .ok a ∧ f a = .ok b := by
  constructor
  · intro hb
    cases x with
    | error h => cases hb
    | ok a => exact ⟨a, rfl, hb⟩
  · intro hsteps
    rcases hsteps with ⟨a, rfl, hb⟩
    exact hb

/-- A mapped check passes if and only if the check does, and the value is mapped. -/
theorem map_eq_ok {α β : Type} {x : Check α} {f : α → β} {b : β} :
    x.map f = .ok b ↔ ∃ a, x = .ok a ∧ f a = b := by
  constructor
  · intro hb
    cases x with
    | error h => cases hb
    | ok a => exact ⟨a, rfl, Except.ok.inj hb⟩
  · intro hsteps
    rcases hsteps with ⟨a, rfl, rfl⟩
    rfl

/-- A condition that is refused, and else the rest of a check. -/
theorem guard_eq_ok_iff {β : Type} {c : Prop} [Decidable c] {off : Int} {cause : Cause}
    {x : Check β} {b : β} : (if c then refuseAt off cause else x) = .ok b ↔ ¬ c ∧ x = .ok b := by
  by_cases hc : c
  · rw [if_pos hc]
    exact ⟨fun hb => absurd hb (by rintro ⟨⟩), fun hb => absurd hc hb.1⟩
  · rw [if_neg hc]
    exact ⟨fun hb => ⟨hc, hb⟩, fun hb => hb.2⟩

/-- A condition that is refused before the rest of a sequence. -/
theorem guard_bind_eq_ok_iff {β : Type} {c : Prop} [Decidable c] {off : Int} {cause : Cause}
    {f : Unit → Check β} {b : β} :
    (if c then (refuseAt off cause : Check Unit) >>= f else f ()) = .ok b ↔
      ¬ c ∧ f () = .ok b :=
  guard_eq_ok_iff

theorem ok_bind {α β : Type} (a : α) (f : α → Check β) : (Except.ok a : Check α) >>= f = f a := rfl

/-! ## Checks that only refuse -/

/-- A failure of the check has a cause. -/
def Refuses {α : Type} (c : Check α) : Prop :=
  ∀ h, c = .error h → ∃ offset cause, h = .refused offset cause

theorem Refuses.ok {α : Type} (a : α) : Refuses (.ok a : Check α) := by
  intro h hc
  cases hc

theorem Refuses.refuse {α : Type} (cause : Cause) : Refuses (refuse cause : Check α) := by
  intro h hc
  cases hc
  exact ⟨none, cause, rfl⟩

theorem Refuses.refuseAt {α : Type} (off : Int) (cause : Cause) :
    Refuses (refuseAt off cause : Check α) := by
  intro h hc
  cases hc
  exact ⟨some off, cause, rfl⟩

/-- Two checks in sequence halt with a cause if each of them does; the second may rely on what the
first one found. -/
theorem Refuses.bind {α β : Type} {x : Check α} {f : α → Check β} (hx : Refuses x)
    (hf : ∀ a, x = .ok a → Refuses (f a)) : Refuses (x >>= f) := by
  cases x with
  | error h => exact fun h' hc => hx h' (by cases hc; rfl)
  | ok a => exact hf a rfl

theorem Refuses.map {α β : Type} {x : Check α} (hx : Refuses x) (f : α → β) : Refuses (x.map f) := by
  cases x with
  | error h => exact fun h' hc => hx h' (by cases hc; rfl)
  | ok a => exact Refuses.ok _

theorem Refuses.ite {α : Type} {p : Prop} [Decidable p] {x y : Check α} (hx : p → Refuses x)
    (hy : ¬ p → Refuses y) : Refuses (if p then x else y) := by
  split
  · exact hx (by assumption)
  · exact hy (by assumption)

theorem Refuses.guard {β : Type} {c : Prop} [Decidable c] {off : Int} {cause : Cause}
    {f : Unit → Check β} (hf : ¬ c → Refuses (f ())) :
    Refuses (if c then (Check.refuseAt off cause : Check Unit) >>= f else f ()) :=
  Refuses.ite (fun _ => (Refuses.refuseAt off cause).bind fun _ hok => by cases hok) hf

/-! ## Checks that refuse at one offset -/

/-- A failure of the check is refused at `off`, for one of the kinds. -/
def Confined {α : Type} (off : Int) (kinds : List FaultKind) (c : Check α) : Prop :=
  ∀ h, c = .error h → ∃ cause, h = .refused (some off) cause ∧ cause.kind ∈ kinds

namespace Confined

variable {α β : Type} {off : Int} {kinds : List FaultKind}

/-- A confined check never halts without a cause. -/
theorem refuses {c : Check α} (hc : Confined off kinds c) : Refuses c := by
  intro h herror
  obtain ⟨cause, rfl, -⟩ := hc h herror
  exact ⟨some off, cause, rfl⟩

theorem mono {kinds' : List FaultKind} {c : Check α} (hc : Confined off kinds c)
    (hsub : kinds ⊆ kinds') : Confined off kinds' c := by
  intro h herror
  obtain ⟨cause, rfl, hkind⟩ := hc h herror
  exact ⟨cause, rfl, hsub hkind⟩

theorem ok (a : α) : Confined off kinds (.ok a : Check α) := by
  intro h hc
  cases hc

theorem refuseAt {cause : Cause} (hkind : cause.kind ∈ kinds) :
    Confined off kinds (Check.refuseAt off cause : Check α) := by
  intro h hc
  cases hc
  exact ⟨cause, rfl, hkind⟩

/-- Two checks in sequence are confined if each of them is; the second may rely on what the first
one found. -/
theorem bind {x : Check α} {f : α → Check β} (hx : Confined off kinds x)
    (hf : ∀ a, x = .ok a → Confined off kinds (f a)) : Confined off kinds (x >>= f) := by
  cases x with
  | error h => exact fun h' hc => hx h' (by cases hc; rfl)
  | ok a => exact hf a rfl

theorem map {x : Check α} (hx : Confined off kinds x) (f : α → β) :
    Confined off kinds (x.map f) := by
  cases x with
  | error h => exact fun h' hc => hx h' (by cases hc; rfl)
  | ok a => exact Confined.ok _

theorem ite {p : Prop} [Decidable p] {x y : Check α} (hx : p → Confined off kinds x)
    (hy : ¬ p → Confined off kinds y) : Confined off kinds (if p then x else y) := by
  split
  · exact hx (by assumption)
  · exact hy (by assumption)

theorem guard {c : Prop} [Decidable c] {cause : Cause} {f : Unit → Check β}
    (hkind : cause.kind ∈ kinds) (hf : ¬ c → Confined off kinds (f ())) :
    Confined off kinds (if c then (Check.refuseAt off cause : Check Unit) >>= f else f ()) :=
  Confined.ite (fun _ => (Confined.refuseAt hkind).bind fun _ hok => by cases hok) hf

end Confined

/-! ## Elementary reads -/

section
open Layout

/-- Inside the code, a read gives the unit. -/
theorem unit_eq {code : Code} {i : ℕ} (h : i < code.size) : unit code i = .ok (rawAt code i) := by
  rw [unit, getElem?_code h]

/-- Inside the code, a read of two units gives the signed number in them. -/
theorem signedPair_eq {code : Code} {i : ℕ} (h : i + 1 < code.size) :
    signedPair code i = .ok (signedAt code i) := by
  rw [signedPair, signedPair?_eq h]

/-- Inside the table, a read gives the word. -/
theorem word_eq {t : FlagTable} {i : ℕ} (h : i < t.size) : word t i = .ok (t.wordAt i) := by
  rw [word, FlagTable.getElem?_words h]

end

/-- The first test of every check passes on tables of the right size. -/
theorem covered_eq_ok_iff (m : Method) (t : FlagTable) :
    covered m t = .ok () ↔ t.size = m.code.size := by
  unfold covered FlagTable.covers
  split
  · rename_i h
    exact ⟨fun _ => beq_iff_eq.mp h, fun _ => rfl⟩
  · rename_i h
    exact ⟨fun hc => absurd hc (by rintro ⟨⟩), fun hs => absurd (beq_iff_eq.mpr hs) h⟩

theorem refuses_covered (m : Method) (t : FlagTable) : Refuses (covered m t) :=
  Refuses.ite (fun _ => Refuses.ok ()) fun _ => Refuses.refuse _

/-- The second test of every check passes at the opcodes of the table. -/
theorem instructionAt_eq_ok_iff (t : FlagTable) (query : Query) (off : Int) :
    instructionAt t query off = .ok () ↔ t.isOpcode off = true := by
  unfold instructionAt
  split
  · rename_i h
    exact ⟨fun _ => h, fun _ => rfl⟩
  · rename_i h
    exact ⟨fun hc => absurd hc (by rintro ⟨⟩), fun hs => absurd hs h⟩

theorem refuses_instructionAt (t : FlagTable) (query : Query) (off : Int) :
    Refuses (instructionAt t query off) :=
  Refuses.ite (fun _ => Refuses.ok ()) fun _ => Refuses.refuse _

/-- An opcode of the table stands at a natural offset inside the table. -/
theorem exists_of_isOpcode {t : FlagTable} {off : Int} (h : t.isOpcode off = true) :
    ∃ i : ℕ, off = i ∧ i < t.size ∧ 0 < (t.wordAt i).width := by
  cases off with
  | ofNat i =>
    have hpos := (FlagTable.isOpcode_iff t i).mp h
    exact ⟨i, rfl, FlagTable.lt_size_of_width_pos hpos, hpos⟩
  | negSucc n => cases h

/-! ## Tables with the same widths -/

section

variable {t t' : FlagTable}

/-- Marks do not change the first test. -/
theorem covered_eq_of_sameWidths (hw : t.SameWidths t') (m : Method) :
    covered m t = covered m t' := by
  rw [covered, covered, FlagTable.covers, FlagTable.covers, hw.size_eq]

/-- Marks do not change the second test. -/
theorem instructionAt_eq_of_sameWidths (hw : t.SameWidths t') (query : Query) (off : Int) :
    instructionAt t query off = instructionAt t' query off := by
  rw [instructionAt, instructionAt, hw.isOpcode_eq]

/-- Two tables with the same widths have the same width at `i`, or no word there. -/
theorem word_cases_of_sameWidths (hw : t.SameWidths t') (i : ℕ) :
    (∃ w w', word t i = .ok w ∧ word t' i = .ok w' ∧ w.width = w'.width) ∨
      ∃ h, word t i = .error h ∧ word t' i = .error h := by
  by_cases hlt : i < t.size
  · exact .inl ⟨_, _, word_eq hlt, word_eq (hw.size_eq ▸ hlt), hw.width_eq i⟩
  · have hge : t.words.size ≤ i := Nat.not_lt.mp hlt
    have hge' : t'.words.size ≤ i := hw.size_eq.symm.trans_le hge
    exact .inr ⟨.outOfRange, by rw [word, Array.getElem?_eq_none hge],
      by rw [word, Array.getElem?_eq_none hge']⟩

end

/-! ## Targets -/

/-- Offsets are numbers of 32 bits. -/
theorem fitsOffset_iff (v : Int) : fitsOffset v = true ↔ -2147483648 ≤ v ∧ v ≤ 2147483647 := by
  rw [fitsOffset, Bool.and_eq_true, decide_eq_true_eq, decide_eq_true_eq]
  omega

/-- The address `a` is that of the opcode `target` of the table, in the range of 32-bit
offsets. -/
structure Lands (t : FlagTable) (a : ℤ) (target : ℕ) : Prop where
  eq : (target : ℤ) = a
  le : target ≤ 2147483647
  isOpcode : t.isOpcode target = true

/-- The test that branches and cases put their targets to. -/
theorem landing_eq_ok_iff {m : Method} {t : FlagTable} (hsize : t.size = m.code.size) (off a : ℤ)
    (overflow illegal : Cause) (target : ℕ) :
    (if !fitsOffset a then refuseAt off overflow
      else if a < 0 ∨ (m.code.size : Int) ≤ a ∨ !t.isOpcode a then refuseAt off illegal
      else (.ok a.toNat : Check ℕ)) = .ok target ↔ Lands t a target := by
  rw [guard_eq_ok_iff, guard_eq_ok_iff, Except.ok.injEq]
  constructor
  · intro h
    rcases h with ⟨hfits, hlegal, rfl⟩
    push Not at hlegal
    obtain ⟨hnonneg, -, hop⟩ := hlegal
    have hrange := (fitsOffset_iff a).mp (by simpa using hfits)
    have hcast : ((a.toNat : ℕ) : ℤ) = a := Int.toNat_of_nonneg hnonneg
    refine ⟨hcast, by omega, ?_⟩
    rw [hcast]
    simpa using hop
  · intro h
    rcases h with ⟨rfl, hle, hop⟩
    -- an opcode lies inside the table, and so inside the code
    have hlt := FlagTable.lt_size_of_isOpcode hop
    refine ⟨?_, ?_, Int.toNat_natCast target⟩
    · rw [(fitsOffset_iff _).mpr (by omega)]
      simp
    · intro h
      rcases h with hneg | hge | hno
      · omega
      · omega
      · rw [hop] at hno
        cases hno

/-- Addresses inside the table can be marked. -/
theorem markAll_eq {t : FlagTable} {m : Mark} {addrs : List ℕ} (h : ∀ a ∈ addrs, a < t.size) :
    markAll t m addrs = (.ok (), t.markEach m addrs) := by
  rw [markAll, if_pos (by rw [List.all_eq_true]; simpa using h), FlagTable.markEach]

end Check
end Dalvik
