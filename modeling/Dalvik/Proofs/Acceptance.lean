import Mathlib
import Dalvik.Proofs.Passes

/-!
# Acceptance

The pre-analysis accepts exactly the well-formed methods, whatever the settings.
-/

namespace Dalvik

open Layout

/-- How a pre-analysis ends, without its records. -/
theorem preAnalyze_result (config : Config) (m : Method) :
    (preAnalyze config m).result
      = match ((Pass.all m config.gcPoints).run (.blank m.code.size)).effect with
        | (.error h, _) => .error h
        | (.ok n, table) => .ok ⟨m, table, n⟩ := by
  rw [preAnalyze]
  cases (Pass.all m config.gcPoints).run (.blank m.code.size) with
  | mk result table records =>
    cases result with
    | error h => rfl
    | ok n => rfl

/-- A pre-analysis halts in the way its passes do. -/
theorem preAnalyze_of_error {config : Config} {m : Method} {h : Halt}
    (heffect : ((Pass.all m config.gcPoints).run (.blank m.code.size)).effect.1 = .error h) :
    (preAnalyze config m).result = .error h := by
  rw [preAnalyze_result]
  cases hrun : ((Pass.all m config.gcPoints).run (.blank m.code.size)).effect with
  | mk result table =>
    rw [hrun] at heffect
    cases heffect
    rfl

/-- A pre-analysis accepts a method with the table that its passes leave. -/
theorem preAnalyze_of_ok {config : Config} {m : Method} {n : ℕ} {table : FlagTable}
    (heffect : ((Pass.all m config.gcPoints).run (.blank m.code.size)).effect = (.ok n, table)) :
    (preAnalyze config m).result = .ok ⟨m, table, n⟩ := by
  rw [preAnalyze_result, heffect]

/-- A well-formed method is accepted. -/
theorem exists_preAnalyze_of_wellFormed {m : Method} (h : WellFormed m) (config : Config) :
    ∃ a, (preAnalyze config m).result = .ok a := by
  obtain ⟨t, targets, heffect, -⟩ := all_wellFormed h config.gcPoints
  exact ⟨_, preAnalyze_of_ok heffect⟩

/-- Any other method is refused with a cause. -/
theorem preAnalyze_of_not_wellFormed {m : Method} (h : ¬ WellFormed m) (config : Config) :
    ∃ offset cause, (preAnalyze config m).result = .error (.refused offset cause) := by
  obtain ⟨offset, cause, heffect⟩ := all_refused h config.gcPoints
  exact ⟨offset, cause, preAnalyze_of_error heffect⟩

/-- An accepted method is well formed. -/
theorem wellFormed_of_preAnalyze {config : Config} {m : Method} {a : Analysis}
    (h : (preAnalyze config m).result = .ok a) : WellFormed m := by
  by_contra hno
  obtain ⟨offset, cause, hrefused⟩ := preAnalyze_of_not_wellFormed hno config
  rw [hrefused] at h
  cases h

/-- The pre-analysis accepts a method if and only if it is well formed: its code is a
concatenation of instructions, its try blocks and handlers are aligned with them, and every
branch, switch and fill-array instruction is legal where it stands. -/
theorem preAnalyze_accepts_iff_wellFormed (config : Config) (m : Method) :
    (∃ a, (preAnalyze config m).result = .ok a) ↔ WellFormed m := by
  constructor
  · intro haccepted
    rcases haccepted with ⟨a, h⟩
    exact wellFormed_of_preAnalyze h
  · intro h
    exact exists_preAnalyze_of_wellFormed h config

end Dalvik
