import Mathlib
import Dalvik.Analysis
import Dalvik.Proofs.Walk

/-!
# Passes without their records

What a pass returns and what it writes to the table do not depend on what it logs. `effect` leaves
the records out, and a sequence of passes has the effects of its parts one after the other. The
pre-analysis accepts the well-formed methods and refuses all others with a cause: `all_wellFormed`
gives the table it builds, `all_refused` the failure.
-/

namespace Dalvik

/-! ## Effects -/

/-- The result of a pass and the table it leaves. -/
def Outcome.effect {α : Type} (o : Outcome α) : Check α × FlagTable := (o.result, o.table)

namespace Pass

/-- Goes on with the table and the value of a check that has passed. -/
def andThen {α β : Type} (x : Check α × FlagTable) (f : α → FlagTable → Check β × FlagTable) :
    Check β × FlagTable :=
  match x with
  | (.error h, t) => (.error h, t)
  | (.ok a, t) => f a t

theorem effect_ofCheck {α : Type} (m : Method) (check : FlagTable → Check α × FlagTable)
    (t : FlagTable) : ((ofCheck m check).run t).effect = check t := rfl

theorem effect_ofTable {α : Type} (op : FlagTable → Check α × FlagTable) (t : FlagTable) :
    ((ofTable op).run t).effect = op t := rfl

theorem effect_ofQuery {α : Type} (query : FlagTable → Check α) (t : FlagTable) :
    ((ofQuery query).run t).effect = (query t, t) := rfl

theorem effect_bind {α β : Type} (p : Pass α) (f : α → Pass β) (t : FlagTable) :
    ((p >>= f).run t).effect
      = andThen (p.run t).effect fun a t' => ((f a).run t').effect := by
  -- the records of the second pass come after those of the first
  show (Pass.bind p f t).effect = _
  rw [Pass.bind, Pass.run]
  cases p t with
  | mk result table records =>
    cases result with
    | error h => rfl
    | ok a => rfl

/-- A pass that halts is the end of a sequence. -/
theorem run_bind_error {α β : Type} {p : Pass α} {t t' : FlagTable} {h : Halt}
    {records : List Log.Record} (hp : p.run t = ⟨.error h, t', records⟩) (f : α → Pass β) :
    (p >>= f).run t = ⟨.error h, t', records⟩ := by
  change Pass.bind p f t = _
  change p t = _ at hp
  rw [Pass.bind, hp]

/-- The second pass runs on the table that the first one leaves, and its records come second. -/
theorem run_bind_ok {α β : Type} {p : Pass α} {t t' : FlagTable} {a : α}
    {records : List Log.Record} (hp : p.run t = ⟨.ok a, t', records⟩) (f : α → Pass β) :
    (p >>= f).run t
      = ⟨((f a).run t').result, ((f a).run t').table, records ++ ((f a).run t').records⟩ := by
  change Pass.bind p f t = _
  change p t = _ at hp
  rw [Pass.bind, hp]
  rfl

/-- A check that fails is the end. -/
theorem andThen_error {α β : Type} {x : Check α × FlagTable}
    {f : α → FlagTable → Check β × FlagTable} {h : Halt} (hx : x.1 = .error h) :
    (andThen x f).1 = .error h := by
  rcases x with ⟨result, t⟩
  cases hx
  rfl

/-- A record in the end changes nothing. -/
theorem andThen_ok {α : Type} (x : Check α × FlagTable) : (andThen x fun a t => (.ok a, t)) = x := by
  rcases x with ⟨_ | _, t⟩ <;> rfl

/-- The value that a pass returns in the end does not matter to the table. -/
theorem table_bind_pure {α β : Type} (p : Pass α) (f : α → β) (t : FlagTable) :
    ((p >>= fun a => pure (f a)).run t).table = (p.run t).effect.2 := by
  change ((p >>= fun a => pure (f a)).run t).effect.2 = _
  rw [effect_bind]
  rcases (p.run t).effect with ⟨_ | _, t'⟩ <;> rfl

theorem effect_widths (m : Method) (t : FlagTable) :
    ((Pass.widths m).run t).effect = Check.widths m t := by
  rw [Pass.widths, effect_bind, effect_ofCheck]
  exact andThen_ok _

theorem effect_tries (m : Method) (t : FlagTable) :
    ((Pass.tries m).run t).effect = Check.tries m t := by
  rw [Pass.tries, effect_bind, effect_ofCheck]
  exact andThen_ok _

/-! ## Effects of the loops -/

/-- What the body of a loop does at each offset, without its records. -/
def effects (body : ℕ → Pass Unit) (off : ℕ) (t : FlagTable) : Check Unit × FlagTable :=
  ((body off).run t).effect

/-- A loop has a property if it has it in each of its ends, and if it has it whenever it has it
after one more turn. -/
theorem walk_rule {limit : ℕ} {body : ℕ → Pass Unit}
    {P : ℕ → List Log.Record → FlagTable → Outcome Unit → Prop}
    (stop : ∀ off logged t, ¬ off < limit → P off logged t ⟨.ok (), t, logged⟩)
    (halt : ∀ off logged t h t' records, off < limit →
      (body off).run t = ⟨.error h, t', records⟩ → P off logged t ⟨.error h, t', logged ++ records⟩)
    (lost : ∀ off logged t t' records, off < limit → (body off).run t = ⟨.ok (), t', records⟩ →
      t'.words[off]? = none → P off logged t ⟨.error .outOfRange, t', logged ++ records⟩)
    (stalled : ∀ off logged t t' records w, off < limit →
      (body off).run t = ⟨.ok (), t', records⟩ → t'.words[off]? = some w → ¬ 0 < w.width →
      P off logged t ⟨.error .stalled, t', logged ++ records⟩)
    (turn : ∀ off logged t t' records w out, off < limit →
      (body off).run t = ⟨.ok (), t', records⟩ → t'.words[off]? = some w → 0 < w.width →
      P (off + w.width) (logged ++ records) t' out → P off logged t out)
    (off : ℕ) (logged : List Log.Record) (t : FlagTable) :
    P off logged t ((walk limit body off logged).run t) := by
  -- the units below the limit get fewer
  induction hn : limit - off using Nat.strong_induction_on generalizing off logged t with
  | _ n ih =>
    show P off logged t (walk limit body off logged t)
    rw [walk]
    by_cases hoff : off < limit
    · rw [if_pos hoff]
      cases hbody : body off t with
      | mk result t' records =>
        cases result with
        | error h => exact halt off logged t h t' records hoff hbody
        | ok u =>
          cases hword : t'.words[off]? with
          | none =>
            simp only [hword]
            exact lost off logged t t' records hoff hbody hword
          | some w =>
            by_cases hw : 0 < w.width
            · simp only [hword, hw, if_true]
              apply turn off logged t t' records w _ hoff hbody hword hw
              exact ih (limit - (off + w.width)) (by omega) _ _ _ rfl
            · simp only [hword, hw, if_false]
              exact stalled off logged t t' records w hoff hbody hword hw
    · rw [if_neg hoff]
      exact stop off logged t hoff

/-- Without its records, a loop is the walk with the effects of its body. -/
theorem effect_walk (limit : ℕ) (body : ℕ → Pass Unit) (off : ℕ) (logged : List Log.Record)
    (t : FlagTable) :
    ((walk limit body off logged).run t).effect = Check.walk limit (effects body) off t := by
  apply walk_rule (P := fun off _ t out => out.effect = Check.walk limit (effects body) off t)
  case stop =>
    intro off logged t hoff
    rw [Check.walk, if_neg hoff]
    rfl
  case halt =>
    intro off logged t h t' records hoff hbody
    simp [Check.walk, effects, Outcome.effect, hoff, hbody]
  case lost =>
    intro off logged t t' records hoff hbody hword
    simp [Check.walk, effects, Outcome.effect, hoff, hbody, hword]
  case stalled =>
    intro off logged t t' records w hoff hbody hword hw
    simp [Check.walk, effects, Outcome.effect, hoff, hbody, hword, hw]
  case turn =>
    intro off logged t t' records w out hoff hbody hword hw ih
    rw [ih, Check.walk.eq_1 _ _ off]
    simp [effects, Outcome.effect, hoff, hbody, hword, hw]

theorem effect_instruction (m : Method) (off : ℕ) (t : FlagTable) :
    ((instruction m off).run t).effect = Check.instruction m off t := by
  rw [instruction, effect_bind, effect_ofQuery, Check.instruction]
  cases Check.unit m.code off with
  | error h => rfl
  | ok u =>
    simp only [andThen]
    -- the same cases in the same order
    split_ifs <;> rfl

/-- Without their records, the passes of the loops are the two walks. -/
theorem effects_instruction (m : Method) : effects (instruction m) = Check.instruction m := by
  funext off t
  exact effect_instruction m off t

theorem effects_gcPoint (m : Method) : effects (gcPoint m) = Check.gcPoint m := rfl

theorem effect_each (m : Method) (body : ℕ → Pass Unit) (t : FlagTable) :
    ((each m body).run t).effect = Check.walk m.code.size (effects body) 0 t :=
  effect_walk m.code.size body 0 [] t

/-- All passes, one after the other. -/
theorem effect_all (m : Method) (gcPoints : Bool) (t : FlagTable) :
    ((Pass.all m gcPoints).run t).effect =
      andThen (Check.widths m t) fun n t =>
      andThen (Check.tries m t) fun _ t =>
      andThen (Check.markAll t .branchTarget [0]) fun _ t =>
      andThen (Check.walk m.code.size (Check.instruction m) 0 t) fun _ t =>
      andThen (if gcPoints then Check.walk m.code.size (Check.gcPoint m) 0 t else (.ok (), t))
        fun _ t => (.ok n, t) := by
  rw [Pass.all, effect_bind, effect_widths]
  congr 1
  funext n t
  rw [effect_bind, effect_tries]
  congr 1
  funext _ t
  rw [effect_bind, effect_ofTable]
  congr 1
  funext _ t
  rw [effect_bind, effect_each, effects_instruction]
  congr 1
  funext _ t
  cases gcPoints with
  | false => rfl
  | true =>
    simp only [if_true]
    rw [effect_bind, effect_each, effects_gcPoint]
    rfl

end Pass

/-! ## The pre-analysis of a method -/

section

open Layout Check Pass

/-- A scan of a blank table. -/
theorem widths_tiled {m : Method} (h : Tiled m.code) :
    ∃ t, Check.widths m (.blank m.code.size)
        = (.ok (allocations m.code (startsFrom m.code 0)), t) ∧
      Recorded m.code t ∧ ∀ i, t.wordAt i = FlagWord.zero.reset.setWidth (startWidth m.code i) := by
  obtain ⟨hne, hstop⟩ := (tiled_iff m.code).mp h
  have hsize : (FlagTable.blank m.code.size).size = m.code.size := FlagTable.size_blank _
  have hreset : (FlagTable.blank m.code.size).reset.size = m.code.size := by
    rwa [FlagTable.size_reset]
  refine ⟨(Check.widths m (.blank m.code.size)).2, ?_, recorded_widths hne hsize, fun i => ?_⟩
  · have hok := @scanFrom_ok m.code 0 0 _ hreset (Nat.zero_le _) hstop
    rw [Nat.zero_add] at hok
    rw [← hok, widths_eq hne hsize]
  · rw [wordAt_widths hne hsize, FlagTable.wordAt_blank]

/-- A scan of a code that is not tiled. -/
theorem widths_not_tiled {m : Method} (h : ¬ Tiled m.code) :
    ∃ offset cause, (Check.widths m (.blank m.code.size)).1 = .error (.refused offset cause) := by
  have hsize : (FlagTable.blank m.code.size).size = m.code.size := FlagTable.size_blank _
  by_cases hne : m.code.size = 0
  · obtain ⟨cause, hrefused⟩ := widths_refused (t := .blank m.code.size) (.inl hne)
    exact ⟨none, cause, by rw [hrefused]; rfl⟩
  · have hstop : stopFrom m.code 0 ≠ m.code.size := fun hstop =>
      h ((tiled_iff m.code).mpr ⟨hne, hstop⟩)
    have hreset : (FlagTable.blank m.code.size).reset.size = m.code.size := by
      rwa [FlagTable.size_reset]
    obtain ⟨cause, -, herror⟩ := @scanFrom_error m.code 0 0 _ hreset (Nat.zero_le _) hstop
    exact ⟨some (stopFrom m.code 0 : ℕ), cause, by rw [widths_eq hne hsize, herror]; rfl⟩

/-- The tries and handlers of a method pass on a table with its widths if and only if the layout
allows them. -/
theorem tries_ok_iff {m : Method} {t : FlagTable} (hrec : Recorded m.code t) :
    (Check.tries m t).1 = .ok () ↔
      (∀ b ∈ m.tries, 0 < b.count.toNat ∧ IsStart m.code b.start.toNat ∧
        (IsStart m.code (b.start.toNat + b.count.toNat) ∨
          b.start.toNat + b.count.toNat = m.code.size)) ∧
      ∀ hs ∈ m.allHandlers, ∀ h ∈ hs, IsStart m.code h.addr.toNat := by
  rw [tries_eq_ok_iff hrec.size_eq]
  simp only [hrec.goodTry_iff, hrec.isOpcode_iff]

/-- The entry of a method with units can be marked. -/
theorem markAll_entry {code : Code} {t : FlagTable} (hrec : Recorded code t) (hne : code.size ≠ 0) :
    Check.markAll t .branchTarget [0] = (.ok (), t.markEach .branchTarget [0]) := by
  apply markAll_eq
  rw [hrec.size_eq]
  simp only [List.mem_singleton, forall_eq]
  omega

/-- The collection points among the instructions, marked if they are asked for. -/
def withGcPoints (m : Method) (gcPoints : Bool) (t : FlagTable) : FlagTable :=
  if gcPoints then t.markEach .gcPoint ((startsFrom m.code 0).filter (collects m t)) else t

/-- The passes over a well-formed method succeed, and each of them writes its own bits. -/
theorem all_wellFormed {m : Method} (h : WellFormed m) (gcPoints : Bool) :
    ∃ (t : FlagTable) (targets : List ℕ), ((Pass.all m gcPoints).run (.blank m.code.size)).effect
        = (.ok (allocations m.code (startsFrom m.code 0)),
            withGcPoints m gcPoints ((t.markBlocks m.tries).markEach .branchTarget (0 :: targets))) ∧
      Recorded m.code t ∧
      (∀ i, t.wordAt i = FlagWord.zero.reset.setWidth (startWidth m.code i)) ∧
      ∀ a, a ∈ targets ↔ ∃ o ∈ startsFrom m.code 0, JumpsTo m.code o a := by
  obtain ⟨hne, hstop⟩ := (tiled_iff m.code).mp h.tiled
  obtain ⟨t, hwidths, hrec, hword⟩ := widths_tiled h.tiled
  -- try blocks
  have htries := (tries_ok_iff hrec).mpr ⟨h.tries, h.handlers⟩
  have htries' : Check.tries m t = (.ok (), t.markBlocks m.tries) := by
    rw [← htries, ← tries_table_of_ok hrec.size_eq htries]
  have hrec₁ := hrec.of_sameWidths (FlagTable.SameWidths.markBlocks t m.tries)
  -- the entry
  have hentry := markAll_entry hrec₁ hne
  have hrec₂ := hrec₁.of_sameWidths (FlagTable.SameWidths.markEach _ .branchTarget [0])
  -- the instructions
  have hlegal : ∀ o ∈ startsFrom m.code 0, LegalAt m.code o := fun o ho =>
    h.transfers o ((isStart_iff m.code o).mpr ho)
  obtain ⟨targets, hvisit, hmem⟩ := visit_instruction hrec₂ (fun o ho => ho) hlegal
  rw [← walk_eq_visit (sameWidths_instruction m) hrec₂ (fun o ho => ho) hstop, markEach_append,
    List.singleton_append] at hvisit
  have hrec₃ := hrec₁.of_sameWidths (FlagTable.SameWidths.markEach _ .branchTarget (0 :: targets))
  -- collection points
  have hgc : (if gcPoints then Check.walk m.code.size (Check.gcPoint m) 0
        ((t.markBlocks m.tries).markEach .branchTarget (0 :: targets))
      else (.ok (), (t.markBlocks m.tries).markEach .branchTarget (0 :: targets)))
      = (.ok (), withGcPoints m gcPoints
          ((t.markBlocks m.tries).markEach .branchTarget (0 :: targets))) := by
    rw [withGcPoints]
    cases gcPoints with
    | false => rfl
    | true =>
      simp only [if_true]
      rw [walk_eq_visit (sameWidths_gcPoint m) hrec₃ (fun o ho => ho) hstop,
        visit_gcPoint hrec₃.size_eq fun o ho => lt_size_of_mem_startsFrom ho]
  refine ⟨t, targets, ?_, hrec, hword, hmem⟩
  rw [effect_all, hwidths]
  simp only [andThen, htries', hentry, hvisit, hgc]

/-- The passes over any other method end with a cause. -/
theorem all_refused {m : Method} (h : ¬ WellFormed m) (gcPoints : Bool) :
    ∃ offset cause, ((Pass.all m gcPoints).run (.blank m.code.size)).effect.1
      = .error (.refused offset cause) := by
  rw [effect_all]
  by_cases htiled : Tiled m.code
  · obtain ⟨hne, hstop⟩ := (tiled_iff m.code).mp htiled
    obtain ⟨t, hwidths, hrec, -⟩ := widths_tiled htiled
    rw [hwidths, andThen]
    -- the tries are refused, or else an instruction is
    cases htries : (Check.tries m t).1 with
    | error halt =>
      obtain ⟨offset, cause, rfl⟩ := refuses_tries m t halt htries
      exact ⟨offset, cause, andThen_error htries⟩
    | ok u =>
      have hrec₁ := hrec.of_sameWidths (FlagTable.SameWidths.markBlocks t m.tries)
      have hrec₂ := hrec₁.of_sameWidths (FlagTable.SameWidths.markEach _ .branchTarget [0])
      have hillegal : ¬ ∀ o ∈ startsFrom m.code 0, LegalAt m.code o := by
        intro hlegal
        obtain ⟨hblocks, hhandlers⟩ := (tries_ok_iff hrec).mp htries
        exact h ⟨htiled, hblocks, hhandlers, fun o ho => hlegal o ((isStart_iff m.code o).mp ho)⟩
      have htable : Check.tries m t = (.ok u, t.markBlocks m.tries) := by
        rw [← htries, ← tries_table_of_ok hrec.size_eq htries]
      obtain ⟨offset, cause, hvisit⟩ :=
        visit_instruction_illegal hrec₂ (fun o ho => ho) hillegal
      rw [← walk_eq_visit (sameWidths_instruction m) hrec₂ (fun o ho => ho) hstop] at hvisit
      refine ⟨offset, cause, ?_⟩
      rw [htable, andThen, markAll_entry hrec₁ hne, andThen]
      exact andThen_error hvisit
  · obtain ⟨offset, cause, hwidths⟩ := widths_not_tiled htiled
    exact ⟨offset, cause, andThen_error hwidths⟩

end
end Dalvik
