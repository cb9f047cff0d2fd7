import Mathlib
import Dalvik.Proofs.FlagValues
import Dalvik.Proofs.TableInvariant

/-!
# Passes in any order

The passes other than the width scan read nothing of the table but its widths, and all they do to
it is to set marks. So what a pass answers, what it logs and which marks it sets are the same on
all tables with the same widths (`Pass.Steady`), also when it fails half way. A series of such
passes then gives every one of them the reply that it would get alone, and ends in the table with
the marks of all of them (`Step.run_steady`). The order does not matter, and neither does a second
round (`orderFree_steps`).
-/

namespace Dalvik

open Check
open Log (Record)

namespace FlagTable

/-- Tables of one size with the same words are the same table. -/
theorem ext_wordAt {t t' : FlagTable} (hsize : t.size = t'.size)
    (h : ∀ i, t.wordAt i = t'.wordAt i) : t = t' := by
  have hwords : t.words = t'.words := by
    apply Array.ext hsize
    intro i hi hi'
    have hi₁ := getElem?_words (t := t) hi
    have hi₂ := getElem?_words (t := t') hi'
    rw [Array.getElem?_eq_getElem hi] at hi₁
    rw [Array.getElem?_eq_getElem hi'] at hi₂
    rw [Option.some.inj hi₁, Option.some.inj hi₂, h i]
  cases t
  cases t'
  cases hwords
  rfl

/-! ## Several marks -/

/-- The table with every listed mark at its address. -/
def stamp (t : FlagTable) (marks : List (Mark × ℕ)) : FlagTable :=
  marks.foldl (fun t p => t.mark p.1 p.2) t

theorem stamp_nil (t : FlagTable) : t.stamp [] = t := rfl

/-- Marks are put on one after the other. -/
theorem stamp_append (t : FlagTable) (marks marks' : List (Mark × ℕ)) :
    t.stamp (marks ++ marks') = (t.stamp marks).stamp marks' :=
  List.foldl_append

theorem size_stamp (t : FlagTable) (marks : List (Mark × ℕ)) : (t.stamp marks).size = t.size := by
  induction marks generalizing t with
  | nil => rfl
  | cons p marks ih => exact (ih _).trans (size_mark t p.1 p.2)

/-- Marks leave the widths alone. -/
theorem SameWidths.stamp (t : FlagTable) (marks : List (Mark × ℕ)) :
    SameWidths t (t.stamp marks) := by
  induction marks generalizing t with
  | nil => exact SameWidths.refl t
  | cons p marks ih => exact (SameWidths.markEach t p.1 [p.2]).trans (ih _)

/-- A bit of a stamped table is set by one of the marks, or it was set before. -/
theorem getLsbD_stamp (t : FlagTable) (marks : List (Mark × ℕ)) (o i : ℕ) :
    ((t.stamp marks).wordAt o).bits.getLsbD i = true ↔
      (∃ k : Mark, i = k.bit ∧ (k, o) ∈ marks ∧ o < t.size) ∨
        (t.wordAt o).bits.getLsbD i = true := by
  induction marks generalizing t with
  | nil => simp [stamp_nil]
  | cons p marks ih =>
    have hfirst := getLsbD_markEach t p.1 [p.2] o i
    change ((t.mark p.1 p.2).wordAt o).bits.getLsbD i = true ↔ _ at hfirst
    change (((t.mark p.1 p.2).stamp marks).wordAt o).bits.getLsbD i = true ↔ _
    rw [ih, hfirst, size_mark, ← or_assoc]
    refine or_congr_left ⟨?_, ?_⟩
    · rintro (⟨k, hk, hmem, ho⟩ | ⟨hi, hmem, ho⟩)
      · exact ⟨k, hk, List.mem_cons_of_mem p hmem, ho⟩
      · rw [List.mem_singleton] at hmem
        exact ⟨p.1, hi, by rw [hmem]; exact List.mem_cons_self, ho⟩
    · rintro ⟨k, hk, hmem, ho⟩
      rcases List.mem_cons.mp hmem with heq | hmem
      · cases heq
        exact .inr ⟨hk, List.mem_singleton_self _, ho⟩
      · exact .inl ⟨k, hk, hmem, ho⟩

/-- Only the set of the marks matters, not their order and number. -/
theorem stamp_congr (t : FlagTable) {marks marks' : List (Mark × ℕ)}
    (h : ∀ p, p ∈ marks ↔ p ∈ marks') : t.stamp marks = t.stamp marks' := by
  apply ext_wordAt
  · rw [size_stamp, size_stamp]
  · intro o
    apply FlagWord.ext_bits
    intro i
    rw [Bool.eq_iff_iff, getLsbD_stamp, getLsbD_stamp]
    simp only [h]

/-- Marking addresses is a series of marks. -/
theorem markEach_eq_stamp (t : FlagTable) (k : Mark) (addrs : List ℕ) :
    t.markEach k addrs = t.stamp (addrs.map (k, ·)) := by
  rw [markEach, stamp, List.foldl_map]

/-- Marking a range is a series of marks. -/
theorem markRange_eq_stamp (t : FlagTable) (k : Mark) (i n : ℕ) :
    t.markRange k i n = t.stamp ((List.range' i n).map (k, ·)) := by
  induction n generalizing t i with
  | zero => rfl
  | succ n ih => exact ih (t.mark k i) (i + 1)

end FlagTable

/-! ## Marks of single checks -/

namespace Check

/-- The marks of a try block. -/
def blockMarks (b : TryBlock) : List (Mark × ℕ) :=
  (List.range' b.start.toNat b.count.toNat).map (Mark.inTry, ·)

/-- The blocks in front of the first bad one. -/
def goodFront (m : Method) (t : FlagTable) : ℕ → List TryBlock → List TryBlock
  | _, [] => []
  | index, b :: rest =>
    match tryBounds m t index b with
    | .error _ => []
    | .ok () => b :: goodFront m t (index + 1) rest

/-- The marks that the pass over the try blocks sets. -/
def tryMarks (m : Method) (t : FlagTable) : List (Mark × ℕ) :=
  if t.size = m.code.size then (goodFront m t 0 m.tries).flatMap blockMarks else []

/-- The marks that the targets of a transfer get; a check that fails sets none. -/
def targetMarks : Check (List ℕ) → List (Mark × ℕ)
  | .error _ => []
  | .ok targets => targets.map (Mark.branchTarget, ·)

section

variable {m : Method} {t t' : FlagTable}

/-- Only the widths matter to the bounds of a try block. -/
theorem tryBounds_eq_of_sameWidths (hw : t.SameWidths t') (index : ℕ) (b : TryBlock) :
    tryBounds m t index b = tryBounds m t' index b := by
  simp only [tryBounds, hw.isOpcode_eq]

/-- Only the widths matter to handlers. -/
theorem handlers_eq_of_sameWidths (hw : t.SameWidths t') (hs : List CatchHandler) :
    handlers m t hs = handlers m t' hs := by
  induction hs with
  | nil => rfl
  | cons h rest ih => simp only [handlers, handler, hw.isOpcode_eq, ih]

/-- The blocks are judged by the widths alone, and those in front of the first bad one are
marked. -/
theorem markTries_eq_of_sameWidths (hsize : t.size = m.code.size) (hw : t.SameWidths t')
    (index : ℕ) (blocks : List TryBlock) :
    markTries m index blocks t'
      = ((markTries m index blocks t).1,
          t'.stamp ((goodFront m t index blocks).flatMap blockMarks)) := by
  -- the widths of `t` stand for those of all tables that the recursion comes to
  induction blocks generalizing index t' with
  | nil => rfl
  | cons b rest ih =>
    have hbounds := tryBounds_eq_of_sameWidths (m := m) hw index b
    cases hb : tryBounds m t index b with
    | error h =>
      rw [markTries, markTries, goodFront, ← hbounds, hb]
      rfl
    | ok u =>
      have hstop := ((tryBounds_eq_ok_iff hsize index b).mp hb).stop_le
      have hnext : ∀ t₁ : FlagTable, t.SameWidths t₁ →
          t.SameWidths (t₁.markRange .inTry b.start.toNat b.count.toNat) := fun t₁ hw₁ =>
        hw₁.trans (FlagTable.SameWidths.markRange t₁ _ _ _)
      rw [markTries, markTries, goodFront, ← hbounds, hb]
      simp only
      rw [if_pos hstop, if_pos (hw.size_eq ▸ hstop), ih (hnext t' hw),
        ih (hnext t (FlagTable.SameWidths.refl t)), FlagTable.markRange_eq_stamp,
        ← FlagTable.stamp_append]
      rfl

/-- On a table with the same widths, the pass over the try blocks answers the same and puts on the
same marks. -/
theorem tries_eq_of_sameWidths (hw : t.SameWidths t') :
    tries m t' = ((tries m t).1, t'.stamp (tryMarks m t)) := by
  rw [tryMarks]
  by_cases hsize : t.size = m.code.size
  · have hblocks := markTries_eq_of_sameWidths hsize hw 0 m.tries
    have hblocks₀ := markTries_eq_of_sameWidths hsize (FlagTable.SameWidths.refl t) 0 m.tries
    have hmarked : (markTries m 0 m.tries t).2.SameWidths (markTries m 0 m.tries t').2 := by
      rw [hblocks, hblocks₀]
      refine ⟨?_, fun i => ?_⟩
      · rw [FlagTable.size_stamp, FlagTable.size_stamp, hw.size_eq]
      · rw [← (FlagTable.SameWidths.stamp t _).width_eq, hw.width_eq,
          (FlagTable.SameWidths.stamp t' _).width_eq]
    rw [tries_eq hsize, tries_eq (hw.size_eq ▸ hsize), if_pos hsize,
      handlers_eq_of_sameWidths hmarked, hblocks]
  · have hsize' : t'.size ≠ m.code.size := hw.size_eq ▸ hsize
    have hcovered := covered_eq_of_sameWidths hw m
    rw [if_neg hsize, tries, tries, ← hcovered]
    cases hc : covered m t with
    | error h => rfl
    | ok u => exact absurd ((covered_eq_ok_iff m t).mp hc) hsize

/-- Opcodes of one table can be marked in every table with the same widths. -/
theorem markAll_eq_stamp (hw : t.SameWidths t') {targets : List ℕ}
    (hop : ∀ a ∈ targets, t.isOpcode a = true) :
    markAll t' .branchTarget targets
      = (.ok (), t'.stamp (targets.map (Mark.branchTarget, ·))) := by
  rw [markAll_eq, FlagTable.markEach_eq_stamp]
  intro a ha
  rw [← hw.size_eq]
  exact FlagTable.lt_size_of_isOpcode (hop a ha)

/-- On a table with the same widths, the check of a branch answers the same and puts on the same
mark. -/
theorem branch_eq_of_sameWidths (hw : t.SameWidths t') (off : ℤ) (selfOkay : Bool) :
    branch m off selfOkay t'
      = ((branch m off selfOkay t).1,
          t'.stamp (targetMarks ((branchTarget m t off selfOkay).map fun a => [a]))) := by
  rw [branch, branch, ← branchTarget_eq_of_sameWidths hw]
  cases htarget : branchTarget m t off selfOkay with
  | error h => rfl
  | ok target =>
    have hop : ∀ a ∈ [target], t.isOpcode a = true := by
      simpa using isOpcode_of_branchTarget htarget
    simp only
    rw [markAll_eq_stamp hw hop, markAll_eq_stamp (FlagTable.SameWidths.refl t) hop]
    rfl

/-- On a table with the same widths, the check of a switch answers the same and puts on the same
marks. -/
theorem switch_eq_of_sameWidths (hw : t.SameWidths t') (off : ℤ) :
    switch m off t' = ((switch m off t).1, t'.stamp (targetMarks (switchTargets m t off))) := by
  rw [switch, switch, ← switchTargets_eq_of_sameWidths hw]
  cases htargets : switchTargets m t off with
  | error h => rfl
  | ok targets =>
    have hop := isOpcode_of_switchTargets htargets
    simp only
    rw [markAll_eq_stamp hw hop, markAll_eq_stamp (FlagTable.SameWidths.refl t) hop]
    rfl

/-- Only the widths matter to the query for a branch target. -/
theorem encodedTarget_eq_of_sameWidths (hw : t.SameWidths t') (off : ℤ) :
    encodedTarget m t off = encodedTarget m t' off := by
  rw [encodedTarget, encodedTarget, branchOf, branchOf, covered_eq_of_sameWidths hw,
    instructionAt_eq_of_sameWidths hw]

end

end Check

/-! ## Passes -/

namespace Pass

/-- On every table with the widths of `t`, the pass gives the same answer, logs the same and sets
the listed marks. -/
def Steady {α : Type} (t : FlagTable) (marks : List (Mark × ℕ)) (p : Pass α) : Prop :=
  ∀ t', t.SameWidths t' → p.run t' = ⟨(p.run t).result, t'.stamp marks, (p.run t).records⟩

namespace Steady

variable {α β : Type} {t : FlagTable} {marks : List (Mark × ℕ)}

theorem pure (a : α) : Steady t [] (Pure.pure a : Pass α) := fun _ _ => rfl

theorem note (r : Record) : Steady t [] (Pass.note r) := fun _ _ => rfl

/-- A check is steady if it answers the same on all tables with the widths and puts on the same
marks. -/
theorem ofCheck {m : Method} {check : FlagTable → Check α × FlagTable}
    (h : ∀ t', t.SameWidths t' → check t' = ((check t).1, t'.stamp marks)) :
    Steady t marks (Pass.ofCheck m check) := by
  intro t' hw
  simp only [Pass.run, Pass.ofCheck]
  rw [h t' hw]

/-- A query is steady if it answers the same on all tables with the widths. -/
theorem ofQuery {query : FlagTable → Check α}
    (h : ∀ t', t.SameWidths t' → query t = query t') : Steady t [] (Pass.ofQuery query) := by
  intro t' hw
  simp only [Pass.run, Pass.ofQuery]
  rw [h t' hw]
  rfl

/-- A pass may go on after all its marks are set. -/
theorem bind {p : Pass α} {f : α → Pass β} (hp : Steady t marks p)
    (hf : ∀ a, Steady t [] (f a)) : Steady t marks (p >>= f) := by
  intro t' hw
  have hp' := hp t' hw
  have hp₀ := hp t (FlagTable.SameWidths.refl t)
  cases hresult : (p.run t).result with
  | error h =>
    rw [hresult] at hp' hp₀
    rw [run_bind_error hp' f, run_bind_error hp₀ f]
  | ok a =>
    -- what follows runs on stamped tables, which have the widths of `t` as well
    have hf' := hf a _ (hw.trans (FlagTable.SameWidths.stamp t' marks))
    have hf₀ := hf a _ (FlagTable.SameWidths.stamp t marks)
    rw [hresult] at hp' hp₀
    rw [run_bind_ok hp' f, run_bind_ok hp₀ f, hf', hf₀, FlagTable.stamp_nil]

end Steady

end Pass

/-! ## Steps -/

namespace Step

/-- The marks that a step other than the scan sets, by the widths of the table. -/
def marks (m : Method) (t : FlagTable) : Step → List (Mark × ℕ)
  | widths => []
  | tries => tryMarks m t
  | branch off selfOkay => targetMarks ((branchTarget m t off selfOkay).map fun a => [a])
  | switch off => targetMarks (switchTargets m t off)
  | arrayData _ => []
  | encodedTarget _ => []

/-- Every pass but the scan is steady. -/
theorem steady_pass (m : Method) (t : FlagTable) {s : Step} (h : s ≠ widths) :
    Pass.Steady t (s.marks m t) (s.pass m) := by
  cases s with
  | widths => exact absurd rfl h
  | tries =>
    refine Pass.Steady.bind (Pass.Steady.bind ?_ fun _ => .note _) fun _ => .pure _
    exact .ofCheck fun _ hw => tries_eq_of_sameWidths hw
  | branch off selfOkay =>
    exact Pass.Steady.bind (.ofCheck fun _ hw => branch_eq_of_sameWidths hw off selfOkay)
      fun _ => .pure _
  | switch off =>
    exact Pass.Steady.bind (.ofCheck fun _ hw => switch_eq_of_sameWidths hw off) fun _ => .pure _
  | arrayData off =>
    refine Pass.Steady.bind (.ofCheck fun t' hw => ?_) fun _ => .pure _
    rw [← arrayData_eq_of_sameWidths hw, marks, FlagTable.stamp_nil]
  | encodedTarget off =>
    exact Pass.Steady.bind (.ofQuery fun _ hw => encodedTarget_eq_of_sameWidths hw off)
      fun _ => .pure _

/-- What the caller of a step gets to see: the answer, and what is logged. -/
def reply (m : Method) (t : FlagTable) (s : Step) : Check Answer × List Record :=
  (((s.pass m).run t).result, ((s.pass m).run t).records)

/-- The replies to a series of steps, each of which runs on the table that the others before it
have left. -/
def replies (m : Method) : List Step → FlagTable → List (Check Answer × List Record)
  | [], _ => []
  | s :: rest, t => s.reply m t :: replies m rest (s.after m t)

/-- What a step answers depends on the widths alone. -/
theorem reply_eq_of_sameWidths {m : Method} {s : Step} (h : s ≠ widths) {t t' : FlagTable}
    (hw : t.SameWidths t') : s.reply m t' = s.reply m t := by
  rw [reply, steady_pass m t h t' hw]
  rfl

/-- A step leaves the table it finds with its own marks put on. -/
theorem after_eq_stamp {m : Method} {s : Step} (h : s ≠ widths) {t t' : FlagTable}
    (hw : t.SameWidths t') : s.after m t' = t'.stamp (s.marks m t) := by
  rw [after, steady_pass m t h t' hw]

/-- In a series of steps without a scan, each step gets the reply that it would get alone on any
table with the same widths, and the table gets the marks of all steps. -/
theorem run_steady {m : Method} {steps : List Step} (h : widths ∉ steps) {t t' : FlagTable}
    (hw : t.SameWidths t') :
    replies m steps t' = steps.map (reply m t) ∧
      afterAll m steps t' = t'.stamp (steps.flatMap (marks m t)) := by
  induction steps generalizing t' with
  | nil => exact ⟨rfl, rfl⟩
  | cons s rest ih =>
    rw [List.mem_cons, not_or] at h
    have hs : s ≠ widths := fun heq => h.1 heq.symm
    have hafter := after_eq_stamp (m := m) hs hw
    obtain ⟨hreplies, htable⟩ := ih h.2 (hw.trans (FlagTable.SameWidths.stamp t' (s.marks m t)))
    constructor
    · rw [replies, reply_eq_of_sameWidths hs hw, hafter, hreplies, List.map_cons]
    · rw [afterAll, List.foldl_cons, ← afterAll, hafter, htable, List.flatMap_cons,
        FlagTable.stamp_append]

/-- The steps in another order. -/
def arrange (steps : List Step) (σ : Equiv.Perm (Fin steps.length)) : List Step :=
  List.ofFn fun i => steps.get (σ i)

theorem arrange_perm (steps : List Step) (σ : Equiv.Perm (Fin steps.length)) :
    (arrange steps σ).Perm steps := by
  have hperm := σ.ofFn_comp_perm steps.get
  rwa [List.ofFn_get] at hperm

end Step

/-- The order of the steps does not matter, and a second round of them changes nothing. -/
structure OrderFree (m : Method) (t : FlagTable) (steps : List Step) : Prop where
  /-- In any order, each call gets the reply that it gets in the order given. -/
  replies : ∀ (σ : Equiv.Perm (Fin steps.length)) (i : Fin steps.length),
    (Step.replies m (Step.arrange steps σ) t)[(i : ℕ)]? = (Step.replies m steps t)[(σ i : ℕ)]?
  /-- In any order, the steps end in the same table. -/
  table : ∀ σ : Equiv.Perm (Fin steps.length),
    Step.afterAll m (Step.arrange steps σ) t = Step.afterAll m steps t
  /-- In a second round every call gets the same reply again. -/
  replies_again : Step.replies m steps (Step.afterAll m steps t) = Step.replies m steps t
  /-- A second round leaves the table as it is. -/
  table_again : Step.afterAll m steps (Step.afterAll m steps t) = Step.afterAll m steps t

/-- On every table, whatever it holds, the passes other than the width scan can be run in any order
and any number of times: each gets the same reply, whether it succeeds or fails, and the table is
the same in the end. -/
theorem orderFree_steps {steps : List Step} (h : Step.widths ∉ steps) (m : Method)
    (t : FlagTable) : OrderFree m t steps := by
  have hrefl := FlagTable.SameWidths.refl t
  obtain ⟨hreplies, htable⟩ := Step.run_steady (m := m) h hrefl
  have harranged : ∀ σ, Step.widths ∉ Step.arrange steps σ := fun σ hmem =>
    h ((Step.arrange_perm steps σ).mem_iff.mp hmem)
  have hwidths : t.SameWidths (Step.afterAll m steps t) := by
    rw [htable]
    exact FlagTable.SameWidths.stamp t _
  have hagain := Step.run_steady (m := m) h hwidths
  constructor
  · intro σ i
    have hi : (Step.arrange steps σ)[(i : ℕ)]? = steps[(σ i : ℕ)]? := by
      rw [Step.arrange, List.getElem?_ofFn]
      simp
    rw [(Step.run_steady (m := m) (harranged σ) hrefl).1, hreplies, List.getElem?_map,
      List.getElem?_map, hi]
  · intro σ
    rw [(Step.run_steady (m := m) (harranged σ) hrefl).2, htable]
    apply FlagTable.stamp_congr
    intro p
    rw [List.mem_flatMap, List.mem_flatMap]
    simp only [(Step.arrange_perm steps σ).mem_iff]
  · rw [hagain.1, hreplies]
  -- the marks are set twice
  · rw [hagain.2, htable, ← FlagTable.stamp_append]
    apply FlagTable.stamp_congr
    intro p
    rw [List.mem_append, or_self]

/-- Checks of the loop: its try block, a branch, a switch, and a branch where there is none. -/
def loopSteps : List Step := [.branch 5 false, .tries, .switch 2, .branch 0 true, .arrayData (-1)]

/-- The checks of the loop on the table that the scan leaves. -/
theorem orderFree_loopSteps :
    Step.widths ∉ loopSteps ∧
      OrderFree switchLoop (Step.after switchLoop .widths (.blank 12)) loopSteps := by
  have hscan : Step.widths ∉ loopSteps := by decide
  exact ⟨hscan, orderFree_steps hscan _ _⟩

end Dalvik
