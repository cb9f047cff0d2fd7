import Mathlib
import Dalvik.Analyzer
import Dalvik.Proofs.Acceptance
import Dalvik.Proofs.VerdictStore

/-!
# The verdict on a body

What the pre-analysis says about a method depends on its body alone: the names of the method and
the settings of the run change the messages and the table, but neither the cause of a refusal nor
the number of allocations (`preAnalyze_cases`). So there is one verdict on a body, and a report on
a method with that body holds it, whoever made the report (`core_merge`).
-/

namespace Dalvik

open Layout

/-! ## Sizes -/

/-- There are not more allocations than units. -/
theorem allocations_le_size (code : Code) :
    allocations code (startsFrom code 0) ≤ code.size := by
  have hnodup : (startsFrom code 0).Nodup :=
    (startsFrom_pairwise code 0).imp fun h => Nat.ne_of_lt h
  -- the starts are different offsets below the size
  have hsubset : startsFrom code 0 ⊆ List.range code.size := by
    intro o ho
    exact List.mem_range.mpr (lt_size_of_mem_startsFrom ho)
  calc allocations code (startsFrom code 0)
      ≤ (startsFrom code 0).length := List.countP_le_length
    _ ≤ (List.range code.size).length := (hnodup.subperm hsubset).length_le
    _ = code.size := List.length_range

namespace Bytes.Reader

theorem bind_eq_ok {ε α β : Type} {x : Reader ε α} {f : α → Reader ε β} {c : Cursor}
    {r : β × Cursor} (h : (x >>= f) c = .ok r) :
    ∃ a c', x c = .ok (a, c') ∧ f a c' = .ok r := by
  rw [show (x >>= f) c = (x c >>= fun p => f p.1 p.2) from rfl] at h
  cases hx : x c with
  | error e =>
    rw [hx] at h
    cases h
  | ok p =>
    rw [hx] at h
    exact ⟨p.1, p.2, rfl, h⟩

theorem mapFault_eq_ok {ε δ α : Type} {f : ε → δ} {x : Reader ε α} {c : Cursor} {r : α × Cursor}
    (h : mapFault f x c = .ok r) : x c = .ok r := by
  rw [show mapFault f x c = (x c).mapError f from rfl] at h
  cases hx : x c with
  | error e =>
    rw [hx] at h
    cases h
  | ok p =>
    rw [hx] at h
    exact congrArg _ (Except.ok.inj h)

/-- As many values are collected as were asked for. -/
theorem size_collect {ε α : Type} {step : ℕ → Reader ε α} {i n : ℕ} {acc xs : Array α}
    {c c' : Cursor} (h : collect step i n acc c = .ok (xs, c')) : xs.size = acc.size + n := by
  induction n generalizing i acc c with
  | zero =>
    cases h
    rfl
  | succ n ih =>
    simp only [collect] at h
    cases hstep : step i c with
    | error e =>
      rw [hstep] at h
      cases h
    | ok p =>
      rw [hstep] at h
      rw [ih h, Array.size_push]
      omega

end Bytes.Reader

/-- What is read for a code item: a number of units that has 32 bits, and nothing behind the units
or the try items. -/
theorem CodeItem.parse_cases {bytes : List UInt8} {item : CodeItem}
    (h : CodeItem.parse bytes = .ok item) :
    item.code.size < 2 ^ 32 ∧ ((item.tries = [] ∧ item.handlerLists = []) ∨
      ∃ tryCount start stop, CodeItem.readTries item.code.size tryCount start
        = .ok ((item.tries, item.handlerLists), stop)) := by
  unfold CodeItem.parse at h
  cases hread : CodeItem.read ⟨0, bytes⟩ with
  | error fault =>
    rw [hread] at h
    cases h
  | ok p =>
    rw [hread] at h
    cases h
    obtain ⟨registers, _, -, hread⟩ := Bytes.Reader.bind_eq_ok hread
    obtain ⟨ins, _, -, hread⟩ := Bytes.Reader.bind_eq_ok hread
    obtain ⟨outs, _, -, hread⟩ := Bytes.Reader.bind_eq_ok hread
    obtain ⟨tryCount, _, -, hread⟩ := Bytes.Reader.bind_eq_ok hread
    obtain ⟨debugInfo, _, -, hread⟩ := Bytes.Reader.bind_eq_ok hread
    obtain ⟨units, _, -, hread⟩ := Bytes.Reader.bind_eq_ok hread
    obtain ⟨_, _, -, hread⟩ := Bytes.Reader.bind_eq_ok hread
    obtain ⟨code, _, hcode, hread⟩ := Bytes.Reader.bind_eq_ok hread
    have hsize : code.size = units.toNat := by
      rw [Bytes.Reader.size_collect (Bytes.Reader.mapFault_eq_ok hcode), Array.size_empty, zero_add]
    have hlt : code.size < 2 ^ 32 := by
      rw [hsize]
      exact units.toNat_lt
    dsimp only at hread
    split_ifs at hread with htries
    · obtain ⟨_, _, hrest, hread⟩ := Bytes.Reader.bind_eq_ok hread
      obtain ⟨_, _, -, hread⟩ := Bytes.Reader.bind_eq_ok hread
      cases hrest
      cases hread
      exact ⟨hlt, .inl ⟨rfl, rfl⟩⟩
    · obtain ⟨rest, _, hrest, hread⟩ := Bytes.Reader.bind_eq_ok hread
      obtain ⟨_, _, -, hread⟩ := Bytes.Reader.bind_eq_ok hread
      cases hread
      rw [← hsize] at hrest
      exact ⟨hlt, .inr ⟨_, _, _, hrest⟩⟩

/-! ## Names and settings -/

section

open Pass

theorem andThen_andThen {α β γ : Type} (x : Check α × FlagTable)
    (f : α → FlagTable → Check β × FlagTable) (g : β → FlagTable → Check γ × FlagTable) :
    andThen (andThen x f) g = andThen x fun a t => andThen (f a t) g := by
  rcases x with ⟨_ | _, t⟩ <;> rfl

/-- Collection points are marked after everything else. -/
theorem effect_all_gcPoints (m : Method) (gcPoints : Bool) (t : FlagTable) :
    ((Pass.all m gcPoints).run t).effect =
      andThen ((Pass.all m false).run t).effect fun n t =>
      andThen (if gcPoints then Check.walk m.code.size (Check.gcPoint m) 0 t else (.ok (), t))
        fun _ t => (.ok n, t) := by
  simp only [effect_all, andThen_andThen]
  rfl

/-- The method under other names. -/
def Method.renamed (m : Method) (c n p : String) : Method :=
  { m with className := c, name := n, proto := p }

theorem markTries_renamed (m : Method) (c n p : String) (index : ℕ) (blocks : List TryBlock)
    (t : FlagTable) :
    Check.markTries (m.renamed c n p) index blocks t = Check.markTries m index blocks t := by
  induction blocks generalizing index t with
  | nil => rfl
  | cons b rest ih =>
    have hbounds : Check.tryBounds (m.renamed c n p) t index b = Check.tryBounds m t index b := rfl
    simp only [Check.markTries, hbounds, ih]

theorem handlers_renamed (m : Method) (c n p : String) (t : FlagTable) (hs : List CatchHandler) :
    Check.handlers (m.renamed c n p) t hs = Check.handlers m t hs := by
  induction hs with
  | nil => rfl
  | cons h rest ih =>
    have hhandler : Check.handler (m.renamed c n p) t h = Check.handler m t h := rfl
    simp only [Check.handlers, hhandler, ih]

theorem tries_renamed (m : Method) (c n p : String) :
    Check.tries (m.renamed c n p) = Check.tries m := by
  funext t
  have hcovered : Check.covered (m.renamed c n p) t = Check.covered m t := rfl
  have hall : (m.renamed c n p).allHandlers = m.allHandlers := rfl
  have htries : (m.renamed c n p).tries = m.tries := rfl
  simp only [Check.tries, hcovered, hall, htries, markTries_renamed, handlers_renamed]

theorem caseTargets_renamed (m : Method) (c n p : String) (t : FlagTable) (off : ℤ)
    (index i count : ℕ) (acc : Array ℕ) :
    Check.caseTargets (m.renamed c n p) t off index i count acc
      = Check.caseTargets m t off index i count acc := by
  induction count generalizing index i acc with
  | zero => rfl
  | succ count ih =>
    have hcase : Check.caseTarget (m.renamed c n p) t off index i = Check.caseTarget m t off index i :=
      rfl
    simp only [Check.caseTargets, hcase, ih]

theorem instruction_renamed (m : Method) (c n p : String) :
    Check.instruction (m.renamed c n p) = Check.instruction m := by
  -- only the cases of a switch are looked at in a loop of their own
  have hcases : Check.caseTargets (m.renamed c n p) = Check.caseTargets m := by
    funext t off index i count acc
    exact caseTargets_renamed m c n p t off index i count acc
  have hswitch : Check.switchTargets (m.renamed c n p) = Check.switchTargets m := by
    unfold Check.switchTargets
    rw [hcases]
    rfl
  funext off t
  have hswitch' : Check.switch (m.renamed c n p) off t = Check.switch m off t := by
    unfold Check.switch
    rw [hswitch]
  unfold Check.instruction
  rw [hswitch']
  rfl

/-- The names of a method play no part in its analysis. -/
theorem effect_all_renamed (m : Method) (c n p : String) (gcPoints : Bool) (t : FlagTable) :
    ((Pass.all (m.renamed c n p) gcPoints).run t).effect = ((Pass.all m gcPoints).run t).effect := by
  rw [effect_all, effect_all, tries_renamed, instruction_renamed]
  rfl

/-- A body is accepted with the same number of allocations, or refused for the same cause, under
all names and settings. -/
theorem preAnalyze_cases (item : CodeItem) :
    (∃ count ≤ item.code.size, ∀ config c n p, ∃ table,
        (preAnalyze config (item.toMethod c n p)).result
          = .ok ⟨item.toMethod c n p, table, count⟩) ∨
      ∃ offset cause, ∀ config c n p,
        (preAnalyze config (item.toMethod c n p)).result = .error (.refused offset cause) := by
  have hrename : ∀ gcPoints c n p,
      ((Pass.all (item.toMethod c n p) gcPoints).run (.blank item.code.size)).effect
        = ((Pass.all (item.toMethod "" "" "") gcPoints).run (.blank item.code.size)).effect := by
    intro gcPoints c n p
    exact effect_all_renamed (item.toMethod "" "" "") c n p gcPoints _
  -- the settings decide on collection points, which add no failure
  by_cases hwf : WellFormed (item.toMethod "" "" "")
  · refine .inl ⟨_, allocations_le_size item.code, ?_⟩
    intro config c n p
    obtain ⟨t, targets, heffect, -⟩ := all_wellFormed hwf config.gcPoints
    exact ⟨_, preAnalyze_of_ok ((hrename config.gcPoints c n p).trans heffect)⟩
  · obtain ⟨offset, cause, hrefused⟩ := all_refused hwf false
    refine .inr ⟨offset, cause, ?_⟩
    intro config c n p
    apply preAnalyze_of_error
    -- the failure comes before collection points are marked
    show ((Pass.all (item.toMethod c n p) config.gcPoints).run (.blank item.code.size)).effect.1 = _
    rw [hrename, effect_all_gcPoints]
    exact andThen_error hrefused

end

/-! ## Codes -/

theorem cut?_append {sep : Char} {before : List Char} (h : sep ∉ before) (after : List Char) :
    CodedText.cut? sep (before ++ sep :: after) = some (before, after) := by
  induction before with
  | nil => exact if_pos rfl
  | cons c before ih =>
    rw [List.mem_cons, not_or] at h
    rw [List.cons_append, CodedText.cut?, if_neg (Ne.symm h.1), ih h.2]
    rfl

/-- The codes of the kinds: short words without a bar, none of which stands for bad input. -/
theorem FaultKind.code_spec (k : FaultKind) :
    '|' ∉ k.code.toList ∧ Text.trimChars k.code.toList = k.code.toList ∧
      k.code.isEmpty = false ∧ k.code ≠ Analyzer.decodeCode := by
  cases k <;> decide +kernel

theorem FaultKind.toList_text (k : FaultKind) :
    k.text.toList
      = k.code.toList ++ '|' :: (k.name.toList ++ ':' :: ' ' :: k.description.toList) := by
  unfold FaultKind.text
  simp only [String.toList_append, List.append_assoc]
  rfl

/-- The code of a kind is read back from its text. -/
theorem FaultKind.code_text (k : FaultKind) : CodedText.code k.text = k.code := by
  obtain ⟨hbar, htrim, -, -⟩ := k.code_spec
  unfold CodedText.code
  rw [toList_text, cut?_append hbar]
  dsimp only
  rw [htrim, String.ofList_toList]

/-- The code and the category of a refusal are those of its cause. -/
theorem failure_refused (m : Method) (offset : Option ℤ) (cause : Cause) :
    ((Halt.refused offset cause).failure m).code = cause.kind.code ∧
      ((Halt.refused offset cause).failure m).category.text
        = Analyzer.categoryOf cause.kind.code := by
  obtain ⟨-, -, hempty, hdecode⟩ := cause.kind.code_spec
  -- the text of a failure starts with the code of its kind
  have hcode : ((Halt.refused offset cause).failure m).code = cause.kind.code :=
    cause.kind.code_text
  refine ⟨hcode, ?_⟩
  unfold Analyzer.categoryOf Failure.category
  rw [hcode, if_neg (by simp [hempty]), if_neg hdecode]

/-! ## Reports -/

/-- What a report says about its entry, without the message, the detail and where it comes from. -/
def MethodReport.core (r : MethodReport) : MethodReport where
  className := r.className
  method := r.method
  proto := r.proto
  hash := r.hash
  accepted := r.accepted
  code := r.code
  category := r.category
  insns := r.insns
  newInstances := r.newInstances

/-- What a verdict says about a body, without the message and the version. -/
def Verdict.core (v : Verdict) : Verdict where
  accepted := v.accepted
  code := v.code
  insns := v.insns
  newInstances := v.newInstances

namespace Analyzer

/-- The report on an entry before anything but its digest is known. -/
def blankReport (e : ManifestEntry) (hash : Digest) : MethodReport :=
  { className := e.className, method := e.method, proto := e.proto, hash }

/-- The verdict on a body. -/
def bodyVerdict (item : CodeItem) : Verdict :=
  match (preAnalyze {} (item.toMethod "" "" "")).result with
  | .ok found =>
    { accepted := true, insns := item.code.size, newInstances := found.newInstances }
  | .error h => { code := (h.failure (item.toMethod "" "" "")).code, insns := item.code.size }

/-- The result for the method of an entry with a body. -/
def analysed (config : Config) (e : ManifestEntry) (item : CodeItem) : MethodResult :=
  let m := item.toMethod e.className e.method e.proto
  ⟨m, .analysed (preAnalyze config m)⟩

/-- A report that holds a verdict depends on the core of that only, apart from its message. -/
theorem core_ofVerdict {v v' : Verdict} (h : v.core = v'.core) (r : MethodReport) :
    (ofVerdict r v).core = (ofVerdict r v').core := by
  unfold Verdict.core at h
  simp only [Verdict.mk.injEq] at h
  simp [ofVerdict, MethodReport.core, h]

/-- Merging the result for an accepted method; detail leaves the core alone. -/
theorem merge_accepted (a : Analyzer) (r : MethodReport) (m : Method) {v : Verification}
    {found : Analysis} (h : v.result = .ok found) :
    (merge a r ⟨m, .analysed v⟩).core
        = { r with accepted := true, newInstances := found.newInstances }.core ∧
      (merge a r ⟨m, .analysed v⟩).cached = r.cached := by
  obtain ⟨result, records⟩ := v
  cases h
  by_cases hdetail : a.detail = true
  · simp [merge, hdetail, MethodReport.core]
  · simp [merge, hdetail, MethodReport.core]

/-- Merging the result for a refused method. -/
theorem merge_refused (a : Analyzer) (r : MethodReport) (m : Method) {v : Verification} {h : Halt}
    (hv : v.result = .error h) :
    merge a r ⟨m, .analysed v⟩ = { r with
      code := (h.failure m).code
      category := (h.failure m).category.text
      message := (h.failure m).message } := by
  obtain ⟨result, records⟩ := v
  cases hv
  rfl

/-- A report on an analysed method holds the verdict on its body. -/
theorem core_merge (a : Analyzer) (e : ManifestEntry) (hash : Digest) (item : CodeItem) :
    (merge a { blankReport e hash with insns := item.code.size } (analysed a.config e item)).core
      = (ofVerdict (blankReport e hash) (bodyVerdict item)).core := by
  obtain ⟨count, -, hok⟩ | ⟨offset, cause, herror⟩ := preAnalyze_cases item
  · obtain ⟨table, hbody⟩ := hok {} "" "" ""
    obtain ⟨table', hentry⟩ := hok a.config e.className e.method e.proto
    unfold analysed bodyVerdict
    rw [(merge_accepted a _ _ hentry).1, hbody]
    rfl
  · -- neither the code nor the category of a refusal depends on the method
    unfold analysed bodyVerdict
    rw [merge_refused a _ _ (herror a.config e.className e.method e.proto), herror {} "" "" ""]
    simp only [failure_refused, ofVerdict, blankReport, MethodReport.core]

/-- An analysis does not come from a store. -/
theorem cached_merge (a : Analyzer) (r : MethodReport) (config : Config) (e : ManifestEntry)
    (item : CodeItem) : (merge a r (analysed config e item)).cached = r.cached := by
  obtain ⟨count, -, hok⟩ | ⟨offset, cause, herror⟩ := preAnalyze_cases item
  · obtain ⟨table, hentry⟩ := hok config e.className e.method e.proto
    exact (merge_accepted a r _ hentry).2
  · unfold analysed
    rw [merge_refused a _ _ (herror config e.className e.method e.proto)]

/-- The verdict of a report on an analysed method is the one on its body. -/
theorem core_toVerdict_merge (a : Analyzer) (e : ManifestEntry) (hash : Digest) (item : CodeItem) :
    (toVerdict (merge a { blankReport e hash with insns := item.code.size }
      (analysed a.config e item))).core = (bodyVerdict item).core := by
  have hcore : ∀ r : MethodReport, (toVerdict r).core = (toVerdict r.core).core := fun _ => rfl
  rw [hcore, core_merge]
  rfl

/-- The numbers of a verdict on a code item fit into 64 bits. -/
theorem fits_bodyVerdict {bytes : List UInt8} {item : CodeItem}
    (h : CodeItem.parse bytes = .ok item) :
    Json.Decoder.FitsInt64 (bodyVerdict item).insns ∧
      Json.Decoder.FitsInt64 (bodyVerdict item).newInstances := by
  have hsize := (CodeItem.parse_cases h).1
  unfold bodyVerdict
  obtain ⟨count, hcount, hok⟩ | ⟨offset, cause, herror⟩ := preAnalyze_cases item
  · obtain ⟨table, hbody⟩ := hok {} "" "" ""
    rw [hbody]
    exact ⟨Json.Decoder.fitsInt64_of_lt hsize,
      Json.Decoder.fitsInt64_of_lt (hcount.trans_lt hsize)⟩
  · rw [herror {} "" "" ""]
    exact ⟨Json.Decoder.fitsInt64_of_lt hsize, Json.Decoder.fitsInt64_zero⟩

end Analyzer

end Dalvik
