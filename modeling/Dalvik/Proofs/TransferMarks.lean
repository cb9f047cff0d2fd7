import Mathlib
import Dalvik.Proofs.Faults
import Dalvik.Proofs.PassOrder

/-!
# What checks of branches and switches write

A branch or a switch may be checked on a table that no scan has made. Still, such a check either
fails and leaves the table alone, or it passes and adds the branch-target bit at the targets of the
instruction (`TargetsAdded`), and nothing else.

* `AllOrNothing`: a switch passes if and only if its payload table and all of its targets are good
  (`GoodSwitch`), and then it marks exactly these targets;
* `QueryAgrees`: the query for the target of a branch fails as the check of the branch does, and
  the answer of the query decides the outcome of the check.
-/

namespace Dalvik

open Layout Check

/-! ## Added targets -/

/-- The table `t'` is `t` with the branch-target bit, which is bit 17, at the addresses that satisfy
`p`. -/
structure TargetsAdded (t t' : FlagTable) (p : ℕ → Prop) : Prop where
  size_eq : t'.size = t.size
  bit_iff : ∀ a i, (t'.wordAt a).bits.getLsbD i = true ↔
    (i = 17 ∧ p a) ∨ (t.wordAt a).bits.getLsbD i = true

section

variable {m : Method} {t : FlagTable} {off : ℤ}

theorem targetsAdded_markEach {addrs : List ℕ} {p : ℕ → Prop}
    (hop : ∀ a ∈ addrs, t.isOpcode a = true) (hp : ∀ a, a ∈ addrs ↔ p a) :
    TargetsAdded t (t.markEach .branchTarget addrs) p := by
  refine ⟨FlagTable.size_markEach t _ addrs, fun a i => ?_⟩
  -- an opcode lies inside the table, so each of the marks is written
  have hlt : a ∈ addrs → a < t.size := fun ha => FlagTable.lt_size_of_isOpcode (hop a ha)
  rw [FlagTable.getLsbD_markEach, ← hp, and_iff_left_of_imp hlt]
  rfl

/-- All targets of a good switch are marked. -/
theorem switch_of_ok {targets : List ℕ} (h : switchTargets m t off = .ok targets) :
    Check.switch m off t = (.ok (), t.markEach .branchTarget targets) := by
  rw [Check.switch, h]
  exact markAll_eq fun a ha =>
    FlagTable.lt_size_of_isOpcode (isOpcode_of_switchTargets h a ha)

theorem switch_of_error {halt : Halt} (h : switchTargets m t off = .error halt) :
    Check.switch m off t = (.error halt, t) := by
  rw [Check.switch, h]

/-- The target of a good branch is marked. -/
theorem branch_of_ok {selfOkay : Bool} {target : ℕ}
    (h : branchTarget m t off selfOkay = .ok target) :
    Check.branch m off selfOkay t = (.ok (), t.markEach .branchTarget [target]) := by
  rw [Check.branch, h]
  have hlt := FlagTable.lt_size_of_isOpcode (isOpcode_of_branchTarget h)
  exact markAll_eq (by simpa using hlt)

theorem branch_of_error {selfOkay : Bool} {halt : Halt}
    (h : branchTarget m t off selfOkay = .error halt) :
    Check.branch m off selfOkay t = (.error halt, t) := by
  rw [Check.branch, h]

end

/-! ## Switches -/

/-- The switch at `o` has its payload table at `s`, with `n` entries whose targets stand from a unit
on. The table lies inside the code, the flag table has its extent, and the keys of a sparse switch
ascend. -/
inductive PayloadOf (code : Code) (t : FlagTable) (o s n : ℕ) : ℕ → Prop where
  | packed (hop : opcodeAt code o = 0x2b) (hsign : unitAt code s = 0x0100)
      (hinside : s + (4 + 2 * n) ≤ code.size) (hwidth : (t.wordAt s).width = 4 + 2 * n) :
      PayloadOf code t o s n (s + 4)
  | sparse (hop : opcodeAt code o = 0x2c) (hsign : unitAt code s = 0x0200)
      (hinside : s + (2 + 4 * n) ≤ code.size) (hwidth : (t.wordAt s).width = 2 + 4 * n)
      (hkeys : ∀ i j, i < j → j < n →
        signedAt code (s + 2 + 2 * i) < signedAt code (s + 2 + 2 * j)) :
      PayloadOf code t o s n (s + 2 + 2 * n)

/-- A switch at `o` that passes: its payload table lies at the even offset `s`, and each of the `n`
targets from the unit `first` on is that of an opcode of the flag table. -/
structure GoodSwitch (code : Code) (t : FlagTable) (o s n first : ℕ) : Prop where
  size_eq : t.size = code.size
  isOpcode : t.isOpcode o = true
  whole : o + 3 ≤ code.size
  refers : RefersTo code o s
  even : s % 2 = 0
  entries : n = unitAt code (s + 1)
  payload : PayloadOf code t o s n first
  lands : ∀ k < n, ∃ a, Lands t (o + signedAt code (first + 2 * k)) a

/-- What the check of a switch at `off` makes of the table `t`. -/
structure AllOrNothing (code : Code) (t : FlagTable) (off : ℤ) (check : Outcome Unit) : Prop where
  /-- A check that fails is a refusal, and writes nothing. -/
  nothing : ∀ halt, check.result = .error halt →
    check.table = t ∧ ∃ offset cause, halt = .refused offset cause
  /-- A check that passes was one of a good switch, and writes its targets. -/
  all : check.result = .ok () → ∃ o s n first : ℕ, off = o ∧ GoodSwitch code t o s n first ∧
    TargetsAdded t check.table fun a => ∃ k < n, (a : ℤ) = o + signedAt code (first + 2 * k)
  /-- Every good switch passes. -/
  passes : ∀ o s n first : ℕ, off = o → GoodSwitch code t o s n first → check.result = .ok ()

section

variable {code : Code} {t : FlagTable} {o s n first : ℕ}

/-- The payload table in the terms of the checks. -/
theorem payloadOf_iff (heven : s % 2 = 0) (hn : n = unitAt code (s + 1)) :
    PayloadOf code t o s n first ↔
      ∃ shape, switchShape? (Opcode.ofUnit (rawAt code o)) = some shape ∧
        TableAt code t shape.kind s ∧ (shape.kind = .sparseSwitch → KeysAscend code s) ∧
        first = s + shape.targets n := by
  subst hn
  have hfirst : ∀ n, s + 2 + 2 * n = s + sparseShape.targets n := by
    intro n
    show s + 2 + 2 * n = s + (2 + n * 2)
    omega
  constructor
  · intro h
    cases h with
    | packed hop hsign hinside hwidth =>
      exact ⟨packedShape, switchShape?_of_packed hop,
        ⟨heven, UInt16.toNat_inj.mp hsign, hinside, hwidth⟩,
        fun hkind => absurd hkind (by decide), rfl⟩
    | sparse hop hsign hinside hwidth hkeys =>
      exact ⟨sparseShape, switchShape?_of_sparse hop,
        ⟨heven, UInt16.toNat_inj.mp hsign, hinside, hwidth⟩, fun _ => hkeys, hfirst _⟩
  · rintro ⟨shape, hshape, ⟨-, hsign, hinside, hwidth⟩, hkeys, rfl⟩
    obtain ⟨hop, rfl⟩ | ⟨hop, rfl⟩ := switchShape?_cases hshape
    · exact .packed ((ofUnit_eq_iff _ _).mp hop) (UInt16.toNat_inj.mpr hsign) hinside hwidth
    · rw [← hfirst]
      exact .sparse ((ofUnit_eq_iff _ _).mp hop) (UInt16.toNat_inj.mpr hsign) hinside hwidth
        (hkeys rfl)

/-- The addresses of the cases are those of opcodes, so no address is cut off at zero. -/
theorem GoodSwitch.mem_caseAddresses (h : GoodSwitch code t o s n first) (a : ℕ) :
    a ∈ caseAddresses code o first n ↔ ∃ k < n, (a : ℤ) = o + signedAt code (first + 2 * k) := by
  rw [caseAddresses, List.mem_map]
  refine exists_congr fun k => ?_
  rw [List.mem_range]
  refine and_congr_right fun hk => ?_
  obtain ⟨target, hlands⟩ := h.lands k hk
  have heq := hlands.eq
  change (o + signedAt code (first + 2 * k)).toNat = a ↔ _
  omega

end

section

variable {m : Method} {t : FlagTable} {off : ℤ}

/-- The targets of a switch are found if and only if it is good. -/
theorem switchTargets_ok_iff_goodSwitch {targets : List ℕ} :
    switchTargets m t off = .ok targets ↔
      ∃ o s n first : ℕ, off = o ∧ GoodSwitch m.code t o s n first ∧
        targets = caseAddresses m.code o first n := by
  constructor
  · intro h
    obtain ⟨hsize, o, shape, rfl, hop, hshape, hwhole⟩ := whole_of_switchTargets h
    obtain ⟨s, href, htable, hkeys, hlands, htargets⟩ :=
      (switchTargets_eq_ok_iff hsize hop hshape hwhole).mp h
    have hpayload := (payloadOf_iff htable.even rfl).mpr ⟨shape, hshape, htable, hkeys, rfl⟩
    exact ⟨o, s, _, _, rfl, ⟨hsize, hop, hwhole, href, htable.even, rfl, hpayload, hlands⟩,
      htargets⟩
  · rintro ⟨o, s, n, first, rfl, hgood, htargets⟩
    obtain ⟨shape, hshape, htable, hkeys, rfl⟩ :=
      (payloadOf_iff hgood.even hgood.entries).mp hgood.payload
    obtain rfl := hgood.entries
    exact (switchTargets_eq_ok_iff hgood.size_eq hgood.isOpcode hshape hgood.whole).mpr
      ⟨s, hgood.refers, htable, hkeys, hgood.lands, htargets⟩

end

/-- On every table, the check of a switch marks all of its targets, or it fails and marks none. -/
theorem allOrNothing_switch (m : Method) (t : FlagTable) (off : ℤ) :
    AllOrNothing m.code t off ((Pass.switch m off).run t) := by
  cases htargets : switchTargets m t off with
  | error halt =>
    have hresult : ((Pass.switch m off).run t).result = .error halt :=
      congrArg Prod.fst (switch_of_error htargets)
    have htable : ((Pass.switch m off).run t).table = t :=
      congrArg Prod.snd (switch_of_error htargets)
    constructor
    · intro halt' herror
      rw [hresult] at herror
      cases herror
      exact ⟨htable, refuses_switchTargets m t off halt htargets⟩
    · intro hok
      rw [hresult] at hok
      cases hok
    · intro o s n first hoff hgood
      have hok := switchTargets_ok_iff_goodSwitch.mpr ⟨o, s, n, first, hoff, hgood, rfl⟩
      rw [htargets] at hok
      cases hok
  | ok targets =>
    have hresult : ((Pass.switch m off).run t).result = .ok () :=
      congrArg Prod.fst (switch_of_ok htargets)
    have htable : ((Pass.switch m off).run t).table = t.markEach .branchTarget targets :=
      congrArg Prod.snd (switch_of_ok htargets)
    constructor
    · intro halt herror
      rw [hresult] at herror
      cases herror
    · intro _
      obtain ⟨o, s, n, first, hoff, hgood, rfl⟩ := switchTargets_ok_iff_goodSwitch.mp htargets
      refine ⟨o, s, n, first, hoff, hgood, ?_⟩
      rw [htable]
      exact targetsAdded_markEach (isOpcode_of_switchTargets htargets) hgood.mem_caseAddresses
    · exact fun _ _ _ _ _ _ => hresult

/-! ## Branches -/

/-- What is wrong with a branch at `off` that goes to `a`, if anything is. -/
def branchFault? (t : FlagTable) (off a : ℤ) (selfOkay : Bool) : Option FaultKind :=
  if a = off ∧ !selfOkay then some .selfBranch
  else if 2147483647 < a then some .branchOverflow
  else if !t.isOpcode a then some .branchTarget
  else none

/-- How the query for the target of the branch at `off` relates to the check of that branch. -/
structure QueryAgrees (m : Method) (t : FlagTable) (off : ℤ) (selfOkay : Bool)
    (query : Outcome (ℤ × Bool)) (check : Outcome Unit) : Prop where
  /-- The query writes nothing. -/
  table_eq : query.table = t
  /-- It is answered for a whole branch at an opcode of a table of the right size. -/
  answered_iff : (∃ answer, query.result = .ok answer) ↔ t.size = m.code.size ∧
    ∃ o : ℕ, off = o ∧ t.isOpcode o = true ∧ HoldsBranch m.code o ∧
      o + (Opcode.ofUnit (rawAt m.code o)).width ≤ m.code.size
  /-- If the query fails, the check fails with the same kind at the same offset. -/
  failed : ∀ halt, query.result = .error halt → ∃ k offset,
    FailsWith query.result k offset ∧ FailsWith check.result k offset ∧ check.table = t
  /-- The answer is the target that the branch holds, and whether its name is that of an `if`. -/
  answer : ∀ a conditional, query.result = .ok (a, conditional) → ∃ (o : ℕ) (rel : ℤ), off = o ∧
    BranchOffset m.code o rel ∧ a = o + rel ∧
      (conditional = true ↔ "if-".toList <+: (Opcode.ofUnit (rawAt m.code o)).name.toList)
  /-- The check fails for what is wrong with the target. -/
  refused : ∀ a conditional k, query.result = .ok (a, conditional) →
    branchFault? t off a selfOkay = some k →
      FailsWith check.result k (some off) ∧ check.table = t
  /-- Else it passes and marks the target. -/
  passed : ∀ a conditional, query.result = .ok (a, conditional) →
    branchFault? t off a selfOkay = none →
      check.result = .ok () ∧ TargetsAdded t check.table fun j => (j : ℤ) = a

/-- The branches with the name of an `if` come after those with the name of a `goto`. -/
theorem ifName_iff {op : Opcode} (hbranch : op.isBranch = true) :
    "if-".toList <+: op.name.toList ↔ 0x32 ≤ op.value.toNat :=
  forall_info (P := fun n i =>
    i.flow.branches = true → ("if-".toList <+: i.name.toList ↔ 0x32 ≤ n)) (by decide +kernel) op
    hbranch

/-- No relative offset is below those of 32 bits. -/
theorem Layout.BranchOffset.le_rel {code : Code} {o : ℕ} {rel : ℤ} (h : BranchOffset code o rel) :
    -2147483648 ≤ rel := by
  have hbmod : ∀ (x : ℤ) (n : ℕ), 0 < n → n ≤ 4294967296 → -2147483648 ≤ Int.bmod x n := by
    intro x n hpos hle
    have := @Int.le_bmod x n hpos
    omega
  cases h with
  | goto8 => exact hbmod _ _ (by norm_num) (by norm_num)
  | goto16 => exact hbmod _ _ (by norm_num) (by norm_num)
  | goto32 =>
    unfold signedAt
    exact hbmod _ _ (by norm_num) (by norm_num)
  | cond => exact hbmod _ _ (by norm_num) (by norm_num)

section

variable {m : Method} {t : FlagTable} {off : ℤ}

/-- The branch at `off`, or the fault if there is none, does not depend on who asks for it. -/
theorem branchOf_cases (m : Method) (t : FlagTable) (off : ℤ) :
    (∃ b, ∀ query, branchOf m t query off = .ok b) ∨
      ∃ k offset, ∀ query, FailsWith (branchOf m t query off) k offset := by
  by_cases hsize : t.size = m.code.size
  · have hcovered := (covered_eq_ok_iff m t).mpr hsize
    by_cases hop : t.isOpcode off = true
    · have hstart : ∀ query, instructionAt t query off = .ok () := fun query =>
        (instructionAt_eq_ok_iff t query off).mpr hop
      obtain ⟨b, hb⟩ := exists_branchAt m.code off.toNat
      cases b with
      | none =>
        refine .inr ⟨.notBranch, some off, fun query => ?_⟩
        rw [branchOf, hcovered, ok_bind, hstart, ok_bind, hb, ok_bind]
        exact failsWith_refused_iff.mpr ⟨rfl, rfl⟩
      | some b =>
        refine .inl ⟨b, fun query => ?_⟩
        rw [branchOf, hcovered, ok_bind, hstart, ok_bind, hb, ok_bind]
        rfl
    · refine .inr ⟨.offsetOutOfRange, none, fun query => ?_⟩
      rw [branchOf, hcovered, ok_bind, instructionAt, if_neg hop]
      exact failsWith_refused_iff.mpr ⟨rfl, rfl⟩
  · refine .inr ⟨.flagsSize, none, fun query => ?_⟩
    rw [branchOf, covered, FlagTable.covers, if_neg (by simpa using hsize)]
    exact failsWith_refused_iff.mpr ⟨rfl, rfl⟩

/-- A branch that is found is a whole one at an opcode. -/
theorem whole_of_branchOf {query : Query} {b : Branch} (h : branchOf m t query off = .ok b) :
    t.size = m.code.size ∧ ∃ o : ℕ, off = o ∧ t.isOpcode o = true ∧ HoldsBranch m.code o ∧
      o + (Opcode.ofUnit (rawAt m.code o)).width ≤ m.code.size := by
  obtain ⟨⟨⟩, hcovered, h⟩ := bind_eq_ok.mp h
  obtain ⟨⟨⟩, hop, h⟩ := bind_eq_ok.mp h
  have hsize := (covered_eq_ok_iff m t).mp hcovered
  have hop := (instructionAt_eq_ok_iff t _ off).mp hop
  obtain ⟨o, rfl, hlt, -⟩ := exists_of_isOpcode hop
  obtain ⟨found, hfound, h⟩ := bind_eq_ok.mp h
  refine ⟨hsize, o, rfl, hop, ?_⟩
  -- anything else is decoded to nothing, which is refused
  by_contra hno
  rw [← isBranch_iff] at hno
  rw [Int.toNat_natCast, branchAt, getElem?_code (hsize ▸ hlt)] at hfound
  simp only at hfound
  rw [if_pos] at hfound
  · cases hfound
    cases h
  · rw [Bool.or_eq_true, Bool.not_eq_true', decide_eq_true_eq]
    by_cases hbranch : (Opcode.ofUnit (rawAt m.code o)).isBranch = true
    · exact .inr (Nat.not_le.mp fun hle => hno ⟨hbranch, hle⟩)
    · exact .inl (Bool.not_eq_true _ ▸ hbranch)

/-- What a branch that is found holds. -/
theorem offset_of_branchOf {query : Query} {b : Branch} (h : branchOf m t query off = .ok b) :
    ∃ o : ℕ, off = o ∧ BranchOffset m.code o b.rel ∧
      (b.conditional = true ↔
        "if-".toList <+: (Opcode.ofUnit (rawAt m.code o)).name.toList) := by
  obtain ⟨hsize, o, rfl, hop, hholds, hwhole⟩ := whole_of_branchOf h
  have hbranch := (isBranch_iff _ _).mpr hholds
  obtain ⟨rel, cond, hb, hrel, hcond⟩ := branchOf_eq_ok query hsize hop hbranch hwhole
  rw [h] at hb
  cases hb
  refine ⟨o, rfl, hrel, ?_⟩
  rw [ifName_iff hbranch, value_ofUnit]
  exact hcond

/-- The tests of the target of a branch, without those that never decide: the target is not below
the range of offsets, and an opcode lies inside the code. -/
theorem branchTarget_eq {b : Branch} (hb : branchOf m t .branchCheck off = .ok b)
    (selfOkay : Bool) :
    branchTarget m t off selfOkay =
      if off + b.rel = off ∧ !selfOkay then refuseAt off .selfBranch
      else if 2147483647 < off + b.rel then refuseAt off (.branchOverflow off b.rel)
      else if !t.isOpcode (off + b.rel) then refuseAt off (.branchTarget b.rel (off + b.rel))
      else .ok (off + b.rel).toNat := by
  obtain ⟨hsize, -⟩ := whole_of_branchOf hb
  obtain ⟨o, ho, hrel, -⟩ := offset_of_branchOf hb
  have hself : b.rel = 0 ↔ off + b.rel = off := by omega
  have hoverflow : (!fitsOffset (off + b.rel)) = true ↔ 2147483647 < off + b.rel := by
    have hle := hrel.le_rel
    rw [Bool.not_eq_true', ← Bool.not_eq_true, fitsOffset_iff]
    omega
  have hillegal : (off + b.rel < 0 ∨ (m.code.size : ℤ) ≤ off + b.rel ∨
      (!t.isOpcode (off + b.rel)) = true) ↔ (!t.isOpcode (off + b.rel)) = true := by
    refine ⟨fun h => ?_, fun h => .inr (.inr h)⟩
    by_contra hop
    obtain ⟨i, hi, hlt, -⟩ := exists_of_isOpcode (by simpa using hop)
    rcases h with h | h | h
    · omega
    · omega
    · exact hop h
  rw [branchTarget, hb, ok_bind]
  simp only [hself, hoverflow, hillegal]
  rfl

/-- A branch to a bad target is refused. -/
theorem failsWith_branchTarget {b : Branch} {selfOkay : Bool} {k : FaultKind}
    (hb : branchOf m t .branchCheck off = .ok b)
    (hk : branchFault? t off (off + b.rel) selfOkay = some k) :
    FailsWith (branchTarget m t off selfOkay) k (some off) := by
  rw [branchTarget_eq hb]
  unfold branchFault? at hk
  split_ifs at hk ⊢
  all_goals
    cases hk
    exact failsWith_refused_iff.mpr ⟨rfl, rfl⟩

/-- A branch to a good target passes. -/
theorem branchTarget_eq_ok {b : Branch} {selfOkay : Bool}
    (hb : branchOf m t .branchCheck off = .ok b)
    (hk : branchFault? t off (off + b.rel) selfOkay = none) :
    ∃ target : ℕ, (target : ℤ) = off + b.rel ∧ branchTarget m t off selfOkay = .ok target := by
  rw [branchTarget_eq hb]
  unfold branchFault? at hk
  split_ifs at hk ⊢ with hself hoverflow hop
  obtain ⟨target, htarget, -⟩ := exists_of_isOpcode (by simpa using hop)
  rw [htarget]
  exact ⟨target, rfl, rfl⟩

/-- A branch that is refused leaves the table alone. -/
theorem branch_of_failsWith {selfOkay : Bool} {k : FaultKind} {offset : Option ℤ}
    (h : FailsWith (branchTarget m t off selfOkay) k offset) :
    FailsWith (Check.branch m off selfOkay t).1 k offset ∧
      (Check.branch m off selfOkay t).2 = t := by
  obtain ⟨cause, herror, hkind⟩ := h
  rw [branch_of_error herror]
  exact ⟨⟨cause, rfl, hkind⟩, rfl⟩

/-- The query and the check agree if there is a branch. -/
theorem queryAgrees_of_found {b : Branch} (hb : ∀ query, branchOf m t query off = .ok b)
    (selfOkay : Bool) :
    QueryAgrees m t off selfOkay ((Pass.encodedTarget m off).run t)
      ((Pass.branch m off selfOkay).run t) := by
  have hquery : ((Pass.encodedTarget m off).run t).result
      = .ok (off + b.rel, b.conditional) := by
    change Check.encodedTarget m t off = _
    rw [encodedTarget, hb, ok_bind]
    rfl
  constructor
  · rfl
  · exact ⟨fun _ => whole_of_branchOf (hb .branchQuery), fun _ => ⟨_, hquery⟩⟩
  · intro halt herror
    rw [hquery] at herror
    cases herror
  · intro a conditional hanswer
    rw [hquery] at hanswer
    cases hanswer
    obtain ⟨o, rfl, hrel, hcond⟩ := offset_of_branchOf (hb .branchQuery)
    exact ⟨o, b.rel, rfl, hrel, rfl, hcond⟩
  · intro a conditional k hanswer hk
    rw [hquery] at hanswer
    cases hanswer
    exact branch_of_failsWith (failsWith_branchTarget (hb .branchCheck) hk)
  · intro a conditional hanswer hk
    rw [hquery] at hanswer
    cases hanswer
    obtain ⟨target, heq, htarget⟩ := branchTarget_eq_ok (hb .branchCheck) hk
    change (Check.branch m off selfOkay t).1 = .ok () ∧
      TargetsAdded t (Check.branch m off selfOkay t).2 _
    rw [branch_of_ok htarget]
    refine ⟨rfl, targetsAdded_markEach ?_ fun j => ?_⟩
    · simpa using isOpcode_of_branchTarget htarget
    · rw [List.mem_singleton, ← heq, Nat.cast_inj]

/-- The query and the check agree if there is none. -/
theorem queryAgrees_of_failed {k : FaultKind} {offset : Option ℤ}
    (hfails : ∀ query, FailsWith (branchOf m t query off) k offset) (selfOkay : Bool) :
    QueryAgrees m t off selfOkay ((Pass.encodedTarget m off).run t)
      ((Pass.branch m off selfOkay).run t) := by
  have hquery : FailsWith ((Pass.encodedTarget m off).run t).result k offset :=
    failsWith_bind_iff.mpr (.inl (hfails .branchQuery))
  have hcheck : FailsWith (branchTarget m t off selfOkay) k offset :=
    failsWith_bind_iff.mpr (.inl (hfails .branchCheck))
  have hno : ∀ answer, ((Pass.encodedTarget m off).run t).result ≠ .ok answer := by
    intro answer hanswer
    rw [hanswer] at hquery
    exact not_failsWith_ok answer hquery
  constructor
  · rfl
  · refine ⟨fun ⟨answer, hanswer⟩ => absurd hanswer (hno answer), ?_⟩
    rintro ⟨hsize, o, rfl, hop, hholds, hwhole⟩
    obtain ⟨rel, cond, hb, -⟩ :=
      branchOf_eq_ok .branchQuery hsize hop ((isBranch_iff _ _).mpr hholds) hwhole
    have hbad := hfails .branchQuery
    rw [hb] at hbad
    exact absurd hbad (not_failsWith_ok _)
  · exact fun _ _ => ⟨k, offset, hquery, branch_of_failsWith hcheck⟩
  · exact fun _ _ hanswer => absurd hanswer (hno _)
  · exact fun _ _ _ hanswer => absurd hanswer (hno _)
  · exact fun _ _ hanswer => absurd hanswer (hno _)

end

/-- On every table, the query for the target of a branch and the check of the branch agree. -/
theorem queryAgrees_branch (m : Method) (t : FlagTable) (off : ℤ) (selfOkay : Bool) :
    QueryAgrees m t off selfOkay ((Pass.encodedTarget m off).run t)
      ((Pass.branch m off selfOkay).run t) := by
  rcases branchOf_cases m t off with ⟨b, hb⟩ | ⟨k, offset, hfails⟩
  · exact queryAgrees_of_found hb selfOkay
  · exact queryAgrees_of_failed hfails selfOkay

end Dalvik
