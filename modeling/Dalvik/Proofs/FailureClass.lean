import Mathlib
import Dalvik.Proofs.BodyVerdict

/-!
# The class of a failure

Code, name, description and category of a failure are read from a text, and texts of failures hold
names and messages that anybody may have chosen. They still cannot be forged: `unwrap?` goes from a
failure to the one inside it, the text that is read is the one at the end of that way
(`rootText_of_reaches`), and the texts of the kinds give back the parts they are made of
(`FaultKind.name_text`, `FaultKind.description_text`).
-/

namespace Dalvik

/-! ## The texts of the kinds -/

namespace FaultKind

/-- Codes and names contain no colon, and names have no white space at their ends. -/
theorem name_spec (k : FaultKind) :
    ':' ∉ k.code.toList ∧ ':' ∉ k.name.toList ∧ k.name.isEmpty = false ∧
      Text.trimChars k.name.toList = k.name.toList := by
  cases k <;> decide +kernel

/-- A description has no white space at its ends but the space that the text puts before it. -/
theorem trimChars_description (k : FaultKind) :
    Text.trimChars (' ' :: k.description.toList) = k.description.toList := by
  -- the characters are taken from the literal, since decoding its bytes takes long
  have hchars : ∃ cs, k.description = String.ofList cs ∧ Text.trimChars (' ' :: cs) = cs := by
    cases k <;> exact ⟨_, rfl, by decide +kernel⟩
  obtain ⟨cs, hcs, htrim⟩ := hchars
  rw [hcs, String.toList_ofList, htrim]

/-- The name of a kind is read back from its text. -/
theorem name_text (k : FaultKind) : CodedText.name k.text = k.name := by
  obtain ⟨-, hcolon, -, htrim⟩ := k.name_spec
  have hbar := k.code_spec.1
  have hcontains : k.text.toList.contains ':' = true := by
    rw [List.contains_iff_mem, toList_text]
    simp
  unfold CodedText.name
  rw [if_pos hcontains, toList_text, cut?_append hbar]
  dsimp only
  rw [cut?_append hcolon]
  dsimp only
  rw [htrim, String.ofList_toList]

/-- The description of a kind is read back from its text. -/
theorem description_text (k : FaultKind) : CodedText.description k.text = k.description := by
  obtain ⟨hcode, hname, -⟩ := k.name_spec
  -- the first colon stands after the name
  have htext : k.text.toList
      = (k.code.toList ++ '|' :: k.name.toList) ++ ':' :: ' ' :: k.description.toList := by
    rw [toList_text, List.append_assoc, List.cons_append]
  have hcolon : ':' ∉ k.code.toList ++ '|' :: k.name.toList := by
    simp [hcode, hname]
  unfold CodedText.description
  rw [htext, cut?_append hcolon]
  dsimp only
  rw [trimChars_description, String.ofList_toList]

theorem codeWithName_text (k : FaultKind) :
    CodedText.codeWithName k.text = k.code ++ "_" ++ k.name := by
  obtain ⟨-, -, hcode, -⟩ := k.code_spec
  obtain ⟨-, -, hname, -⟩ := k.name_spec
  unfold CodedText.codeWithName
  rw [code_text, name_text, hcode, hname]
  rfl

/-- A kind is found by its code. -/
theorem ofCode?_code (k : FaultKind) : ofCode? k.code = some k := by
  cases k <;> decide +kernel

/-- Different kinds have different codes. -/
theorem code_injective : Function.Injective code := by
  intro k k' h
  have hfound := k.ofCode?_code
  rw [h, ofCode?_code, Option.some.injEq] at hfound
  exact hfound.symm

/-- The first letter of a code stands for a category. -/
theorem category_known (k : FaultKind) : (Category.ofCode k.code).text ≠ "unknown" := by
  cases k <;> decide +kernel

end FaultKind

/-! ## From a failure to its kind -/

namespace Failure

/-- The failure inside a failure. A rejection holds its bare kind. -/
def unwrap? : Failure → Option Failure
  | rejection r => some (.kind r.kind)
  | kind _ => none
  | text _ => none
  | labelled _ inner => some inner

/-- The failure `g` is reached from `f` by going inside, any number of times. -/
def Reaches (f g : Failure) : Prop := Relation.ReflTransGen (fun f g => f.unwrap? = some g) f g

/-- Going inside keeps the text at the bottom. -/
theorem rootText_of_unwrap? {f g : Failure} (h : f.unwrap? = some g) :
    f.rootText = g.rootText := by
  cases f with
  | rejection r =>
    cases h
    rfl
  | kind k => cases h
  | text t => cases h
  | labelled label inner =>
    cases h
    rfl

/-- So the text at the bottom is that of any failure on the way there. -/
theorem rootText_of_reaches {f g : Failure} (h : f.Reaches g) : f.rootText = g.rootText := by
  induction h with
  | refl => rfl
  | tail _ hstep ih => rw [ih, rootText_of_unwrap? hstep]

/-- A rejection for a kind reaches it, whatever it says and wherever it stands. -/
theorem reaches_place (method : Option Method) (offset : Option ℤ) (k : FaultKind)
    (message : String) : (rejection (.place method offset k message)).Reaches (.kind k) :=
  .single rfl

/-- Labels are taken off one by one. -/
theorem reaches_withLabels {f g : Failure} (h : f.Reaches g) (labels : List String) :
    (f.withLabels labels).Reaches g := by
  induction labels generalizing f with
  | nil => exact h
  | cons label labels ih => exact ih (.head rfl h)

/-! ## Parts that cannot be forged -/

/-- The failure is classified as the bare kind is. -/
structure ClassifiedAs (f : Failure) (k : FaultKind) : Prop where
  code : f.code = (kind k).code
  name : f.name = (kind k).name
  description : f.description = (kind k).description
  codeWithName : f.codeWithName = (kind k).codeWithName
  category : f.category = (kind k).category
  /-- These are the parts that the text of the kind is made of. -/
  parts : f.code = k.code ∧ f.name = k.name ∧ f.description = k.description ∧
    f.codeWithName = k.code ++ "_" ++ k.name
  /-- The code belongs to a category. -/
  known : (Category.ofCode f.code).text ≠ "unknown"

/-- Only the text at the bottom is read. -/
theorem classifiedAs_of_rootText {f : Failure} {k : FaultKind} (h : f.rootText = k.text) :
    f.ClassifiedAs k := by
  have hcode : f.code = k.code := by
    rw [code, h, k.code_text]
  constructor
  · rw [code, h, code, rootText]
  · rw [name, h, name, rootText]
  · rw [description, h, description, rootText]
  · rw [codeWithName, h, codeWithName, rootText]
  · rw [category, category, code, h, code, rootText]
  · refine ⟨hcode, ?_, ?_, ?_⟩
    · rw [name, h, k.name_text]
    · rw [description, h, k.description_text]
    · rw [codeWithName, h, k.codeWithName_text]
  · rw [hcode]
    exact k.category_known

/-- A failure that reaches a kind is classified as that kind, whatever the messages, the names and
the labels on the way say, and failures that reach different kinds have different codes. -/
theorem classifiedAs_of_reaches {f f' : Failure} {k k' : FaultKind} (h : f.Reaches (.kind k))
    (h' : f'.Reaches (.kind k')) :
    f.ClassifiedAs k ∧ f'.ClassifiedAs k' ∧ (k ≠ k' → f.code ≠ f'.code) := by
  have hclass : f.ClassifiedAs k := classifiedAs_of_rootText (rootText_of_reaches h)
  have hclass' : f'.ClassifiedAs k' := classifiedAs_of_rootText (rootText_of_reaches h')
  refine ⟨hclass, hclass', fun hne hcode => hne ?_⟩
  apply FaultKind.code_injective
  rw [← hclass.parts.1, ← hclass'.parts.1, hcode]

/-- A branch to itself in a method whose names look like other faults, under labels that do too,
beside unsorted keys under the label of that branch. -/
theorem classifiedAs_of_misleadingTexts :
    let method : Method :=
      { className := "LT1|BadBounds: ;", name := "M1|EmptyCode: f", proto := "|:" }
    let rejected : Rejection := .place (some method) (some (-3)) .selfBranch "S6|KeysNotSorted: R1|"
    let f := (rejection rejected).withLabels ["A4|BadSignature: offset 7", "", "T1|"]
    let f' := (kind .switchKeys).withLabels ["B2|SelfBranch: Branch"]
    f.Reaches (.kind .selfBranch) ∧ f'.Reaches (.kind .switchKeys) ∧
      f.ClassifiedAs .selfBranch ∧ f'.ClassifiedAs .switchKeys ∧
      (FaultKind.selfBranch ≠ .switchKeys → f.code ≠ f'.code) := by
  intro method rejected f f'
  have h : f.Reaches (.kind .selfBranch) := reaches_withLabels (reaches_place _ _ _ _) _
  have h' : f'.Reaches (.kind .switchKeys) := reaches_withLabels .refl _
  exact ⟨h, h', classifiedAs_of_reaches h h'⟩

end Failure

end Dalvik
